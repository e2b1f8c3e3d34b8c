import Forthline.Proofs.Results
import Forthline.Session.Event

/-!
# Invariants of sessions

Around its lines a session does little to its machine: it begins and ends them, wakes those that
were suspended, and tells its listeners. A property of machines that survives this, and whatever a
line does, survives what the host asks of a session.
-/

namespace Forthline

structure Ledger where
  continuations : Nat
  spent : List Nat
  waiting : Option Nat
  kept : List Nat
  sleeping : List (Binary64 × Nat)
  fired : Option Nat

def Ledger.Known (l : Ledger) (c : Nat) : Prop :=
  l.waiting = some c ∨ l.fired = some c ∨ c ∈ l.kept

structure Estate where
  memory : Memory Subscription
  dictionary : Dictionary
  rack : Rack
  bindings : List PortBinding
  subscriptionCount : Nat
  ledger : Ledger

namespace Machine

def ledger (m : Machine) : Ledger where
  continuations := m.continuations
  spent := m.spent
  waiting := m.waiting
  kept := m.kept
  sleeping := m.sleeping
  fired := m.fired

def estate (m : Machine) : Estate where
  memory := m.memory
  dictionary := m.dictionary
  rack := m.rack
  bindings := m.bindings
  subscriptionCount := m.subscriptionCount
  ledger := m.ledger

end Machine

namespace Run

/-- The property survives what lines do, and the end of waiting for a key. Apart from the definition
that is open, it only says something of what stays when a line ends. -/
structure Lasts (I : Machine → Prop) : Prop where
  carries : Carries I
  aside : ∀ ⦃m n⦄, I m → n.estate = m.estate → n.pending = m.pending ∨ n.pending = none → I n
  drop : ∀ ⦃m⦄, I m → I { m with waiting := none }

section Lines

variable {I : Machine → Prop} (hI : Lasts I)

include hI

theorem Lasts.logged {m n : Machine} (hm : I m) (h : m.Logged n) : I n := by
  obtain ⟨_, _, rfl⟩ := h
  exact hI.aside hm rfl (.inl rfl)

theorem Lasts.ended {m : Machine} (hm : I m) (o : Except Failure Bool) : I (m.ended o) := by
  rcases o with f | _ | _
  · exact hI.aside (hI.drop hm) rfl (.inr rfl)
  · exact hm
  · exact hI.aside hm rfl (.inl rfl)

theorem Lasts.report (level : Level) (category message : String) :
    Keeps I (report level category message) := by
  refine Keeps.of_on fun m hm => ?_
  obtain ⟨n, hn, h⟩ := report_logged level category message m
  rw [h]
  exact hI.logged hm hn

theorem conclude_keeps (o : Except Failure Bool) : Keeps I (conclude o) := by
  refine Keeps.of_on fun m hm => ?_
  have hended := hI.ended hm o
  cases hmap : m.memory.map with
  | error c =>
    obtain ⟨n, hn, h⟩ := conclude_of_error hmap o
    rw [h]
    exact hI.logged hended hn
  | ok map =>
    obtain ⟨n, hn, h⟩ := conclude_of_map hmap o
    rw [h]
    refine hI.logged ?_ hn
    rcases o with f | _ | _
    · exact hI.aside hended rfl (.inl rfl)
    · exact hended
    · exact hI.aside hended rfl (.inl rfl)

theorem drive_keeps (fuel : Nat) : Keeps I (drive fuel) := by
  have hrunning (running : Bool) : Keeps I (modify fun m => { m with running } : Run PUnit) :=
    Keeps.modify fun m hm => hI.aside hm rfl (.inl rfl)
  refine (hrunning true).bind fun _ => ?_
  refine Matches.bind (Matches.tryCatch ((continueLine_keeps hI.carries fuel).map _) ?_) ?_
  · intro stop
    cases stop with
    | failed f => exact Matches.pure _
    | exhausted => exact Matches.throw _
  · intro o
    refine (hrunning false).bind fun _ => ?_
    rcases o with f | _ | _
    · exact conclude_keeps hI (.error f)
    · exact conclude_keeps hI (.ok false)
    · exact conclude_keeps hI (.ok true)

theorem readLine_keeps (fuel : Nat) (text : String) : Keeps I (readLine fuel text) := by
  refine Keeps.of_on fun m hm => ?_
  cases hfree : m.line.isSome || m.paused || m.running with
  | true =>
    rw [readLine_of_busy fuel text hfree]
    exact hm
  | false =>
    obtain ⟨n, hn, -, h⟩ := readLine_of_free hfree text
    have hbegun : I (m.begun text) := hI.aside hm rfl (.inl rfl)
    rw [h]
    exact (drive_keeps hI fuel).on (hI.logged hbegun hn)

theorem load_keeps_of (hadd : ∀ e ∈ Builtin.installed, Keeps I (addWord e.1 e.2 false)) (fuel : Nat)
    (withLibrary : Bool) : Keeps I (load fuel withLibrary) := by
  have hbuiltins : Keeps I installBuiltins := Matches.forM_of_mem hadd
  have hlibrary : Keeps I (loadLibrary fuel) := by
    refine (Matches.mapM _ fun text => readLine_keeps hI fuel text).bind fun results => ?_
    refine (Matches.forM _ fun r => ?_).bind fun _ =>
      Keeps.of_on fun m hm => hI.aside hm rfl (.inl rfl)
    cases r.failure with
    | none => exact Matches.pure _
    | some f => exact Matches.throw _
  have hcount : Keeps I (do
      let count := (← get).dictionary.words.size
      report .debug "Dictionary" s!"Loaded {count} words.") :=
    Keeps.get_bind fun m _ => hI.report _ _ _
  refine hbuiltins.bind fun _ => ?_
  cases withLibrary with
  | false => exact hcount
  | true => exact hlibrary.bind fun _ => hcount

end Lines

/-- The property survives what lines do, the end of waiting for a key, and the call of a
continuation. Apart from that it only says something of what stays when a line ends. -/
structure Persists (I : Machine → Prop) : Prop where
  carries : Carries I
  heeds : Heeds (Itself I)
  reads : Reads (Itself I)
  aside : ∀ ⦃m n⦄, I m → n.estate = m.estate → I n
  drop : ∀ ⦃m⦄, I m → I { m with waiting := none }
  wake : ∀ ⦃m c⦄, I m → m.ledger.Known c → I { m with spent := c :: m.spent, paused := false }
  fire : ∀ ⦃m place e⦄, I m → m.sleeping[place]? = some e →
    I { m with sleeping := m.sleeping.eraseIdx place, fired := some e.2 }

theorem Persists.lasts {I : Machine → Prop} (hI : Persists I) : Lasts I where
  carries := hI.carries
  aside := fun _ _ hm h _ => hI.aside hm h
  drop := hI.drop

section Sessions

variable {I : Machine → Prop} (hI : Persists I)

include hI

theorem resume_keeps_on (fuel : Nat) {m : Machine} {c : Nat} (hm : I m)
    (hwoken : I { m with spent := c :: m.spent, paused := false }) :
    I ((resume fuel c).on m).2 := by
  unfold resume
  cases hs : m.spent.contains c with
  | true =>
    rw [on_bind_error (wake_of_spent hs)]
    exact hm
  | false =>
    rw [on_bind_ok (wake_of_fresh hs), on_get_bind]
    split
    · have hreport := report_matches hI.heeds.toMinds
      exact Keeps.on ((hreport _ _ _).bind fun _ => (drive_keeps hI.lasts fuel).map _) hwoken
    · exact hwoken

theorem sendKey_keeps (fuel : Nat) {key : Value}
    (hstore : ∀ ⦃m a⦄, I m → m.memory.addressOf? "last-key" = some a →
      I ((store (betweenLines fuel) (.int a) key 1).on m).2) :
    Keeps I (sendKey fuel key) := by
  refine deliverKey_bind_matches hI.heeds ?_ (Matches.pure _) ?_
  · rintro m _ a ⟨rfl, hm⟩ ha
    exact ⟨rfl, rfl, hstore hm ha⟩
  · rintro m _ c ⟨rfl, hm⟩ hc
    have hkeyed : ∀ ⦃n : Machine⦄, I n → I (n.keyed key) := by
      intro n hn
      exact (keyed_matches hI.heeds.toMinds key ⟨rfl, hn⟩).2
    have hwoken := hkeyed (hI.wake hm (.inl hc))
    exact ⟨rfl, rfl, resume_keeps_on hI fuel (hkeyed hm) hwoken⟩

theorem fire_keeps (fuel place : Nat) : Keeps I (fire fuel place) := by
  refine Keeps.of_on fun m hm => ?_
  unfold fire
  rw [on_get_bind]
  cases hplace : m.sleeping[place]? with
  | none => exact hm
  | some e =>
    have hfired := hI.fire hm hplace
    dsimp only
    rw [on_modify_bind, on_bind_pure_snd]
    exact resume_keeps_on hI fuel hfired (hI.wake hfired (.inr (.inl rfl)))

theorem refire_keeps (fuel : Nat) : Keeps I (refire fuel) := by
  refine Keeps.of_on fun m hm => ?_
  unfold refire
  rw [on_get_bind]
  cases hfired : m.fired with
  | none => exact hm
  | some c =>
    dsimp only
    rw [on_bind_pure_snd]
    exact resume_keeps_on hI fuel hm (hI.wake hm (.inr (.inl hfired)))

theorem resumeKept_keeps (fuel place : Nat) : Keeps I (resumeKept fuel place) := by
  refine Keeps.of_on fun m hm => ?_
  unfold resumeKept
  rw [on_get_bind]
  cases hkept : m.kept[place]? with
  | none => exact hm
  | some c =>
    dsimp only
    rw [on_bind_pure_snd]
    exact resume_keeps_on hI fuel hm (hI.wake hm (.inr (.inr (List.mem_of_getElem? hkept))))

theorem addHostWord_keeps (name : String) (w : HostWord) (permanent : Bool) :
    Keeps I (addHostWord name w permanent) := by
  have hword : Keeps I (hostWord name w) := by
    cases w with
    | word w => exact Matches.pure _
    | named target => exact Keeps.get_bind fun m _ => Matches.lift _
    | function signature apply => exact Matches.lift _
    | task signature task => exact Matches.lift _
    | value v => exact (Matches.lift _).bind fun _ => Matches.fail _
  refine hword.bind fun word => ?_
  exact (addWord_matches hI.heeds hI.reads name word permanent).bind fun _ => Matches.pure _

theorem dismiss_keeps (l : Listener) : Keeps I (dismiss l) := by
  refine Keeps.get_bind fun m hm => ?_
  cases l with
  | line number =>
    exact Matches.ite _ (Keeps.of_on fun _ _ => hI.aside hm rfl) (Matches.fail _)
  | log number =>
    exact Matches.ite _ (Keeps.of_on fun _ _ => hI.aside hm rfl) (Matches.fail _)

theorem load_keeps (fuel : Nat) (withLibrary : Bool) : Keeps I (load fuel withLibrary) :=
  load_keeps_of hI.lasts (fun _ _ => addWord_matches hI.heeds hI.reads _ _ _) fuel withLibrary

end Sessions

/-- The property only says something of the memory and the rack. It survives the moves of the
allocator and the declaration of variables. -/
structure Grounded (I : Machine → Prop) : Prop where
  ground : ∀ ⦃m n⦄, I m → n.memory = m.memory → n.rack = m.rack → I n
  spare : ∀ ⦃m w⦄, I m → m.workspace.Spares w → I (m.work w)
  declare : ∀ ⦃m name a memory⦄, I m → m.memory.addVariable name 1 = .ok (a, memory) →
    I { m with memory }

namespace Grounded

variable {I : Machine → Prop} (hI : Grounded I)

include hI

theorem heeds : Heeds (Itself I) where
  workspace := by
    rintro m _ ⟨rfl, -⟩
    rfl
  rack := by
    rintro m _ ⟨rfl, -⟩
    rfl
  spent := by
    rintro m _ ⟨rfl, -⟩
    rfl
  threshold := by
    rintro m _ ⟨rfl, -⟩
    rfl
  logListeners := by
    rintro m _ ⟨rfl, -⟩
    rfl
  work := by
    rintro m _ w ⟨rfl, hm⟩ hw
    exact ⟨rfl, hI.spare hm hw⟩
  write := by
    rintro m _ text ⟨rfl, hm⟩
    exact ⟨rfl, hI.ground hm rfl rfl⟩
  emit := by
    rintro m _ e ⟨rfl, hm⟩ -
    exact ⟨rfl, hI.ground hm rfl rfl⟩
  note := by
    rintro m _ e ⟨rfl, hm⟩
    exact ⟨rfl, hI.ground hm rfl rfl⟩

theorem passes : Passes I where
  pause := fun _ hm => hI.ground hm rfl rfl
  hold := fun _ hm => hI.ground hm rfl rfl
  await := fun _ hm => hI.ground hm rfl rfl
  touch := fun _ hm => hI.ground hm rfl rfl
  sleep := fun _ _ hm => hI.ground hm rfl rfl
  rest := fun _ _ _ _ _ _ _ hm => hI.ground hm rfl rfl

theorem reads : Reads (Itself I) :=
  itself_reads (fun _ _ hm => hI.ground hm rfl rfl)
    (fun _ _ _ _ _ hm _ => hI.ground hm rfl rfl) hI.declare

theorem writingTask_keeps
    (hstore : ∀ address value size, Keeps I (store withinLine address value size)) {t : Task}
    (ht : t.writes = true) : Keeps I (task t) := by
  have hsetPort (device port : String) (value : Value) :
      Keeps I (setPort withinLine device port value) :=
    Keeps.get_bind fun _ _ => (Matches.lift _).bind fun _ =>
      Matches.ite _ (Matches.fail _) (hstore _ _ _)
  cases t with
  | store =>
    refine (pop_matches hI.heeds).bind fun address => (pop_matches hI.heeds).bind fun value => ?_
    exact Keeps.get_bind fun _ _ => (Matches.lift _).bind fun _ => hstore _ _ _
  | bumpPort device port =>
    refine (bound_matches device).bind fun d => ?_
    refine (portValue_matches hI.heeds d port).bind fun v => ?_
    exact (Matches.lift _).bind fun _ => hsetPort _ _ _
  | storePort device port =>
    refine (pop_matches hI.heeds).bind fun v => (bound_matches device).bind fun d => ?_
    exact hsetPort _ _ _
  | sendKey =>
    have hwake (c : Nat) : Keeps I (wake c) := by
      refine Keeps.get_bind fun m hm => ?_
      exact Matches.ite _ (Matches.fail _) (Keeps.of_on fun _ _ => hI.ground hm rfl rfl)
    refine (pop_matches hI.heeds).bind fun key => ?_
    apply deliverKey_bind_matches hI.heeds
    · intro m n a h _
      exact hstore _ _ _ h
    · exact Matches.pure _
    · rintro m _ c ⟨rfl, hm⟩ -
      exact hwake c ⟨rfl, hI.ground hm rfl rfl⟩
  | _ => cases ht

section Writing

variable (hwrites : ∀ t : Task, t.writes = true → Keeps I (task t))

include hwrites

theorem native_keeps (name : String) (c : Code) : Keeps I (native name c) :=
  native_matches_of_writes hI.heeds name (fun t _ ht => hwrites t ht)
    (fun _ => hI.passes.pauses)
    (fun _ => sleep_matches hI.heeds hI.passes.pauses hI.passes.sleeps)
    fun _ => quote_matches hI.heeds hI.passes.scans

theorem carries : Carries I where
  nextToken := nextToken_matches hI.passes.scans
  interpret := interpret_matches hI.heeds hI.reads hI.passes.scans
  recordToken := fun _ => Keeps.modify fun _ hm => hI.ground hm rfl rfl
  pushFrame := pushFrame_matches hI.passes.tracks
  advance := fun _ => advance_matches_of_native hI.passes.tracks hI.heeds
    fun name c _ => hI.native_keeps hwrites name c

theorem persists : Persists I where
  carries := hI.carries hwrites
  heeds := hI.heeds
  reads := hI.reads
  aside := fun _ _ hm h => hI.ground hm (congrArg Estate.memory h) (congrArg Estate.rack h)
  drop := fun _ hm => hI.ground hm rfl rfl
  wake := fun _ _ hm _ => hI.ground hm rfl rfl
  fire := fun _ _ _ hm _ => hI.ground hm rfl rfl

end Writing

end Grounded

end Run

namespace Session

inductive Call where
  | readLine (text : String)
  | sendKey (key : Value)
  | fire (place : Nat)
  | refire
  | resumeKept (place : Nat)
  | addWord (name : String) (word : HostWord) (permanent : Bool)
  | listenToLines
  | listenToLog
  | dismiss (l : Listener)
  | poke (address value : Value) (size : Int)

def Call.run (fuel : Nat) : Call → Run Unit
  | readLine text => discard (Run.readLine fuel text)
  | sendKey key => discard (Run.sendKey fuel key)
  | fire place => discard (Run.fire fuel place)
  | refire => discard (Run.refire fuel)
  | resumeKept place => discard (Run.resumeKept fuel place)
  | addWord name word permanent => discard (Run.addHostWord name word permanent)
  | listenToLines => discard Run.listenToLines
  | listenToLog => discard Run.listenToLog
  | dismiss l => Run.dismiss l
  | poke address value size => Run.poke fuel address value size

open Run in
theorem Call.keeps_of {I : Machine → Prop} (hI : Persists I) (fuel : Nat) {call : Call}
    (hkey : ∀ ⦃key m a⦄, call = .sendKey key → I m → m.memory.addressOf? "last-key" = some a →
      I ((store (betweenLines fuel) (.int a) key 1).on m).2)
    (hpoke : ∀ address value size, call = .poke address value size →
      Keeps I (Run.poke fuel address value size)) : Keeps I (call.run fuel) := by
  cases call with
  | readLine text => exact (readLine_keeps hI.lasts fuel text).discard
  | sendKey key => exact (sendKey_keeps hI fuel fun _ _ hm ha => hkey rfl hm ha).discard
  | fire place => exact (fire_keeps hI fuel place).discard
  | refire => exact (refire_keeps hI fuel).discard
  | resumeKept place => exact (resumeKept_keeps hI fuel place).discard
  | addWord name word permanent => exact (addHostWord_keeps hI name word permanent).discard
  | listenToLines => exact Keeps.of_on fun m hm => hI.aside hm rfl
  | listenToLog => exact Keeps.of_on fun m hm => hI.aside hm rfl
  | dismiss l => exact dismiss_keeps hI l
  | poke address value size => exact hpoke address value size rfl

end Session

end Forthline
