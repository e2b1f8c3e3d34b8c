import Forthline.Machine.Task
import Forthline.Proofs.Known
import Forthline.Proofs.Program

/-!
# What native words depend on

Native words work on a part of the machine, its workspace, and look at little else. They match
themselves under every relation that says the same of what they look at and survives what they do.
Every statement that some part of the machine has no influence on words, or is left alone by them,
is an instance. Few words write to memory: a relation that does not survive every write has to be
shown to survive those.
-/

namespace Forthline

namespace Memory

variable {σ : Type}

/-- What words make of a memory: its extent and its names stay, and the allocator never moves
back, nor beyond the end of the heap. -/
structure Evolves (m m' : Memory σ) : Prop where
  size : m'.size = m.size
  heapLimit : m'.heapLimit = m.heapLimit
  bindings : m'.bindings = m.bindings
  next : m.next ≤ m'.next
  limit : m'.next = m.next ∨ m'.next ≤ m.heapLimit

theorem Evolves.refl (m : Memory σ) : m.Evolves m := ⟨rfl, rfl, rfl, Int.le_refl _, .inl rfl⟩

theorem exists_setCells_eq (ns : List Int) (m : Memory σ) (a : Nat) :
    ∃ cells, m.setCells a ns = { m with cells } := by
  induction ns generalizing m a with
  | nil => exact ⟨m.cells, rfl⟩
  | cons n ns ih => exact ih (m.setCell a (.int n)) (a + 1)

theorem write_eq {m : Memory σ} {address value : Value} {size : Int} {w : Written σ}
    (h : m.write address value size = .ok w) :
    ∃ a cells, m.locate address size = .ok a ∧ w.memory = { m with cells } ∧
      w.watchers = m.watchersAt a := by
  obtain ⟨a, hlocate, h⟩ := except_bind_eq_ok.mp h
  split at h
  · obtain ⟨n, -, h⟩ := except_bind_eq_ok.mp h
    cases h
    obtain ⟨cells, hcells⟩ := exists_setCells_eq (splitBytes n size.toNat) m a
    exact ⟨a, cells, hlocate, hcells, rfl⟩
  · split at h
    · cases h
      exact ⟨a, _, hlocate, rfl, rfl⟩
    · cases h

theorem mem_watchersAt {m : Memory σ} {a : Nat} {s : σ} :
    s ∈ m.watchersAt a ↔ (a, s) ∈ m.watchers := by
  simp [watchersAt]

theorem watchers_write {m : Memory σ} {address value : Value} {size : Int} {w : Written σ}
    (h : m.write address value size = .ok w) :
    w.memory.watchers = m.watchers ∧ ∀ s ∈ w.watchers, ∃ a, (a, s) ∈ m.watchers := by
  obtain ⟨a, cells, -, hmemory, htold⟩ := write_eq h
  constructor
  · rw [hmemory]
  · intro s hs
    rw [htold] at hs
    exact ⟨a, mem_watchersAt.mp hs⟩

theorem evolves_write {m : Memory σ} {address value : Value} {size : Int} {w : Written σ}
    (h : m.write address value size = .ok w) : m.Evolves w.memory := by
  obtain ⟨-, cells, -, hmemory, -⟩ := write_eq h
  rw [hmemory]
  exact ⟨rfl, rfl, rfl, Int.le_refl _, .inl rfl⟩

theorem evolves_allot {m m' : Memory σ} {size a : Int} (h : m.allot size = .ok (a, m')) :
    m.Evolves m' := by
  unfold allot at h
  split at h
  · split at h <;> cases h
  · rename_i hs
    cases h
    simp only [Bool.or_eq_true, decide_eq_true_eq, not_or, Int.not_lt] at hs
    exact ⟨rfl, rfl, rfl, by simp only []; omega, .inr (by simp only []; omega)⟩

theorem evolves_watch {m m' : Memory σ} {address : Value} {w : σ} {a : Nat}
    (h : m.watch address w = .ok (a, m')) : m.Evolves m' := by
  obtain ⟨b, -, h⟩ := except_bind_eq_ok.mp h
  cases h
  exact ⟨rfl, rfl, rfl, Int.le_refl _, .inl rfl⟩

theorem evolves_unwatch_all [BEq σ] (ws : List (Nat × σ)) (m : Memory σ) :
    m.Evolves (ws.foldl (fun memory (a, s) => memory.unwatch a s) m) := by
  induction ws generalizing m with
  | nil => exact .refl m
  | cons w ws ih =>
    have h := ih (m.unwatch w.1 w.2)
    exact ⟨h.size, h.heapLimit, h.bindings, h.next, h.limit⟩

theorem mem_of_watch {m m' : Memory σ} {address : Value} {w : σ} {a : Nat}
    (h : m.watch address w = .ok (a, m')) {x : Nat × σ} (hx : x ∈ m'.watchers) :
    x ∈ m.watchers ∨ x.2 = w := by
  obtain ⟨b, -, h⟩ := except_bind_eq_ok.mp h
  cases h
  rcases List.mem_append.mp hx with hx | hx
  · exact .inl hx
  · rw [List.mem_singleton.mp hx]
    exact .inr rfl

theorem mem_of_unwatch_all [BEq σ] (ws : List (Nat × σ)) (m : Memory σ) {x : Nat × σ}
    (h : x ∈ (ws.foldl (fun memory (a, s) => memory.unwatch a s) m).watchers) :
    x ∈ m.watchers := by
  induction ws generalizing m with
  | nil => exact h
  | cons w ws ih => exact List.mem_of_mem_eraseP (ih _ h)

end Memory

/-- The part of a machine that words work on. The tokens of the line are not in it: only one word
reads them. -/
structure Workspace where
  stack : Stack
  returns : Stack
  memory : Memory Subscription
  dictionary : Dictionary
  bindings : List PortBinding
  subscriptionCount : Nat
  random : List Binary64
  waiting : Option Nat

def Workspace.core (w : Workspace) : Memory Subscription × Dictionary × Nat × Option Nat × Nat :=
  (w.memory, w.dictionary, w.bindings.length, w.waiting, w.subscriptionCount)

def Event.line? : Event → Option (String × String)
  | .line text output => some (text, output)
  | _ => none

namespace Machine

def workspace (m : Machine) : Workspace where
  stack := m.stack
  returns := m.returns
  memory := m.memory
  dictionary := m.dictionary
  bindings := m.bindings
  subscriptionCount := m.subscriptionCount
  random := m.random
  waiting := m.waiting

def work (m : Machine) (w : Workspace) : Machine :=
  { m with
    stack := w.stack
    returns := w.returns
    memory := w.memory
    dictionary := w.dictionary
    bindings := w.bindings
    subscriptionCount := w.subscriptionCount
    random := w.random
    waiting := w.waiting }

def keyed (m : Machine) (key : Value) : Machine :=
  { m with waiting := none, stack := m.stack.push key }

def suspended (m : Machine) : Machine :=
  { m with paused := true, continuations := m.continuations + 1 }

def subscribed (m : Machine) (number : Nat) (b : PortBinding) (label : String)
    (actions : List PortAction) (a : Nat) : Machine :=
  let s : Subscription := { number := m.subscriptionCount, binding := number, label, actions }
  { m with
    memory := { m.memory with watchers := m.memory.watchers ++ [(a, s)] }
    subscriptionCount := m.subscriptionCount + 1
    bindings := m.bindings.set number { b with subscriptions := (a, s) :: b.subscriptions } }

end Machine

/-- What words make of a workspace: the memory evolves, the dictionary gets new names but no new
words, no binding is added, nobody starts to wait for a key, and who starts to watch a cell gets a
number that was not given before. -/
structure Workspace.Evolves (w w' : Workspace) : Prop where
  memory : w.memory.Evolves w'.memory
  vocabulary : ∀ v, w'.dictionary.Knows v → w.dictionary.Knows v
  bindings : w'.bindings.length = w.bindings.length
  waiting : w'.waiting = w.waiting ∨ w'.waiting = none
  subscriptions : ∀ x ∈ w'.memory.watchers, x ∈ w.memory.watchers ∨
    w.subscriptionCount ≤ x.2.number ∧ x.2.number < w'.subscriptionCount
  count : w.subscriptionCount ≤ w'.subscriptionCount

theorem Workspace.Evolves.of_core {w w' : Workspace} (h : w'.core = w.core) : w.Evolves w' := by
  obtain ⟨hmemory, hdictionary, hbindings, hwaiting, hcount⟩ :
      w'.memory = w.memory ∧ w'.dictionary = w.dictionary ∧
        w'.bindings.length = w.bindings.length ∧ w'.waiting = w.waiting ∧
        w'.subscriptionCount = w.subscriptionCount := by
    simpa [Workspace.core] using h
  refine ⟨?_, ?_, hbindings, .inl hwaiting, ?_, Nat.le_of_eq hcount.symm⟩
  · rw [hmemory]
    exact .refl w.memory
  · rw [hdictionary]
    exact fun _ hv => hv
  · rw [hmemory]
    exact fun _ hx => .inl hx

structure Workspace.Spares (w w' : Workspace) : Prop extends w.Evolves w' where
  cells : w'.memory.cells = w.memory.cells
  watchers : w'.memory.watchers = w.memory.watchers

theorem Workspace.Spares.of_core {w w' : Workspace} (h : w'.core = w.core) : w.Spares w' := by
  have hmemory : w'.memory = w.memory := congrArg Prod.fst h
  refine ⟨.of_core h, ?_, ?_⟩
  · rw [hmemory]
  · rw [hmemory]

theorem Memory.spares_allot {σ : Type} {m m' : Memory σ} {size a : Int}
    (h : m.allot size = .ok (a, m')) : m'.cells = m.cells ∧ m'.watchers = m.watchers := by
  unfold allot at h
  split at h
  · split at h <;> cases h
  · cases h
    exact ⟨rfl, rfl⟩

def Task.pauses : Task → Bool
  | sleep | key | hold _ | holdAndFail .. | touch => true
  | _ => false

def Task.writes : Task → Bool
  | store | bumpPort .. | storePort .. | sendKey => true
  | _ => false

def Code.pauses : Code → Bool
  | task t => t.pauses
  | _ => false

namespace Run

/-- The relation says the same of what words look at, and survives what words do that neither write
to memory nor suspend their line. Of the log it need not say anything, as long as it survives
reports. -/
structure Minds (R : Machine → Machine → Prop) : Prop where
  workspace : ∀ ⦃m n⦄, R m n → m.workspace = n.workspace
  rack : ∀ ⦃m n⦄, R m n → m.rack = n.rack
  spent : ∀ ⦃m n⦄, R m n → m.spent = n.spent
  work : ∀ ⦃m n w⦄, R m n → m.workspace.Spares w → R (m.work w) (n.work w)
  write : ∀ ⦃m n⦄ text, R m n →
    R { m with output := m.output ++ text } { n with output := n.output ++ text }
  emit : ∀ ⦃m n e⦄, R m n → e.line? = none →
    R { m with events := e :: m.events } { n with events := e :: n.events }
  report : ∀ level category message,
    Matches R (report level category message) (report level category message)

/-- The relation says the same of what words look at, and survives what words do that do not
suspend their line. Of the log it need not say anything, as long as it survives reports. -/
structure Abides (R : Machine → Machine → Prop) : Prop where
  workspace : ∀ ⦃m n⦄, R m n → m.workspace = n.workspace
  rack : ∀ ⦃m n⦄, R m n → m.rack = n.rack
  spent : ∀ ⦃m n⦄, R m n → m.spent = n.spent
  work : ∀ ⦃m n w⦄, R m n → m.workspace.Evolves w → R (m.work w) (n.work w)
  write : ∀ ⦃m n⦄ text, R m n →
    R { m with output := m.output ++ text } { n with output := n.output ++ text }
  emit : ∀ ⦃m n e⦄, R m n → e.line? = none →
    R { m with events := e :: m.events } { n with events := e :: n.events }
  report : ∀ level category message,
    Matches R (report level category message) (report level category message)
  wake : ∀ ⦃m n c⦄, R m n → m.waiting = some c →
    R { m with spent := c :: m.spent, paused := false }
      { n with spent := c :: n.spent, paused := false }

structure Logs (R : Machine → Machine → Prop) : Prop where
  threshold : ∀ ⦃m n⦄, R m n → m.log.threshold = n.log.threshold
  logListeners : ∀ ⦃m n⦄, R m n → m.logListeners = n.logListeners
  emit : ∀ ⦃m n e⦄, R m n → e.line? = none →
    R { m with events := e :: m.events } { n with events := e :: n.events }
  note : ∀ ⦃m n⦄ e, R m n →
    R { m with log := { m.log with entries := e :: m.log.entries } }
      { n with log := { n.log with entries := e :: n.log.entries } }

theorem Logs.reportText {R : Machine → Machine → Prop} (hR : Logs R) (level : Level)
    (category : String) (message : Except Cause String) :
    Matches R (reportText level category message) (reportText level category message) := by
  refine Matches.get_bind fun m n h => ?_
  simp only [Log.accepts, hR.threshold h, hR.logListeners h]
  refine Matches.ite _ ?_ (Matches.pure _)
  refine (Matches.lift message).bind fun text => ?_
  refine (Matches.modify fun _ _ h => hR.note _ h).bind fun _ => ?_
  exact Matches.forM _ fun _ => Matches.modify fun _ _ h => hR.emit h rfl

structure Heeds (R : Machine → Machine → Prop) : Prop extends Minds R, Logs R where
  report := fun level category message =>
    Logs.reportText ⟨threshold, logListeners, emit, note⟩ level category (.ok message)

structure Respects (R : Machine → Machine → Prop) : Prop extends Abides R, Logs R where
  report := fun level category message =>
    Logs.reportText ⟨threshold, logListeners, emit, note⟩ level category (.ok message)

structure Scans (R : Machine → Machine → Prop) : Prop where
  source : ∀ ⦃m n⦄, R m n → m.source = n.source
  setSource : ∀ ⦃m n⦄ s, R m n → R { m with source := some s } { n with source := some s }

structure Pauses (R : Machine → Machine → Prop) : Prop where
  continuations : ∀ ⦃m n⦄, R m n → m.continuations = n.continuations
  pause : ∀ ⦃m n⦄, R m n → R m.suspended n.suspended
  hold : ∀ ⦃m n⦄, R m n →
    R { m.suspended with kept := m.kept ++ [m.continuations] }
      { n.suspended with kept := n.kept ++ [n.continuations] }
  await : ∀ ⦃m n⦄, R m n →
    R { m.suspended with waiting := some m.continuations }
      { n.suspended with waiting := some n.continuations }
  touch : ∀ ⦃m n⦄, R m n →
    R { m.suspended with spent := m.continuations :: m.spent, paused := false }
      { n.suspended with spent := n.continuations :: n.spent, paused := false }

namespace Minds

variable {R : Machine → Machine → Prop} (hR : Minds R) {m n : Machine} (h : R m n)

include hR h

theorem stack : m.stack = n.stack := congrArg Workspace.stack (hR.workspace h)

theorem returns : m.returns = n.returns := congrArg Workspace.returns (hR.workspace h)

theorem memory : m.memory = n.memory := congrArg Workspace.memory (hR.workspace h)

theorem dictionary : m.dictionary = n.dictionary := congrArg Workspace.dictionary (hR.workspace h)

theorem bindings : m.bindings = n.bindings := congrArg Workspace.bindings (hR.workspace h)

theorem subscriptionCount : m.subscriptionCount = n.subscriptionCount :=
  congrArg Workspace.subscriptionCount (hR.workspace h)

theorem random : m.random = n.random := congrArg Workspace.random (hR.workspace h)

theorem waiting : m.waiting = n.waiting := congrArg Workspace.waiting (hR.workspace h)

theorem edit (f : Workspace → Workspace) (hf : m.workspace.Spares (f m.workspace)) :
    R (m.work (f m.workspace)) (n.work (f n.workspace)) := by
  rw [← hR.workspace h]
  exact hR.work h hf

theorem edit_apart (f : Workspace → Workspace)
    (hcore : (f m.workspace).core = m.workspace.core) :
    R (m.work (f m.workspace)) (n.work (f n.workspace)) :=
  hR.edit h f (.of_core hcore)

end Minds

namespace Abides

variable {R : Machine → Machine → Prop} (hR : Abides R)

include hR

theorem minds : Minds R where
  workspace := hR.workspace
  rack := hR.rack
  spent := hR.spent
  work := fun _ _ _ h hw => hR.work h hw.toEvolves
  write := hR.write
  emit := hR.emit
  report := hR.report

variable {m n : Machine} (h : R m n)

include h

theorem memory : m.memory = n.memory := hR.minds.memory h

theorem bindings : m.bindings = n.bindings := hR.minds.bindings h

theorem subscriptionCount : m.subscriptionCount = n.subscriptionCount :=
  hR.minds.subscriptionCount h

theorem edit (f : Workspace → Workspace) (hf : m.workspace.Evolves (f m.workspace)) :
    R (m.work (f m.workspace)) (n.work (f n.workspace)) := by
  rw [← hR.workspace h]
  exact hR.work h hf

end Abides

theorem Respects.heeds {R : Machine → Machine → Prop} (hR : Respects R) : Heeds R where
  toMinds := hR.toAbides.minds
  threshold := hR.threshold
  logListeners := hR.logListeners
  note := hR.note

instance {R : Machine → Machine → Prop} : Coe (Heeds R) (Minds R) := ⟨Heeds.toMinds⟩

instance {R : Machine → Machine → Prop} : Coe (Abides R) (Minds R) := ⟨Abides.minds⟩

instance {R : Machine → Machine → Prop} : Coe (Respects R) (Abides R) := ⟨Respects.toAbides⟩

instance {R : Machine → Machine → Prop} : Coe (Respects R) (Heeds R) := ⟨Respects.heeds⟩

variable {R : Machine → Machine → Prop}

section Steps

variable (hR : Minds R)

include hR

theorem emit_matches {e : Event} (he : e.line? = none) : Matches R (emit e) (emit e) :=
  Matches.modify fun _ _ h => hR.emit h he

theorem report_matches (level : Level) (category message : String) :
    Matches R (report level category message) (report level category message) :=
  hR.report level category message

theorem push_matches (v : Value) : Matches R (push v) (push v) :=
  Matches.modify fun _ _ h =>
    hR.edit_apart h (fun w => { w with stack := w.stack.push v }) rfl

theorem pop_matches : Matches R pop pop := by
  refine Matches.get_bind fun m n h => ?_
  rw [hR.stack h]
  refine (Matches.lift _).bind fun ⟨v, s⟩ => ?_
  refine (Matches.modify fun _ _ h => ?_).bind fun _ => Matches.pure v
  exact hR.edit_apart h (fun w => { w with stack := s }) rfl

theorem popMany_matches (count : Nat) : Matches R (popMany count) (popMany count) := by
  induction count with
  | zero => exact Matches.pure _
  | succ count ih =>
    exact (pop_matches hR).bind fun top => ih.bind fun below => Matches.pure _

theorem pushReturn_matches (v : Value) : Matches R (pushReturn v) (pushReturn v) :=
  Matches.modify fun _ _ h =>
    hR.edit_apart h (fun w => { w with returns := w.returns.push v }) rfl

theorem popReturn_matches : Matches R popReturn popReturn := by
  refine Matches.get_bind fun m n h => ?_
  rw [hR.returns h]
  refine (Matches.lift _).bind fun ⟨v, s⟩ => ?_
  refine (Matches.modify fun _ _ h => ?_).bind fun _ => Matches.pure v
  exact hR.edit_apart h (fun w => { w with returns := s }) rfl

theorem write_matches (text : String) : Matches R (write text) (write text) :=
  Matches.modify fun _ _ h => hR.write text h

omit hR in
private theorem setSource_matches (hS : Scans R) (s : Stream) :
    Matches R (modify fun m => { m with source := some s } : Run PUnit)
      (modify fun m => { m with source := some s }) :=
  Matches.modify fun _ _ h => hS.setSource s h

omit hR in
theorem nextToken_matches (hS : Scans R) : Matches R nextToken nextToken := by
  refine Matches.get_bind fun m n h => ?_
  rw [hS.source h]
  cases n.source with
  | none => exact Matches.pure _
  | some s => exact (setSource_matches hS _).bind fun _ => Matches.lift _

omit hR in
theorem peekToken_matches (hS : Scans R) : Matches R peekToken peekToken := by
  refine Matches.get_bind fun m n h => ?_
  rw [hS.source h]
  cases n.source with
  | none => exact Matches.pure _
  | some s => exact (setSource_matches hS _).bind fun _ => Matches.lift _

theorem addWord_known {m n : Machine} (h : R m n) {word : Word} (hword : m.dictionary.Knows word)
    (name : String) (permanent : Bool) :
    ((addWord name word permanent).on m).1 = ((addWord name word permanent).on n).1 ∧
      R ((addWord name word permanent).on m).2 ((addWord name word permanent).on n).2 := by
  unfold addWord
  rw [on_get_bind, on_get_bind, ← hR.dictionary h]
  cases hadd : m.dictionary.add name word permanent with
  | error c => exact ⟨rfl, h⟩
  | ok d =>
    have hset : R { m with dictionary := d } { n with dictionary := d } := by
      refine hR.edit h (fun w => { w with dictionary := d })
        ⟨⟨.refl _, ?_, rfl, .inl rfl, fun _ hx => .inl hx, Nat.le_refl _⟩, rfl, rfl⟩
      intro v hv
      rcases Dictionary.knows_of_add hadd hv with rfl | hv
      · exact hword
      · exact hv
    exact report_matches hR _ _ _ hset

theorem redefine_known {m n : Machine} (h : R m n) {aim : Dictionary.Aim}
    (haim : ∀ w, aim = .word w → m.dictionary.Knows w) (name : String) (permanent : Bool) :
    ((redefine name aim permanent).on m).1 = ((redefine name aim permanent).on n).1 ∧
      R ((redefine name aim permanent).on m).2 ((redefine name aim permanent).on n).2 := by
  unfold redefine
  rw [on_get_bind, on_get_bind, ← hR.dictionary h]
  cases hredefine : m.dictionary.redefine name aim permanent with
  | error c => exact ⟨rfl, h⟩
  | ok d =>
    have hset : R { m with dictionary := d } { n with dictionary := d } := by
      refine hR.edit h (fun w => { w with dictionary := d })
        ⟨⟨.refl _, ?_, rfl, .inl rfl, fun _ hx => .inl hx, Nat.le_refl _⟩, rfl, rfl⟩
      intro v hv
      rcases Dictionary.knows_of_redefine hredefine hv with rfl | hv
      · exact haim v rfl
      · exact hv
    exact report_matches hR _ _ _ hset

theorem redefine_matches (name target : String) (permanent : Bool) :
    Matches R (redefine name (.name target) permanent) (redefine name (.name target) permanent) :=
  fun _ _ h => redefine_known hR h (fun _ haim => by cases haim) name permanent

theorem portValue_matches (device port : String) :
    Matches R (portValue device port) (portValue device port) := by
  refine Matches.get_bind fun m n h => ?_
  rw [hR.rack h, hR.memory h]
  exact (Matches.lift _).bind fun _ => Matches.lift _

theorem setBinding_matches (number : Nat) (b : PortBinding) :
    Matches R (setBinding number b) (setBinding number b) := by
  refine Matches.modify fun _ _ h => ?_
  refine hR.edit_apart h (fun w => { w with bindings := w.bindings.set number b }) ?_
  simp [Workspace.core]

end Steps

theorem subscribe_cases (number : Nat) (b : PortBinding) (port label : String)
    (actions : List PortAction) (m : Machine) :
    (∃ cause, (subscribe number b port label actions).on m = (.error (.failed { cause }), m)) ∨
      ∃ a, (subscribe number b port label actions).on m =
        (.ok (), m.subscribed number b label actions a) := by
  rw [subscribe, on_get_bind]
  cases m.rack.lookup b.device port with
  | error c => exact .inl ⟨c, rfl⟩
  | ok found =>
    obtain ⟨address, p⟩ := found
    rw [on_bind_ok (on_lift_ok _ _)]
    let s : Subscription := { number := m.subscriptionCount, binding := number, label, actions }
    cases hw : m.memory.watch (.int address) s with
    | error c =>
      dsimp only
      rw [hw]
      exact .inl ⟨c, rfl⟩
    | ok watched =>
      obtain ⟨a, memory⟩ := watched
      dsimp only
      rw [hw]
      obtain ⟨a', -, hwatched⟩ := except_bind_eq_ok.mp hw
      cases hwatched
      exact .inr ⟨a, rfl⟩

section Wires

variable (hR : Abides R)

include hR

theorem store_matches {act : Nat → PortAction → Run PortAnswer}
    (hact : ∀ number a, Matches R (act number a) (act number a)) (address value : Value)
    (size : Int) : Matches R (store act address value size) (store act address value size) := by
  intro m n h
  unfold store
  rw [on_get_bind, on_get_bind, ← hR.memory h]
  cases hw : m.memory.write address value size with
  | error c => exact ⟨rfl, h⟩
  | ok w =>
    have hset : R { m with memory := w.memory } { n with memory := w.memory } :=
      hR.edit h (fun v => { v with memory := w.memory })
        ⟨Memory.evolves_write hw, fun _ hv => hv, rfl, .inl rfl,
          fun x hx => .inl ((Memory.watchers_write hw).1 ▸ hx), Nat.le_refl _⟩
    have hrest := Matches.forM (R := R) w.watchers fun s : Subscription =>
      (emit_matches hR (e := .port s.label w.value size) rfl).bind fun _ =>
        Matches.forM s.actions fun a => (hact s.binding a).discard
    exact hrest hset

theorem setPort_matches {act : Nat → PortAction → Run PortAnswer}
    (hact : ∀ number a, Matches R (act number a) (act number a)) (device port : String)
    (value : Value) :
    Matches R (setPort act device port value) (setPort act device port value) := by
  refine Matches.get_bind fun m n h => ?_
  rw [hR.rack h]
  refine (Matches.lift _).bind fun ⟨address, p⟩ => ?_
  dsimp only
  split
  · exact (Matches.fail _).bind fun _ => store_matches hR hact _ _ _
  · exact store_matches hR hact _ _ _

theorem updatePort_matches {act : Nat → PortAction → Run PortAnswer}
    (hact : ∀ number a, Matches R (act number a) (act number a)) (device port : String)
    (value : Value) :
    Matches R (updatePort act device port value) (updatePort act device port value) := by
  refine Matches.get_bind fun m n h => ?_
  rw [hR.rack h]
  exact (Matches.lift _).bind fun _ => store_matches hR hact _ _ _

theorem subscribe_matches (number : Nat) (b : PortBinding) (port label : String)
    (actions : List PortAction) :
    Matches R (subscribe number b port label actions) (subscribe number b port label actions) := by
  intro m n h
  unfold subscribe
  rw [on_get_bind, on_get_bind,
    show n.rack.lookup b.device port = m.rack.lookup b.device port by rw [hR.rack h]]
  cases m.rack.lookup b.device port with
  | error c => exact ⟨rfl, h⟩
  | ok place =>
    rw [on_bind_ok (on_lift_ok _ _), on_bind_ok (on_lift_ok _ _)]
    let s : Subscription := { number := m.subscriptionCount, binding := number, label, actions }
    have hn : n.memory.watch (.int place.1)
        { number := n.subscriptionCount, binding := number, label, actions } =
          m.memory.watch (.int place.1) s := by
      rw [← hR.memory h, ← hR.subscriptionCount h]
    dsimp only
    rw [hn]
    cases hw : m.memory.watch (.int place.1) s with
    | error c => exact ⟨rfl, h⟩
    | ok r =>
      have hset := hR.edit h
        (fun v => { v with memory := r.2, subscriptionCount := m.subscriptionCount + 1 })
        ⟨Memory.evolves_watch (a := r.1) hw, fun _ hv => hv, rfl, .inl rfl,
          fun x hx => (Memory.mem_of_watch (a := r.1) hw hx).imp_right fun hs => by
            rw [hs]
            exact ⟨Nat.le_refl _, Nat.lt_succ_self _⟩,
          Nat.le_succ _⟩
      rw [on_bind_ok (on_lift_ok _ _), on_bind_ok (on_lift_ok _ _), on_set_bind, on_set_bind,
        ← hR.subscriptionCount h]
      exact setBinding_matches hR _ _ hset

theorem closeBinding_matches (number : Nat) :
    Matches R (closeBinding number) (closeBinding number) := by
  intro m n h
  unfold closeBinding
  rw [on_get_bind, on_get_bind,
    show n.bindings[number]? = m.bindings[number]? by rw [hR.bindings h]]
  cases m.bindings[number]? with
  | none => exact ⟨rfl, h⟩
  | some b =>
    have hset := hR.edit h
      (fun v => { v with
        memory := b.subscriptions.foldl (fun memory e => memory.unwatch e.1 e.2) v.memory })
      ⟨Memory.evolves_unwatch_all b.subscriptions m.memory, fun _ hv => hv, rfl, .inl rfl,
        fun _ hx => .inl (Memory.mem_of_unwatch_all b.subscriptions m.memory hx), Nat.le_refl _⟩
    exact setBinding_matches hR _ _ hset

/-- What devices do matches itself if reading lines does, by induction on how deep the actions of
subscribers still may nest. -/
theorem perform_matches {reader : String → Run PortAnswer}
    (hreader : ∀ text, Matches R (reader text) (reader text)) (depth number : Nat)
    (action : PortAction) :
    Matches R (perform reader depth number action) (perform reader depth number action) := by
  induction depth generalizing number action with
  | zero => exact Matches.fail _
  | succ depth ih =>
    refine Matches.get_bind fun m n h => ?_
    rw [hR.bindings h]
    cases n.bindings[number]? with
    | none => exact Matches.pure _
    | some b =>
      cases action with
      | set port value =>
        exact (setPort_matches hR ih b.device port value).bind fun _ => Matches.pure _
      | update port value =>
        exact (updatePort_matches hR ih b.device port value).bind fun _ => Matches.pure _
      | get port => exact (portValue_matches hR b.device port).map _
      | address port =>
        refine Matches.get_bind fun m n h => ?_
        rw [hR.rack h]
        exact (Matches.lift _).bind fun _ => Matches.pure _
      | subscribe port label actions =>
        exact (subscribe_matches hR number b port label actions).bind fun _ => Matches.pure _
      | line text => exact hreader text
      | close => exact (closeBinding_matches hR number).bind fun _ => Matches.pure _
      | fail message => exact Matches.fail _

theorem withinLine_matches (number : Nat) (action : PortAction) :
    Matches R (withinLine number action) (withinLine number action) :=
  perform_matches hR (fun _ => Matches.fail _) nestingLimit number action

end Wires

theorem bound_matches (device : Option String) :
    Matches R (bound device) (bound device) := by
  cases device with
  | none => exact Matches.fail _
  | some d => exact Matches.pure _

theorem wake_of_fresh {m : Machine} {c : Nat} (h : m.spent.contains c = false) :
    (wake c).on m = (.ok ⟨⟩, { m with spent := c :: m.spent, paused := false }) := by
  rw [wake, on_get_bind, if_neg (by rw [h]; exact Bool.false_ne_true)]
  rfl

theorem wake_of_spent {m : Machine} {c : Nat} (h : m.spent.contains c = true) :
    (wake c).on m = (.error (.failed { cause := .continuationSpent }), m) := by
  rw [wake, on_get_bind, if_pos h]
  rfl

def handKey (key : Value) : Run (Option Nat) := do
  match (← get).waiting with
  | none => return none
  | some continuation =>
    modify fun m => { m with waiting := none }
    push key
    return some continuation

theorem handKey_of_none (key : Value) {m : Machine} (h : m.waiting = none) :
    (handKey key).on m = (.ok none, m) := by
  rw [handKey, on_get_bind, h]
  rfl

theorem handKey_of_some (key : Value) {m : Machine} {c : Nat} (h : m.waiting = some c) :
    (handKey key).on m = (.ok (some c), m.keyed key) := by
  rw [handKey, on_get_bind, h]
  rfl

theorem deliverKey_eq (act : Nat → PortAction → Run PortAnswer) (key : Value) :
    deliverKey act key = (do
      match (← get).memory.addressOf? "last-key" with
      | some address => do
        store act (.int address) key 1
        handKey key
      | none => handKey key) := rfl

section Keys

variable (hR : Minds R)

include hR

theorem deliverKey_bind_matches {act : Nat → PortAction → Run PortAnswer} {key : Value}
    (hstore : ∀ ⦃m n a⦄, R m n → m.memory.addressOf? "last-key" = some a →
      ((store act (.int a) key 1).on m).1 = ((store act (.int a) key 1).on n).1 ∧
        R ((store act (.int a) key 1).on m).2 ((store act (.int a) key 1).on n).2)
    {β : Type} {k l : Option Nat → Run β} (hnone : Matches R (k none) (l none))
    (hsome : ∀ ⦃m n c⦄, R m n → m.waiting = some c →
      ((k (some c)).on (m.keyed key)).1 = ((l (some c)).on (n.keyed key)).1 ∧
        R ((k (some c)).on (m.keyed key)).2 ((l (some c)).on (n.keyed key)).2) :
    Matches R (deliverKey act key >>= k) (deliverKey act key >>= l) := by
  have hhand : Matches R (handKey key >>= k) (handKey key >>= l) := by
    intro m n h
    cases hw : m.waiting with
    | none =>
      rw [on_bind_ok (handKey_of_none key hw), on_bind_ok (handKey_of_none key (hR.waiting h ▸ hw))]
      exact hnone h
    | some c =>
      rw [on_bind_ok (handKey_of_some key hw), on_bind_ok (handKey_of_some key (hR.waiting h ▸ hw))]
      exact hsome h hw
  rw [deliverKey_eq, bind_assoc, bind_assoc]
  intro m n h
  rw [on_get_bind, on_get_bind, ← hR.memory h]
  cases ha : m.memory.addressOf? "last-key" with
  | none => exact hhand h
  | some a =>
    dsimp only
    rw [bind_assoc, bind_assoc]
    exact Matches.bind_on (hstore h ha) fun _ _ _ => hhand

theorem keyed_matches (key : Value) {m n : Machine} (h : R m n) :
    R (m.keyed key) (n.keyed key) :=
  hR.edit h (fun w => { w with waiting := none, stack := w.stack.push key })
    ⟨⟨.refl m.memory, fun _ hv => hv, rfl, .inr rfl, fun _ hx => .inl hx, Nat.le_refl _⟩, rfl,
      rfl⟩

end Keys

section Tasks

variable (hR : Minds R)

include hR

private theorem draw_matches : Matches R draw draw := by
  refine Matches.get_bind fun m n h => ?_
  rw [hR.random h]
  cases n.random with
  | nil => exact Matches.pure _
  | cons x rest =>
    refine (Matches.modify fun _ _ h => ?_).bind fun _ => Matches.pure _
    exact hR.edit_apart h (fun w => { w with random := rest }) rfl

private theorem allot_matches : Matches R (task .allot) (task .allot) := by
  refine (pop_matches hR).bind fun v => (Matches.lift _).bind fun size => ?_
  intro m n h
  rw [on_get_bind, on_get_bind, ← hR.memory h]
  cases ha : m.memory.allot size with
  | error c => exact ⟨rfl, h⟩
  | ok r =>
    refine ⟨rfl, ?_⟩
    obtain ⟨hcells, hwatchers⟩ := Memory.spares_allot (a := r.1) ha
    exact hR.edit h (fun w => { w with memory := r.2 })
      ⟨⟨Memory.evolves_allot (a := r.1) ha, fun _ hv => hv, rfl, .inl rfl,
          fun _ hx => .inl (hwatchers ▸ hx), Nat.le_refl _⟩, hcells, hwatchers⟩

private theorem define_matches : Matches R (task .define) (task .define) := by
  refine (pop_matches hR).bind fun name => (pop_matches hR).bind fun target => ?_
  refine (Matches.lift _).bind fun name => (Matches.lift _).bind fun target => ?_
  intro m n h
  rw [on_get_bind, on_get_bind, ← hR.dictionary h]
  cases hget : m.dictionary.get target with
  | error c => exact ⟨rfl, h⟩
  | ok w => exact addWord_known hR h (Dictionary.knows_of_get hget) name false

omit hR in
theorem quote_matches (hR : Minds R) (hS : Scans R) :
    Matches R (task .quote) (task .quote) := by
  refine (nextToken_matches hS).bind fun t => ?_
  cases t with
  | none => exact Matches.fail _
  | some t => exact push_matches hR _

private theorem steadyTask_matches {t : Task} (ht : t.pauses = false) (hquote : t ≠ .quote)
    (hwrites : t.writes = false) : Matches R (task t) (task t) := by
  cases t with
  | printTop =>
    refine (pop_matches hR).bind fun v => (Matches.lift _).bind fun shown => ?_
    exact write_matches hR _
  | printStack =>
    refine Matches.get_bind fun m n h => ?_
    rw [hR.stack h]
    exact (Matches.lift _).bind fun shown => write_matches hR _
  | copyReturn offset =>
    refine Matches.get_bind fun m n h => ?_
    rw [hR.returns h]
    exact (Matches.lift _).bind fun v => push_matches hR v
  | toReturn => exact (pop_matches hR).bind fun v => pushReturn_matches hR v
  | fromReturn => exact (popReturn_matches hR).bind fun v => push_matches hR v
  | fetch =>
    refine (pop_matches hR).bind fun address => Matches.get_bind fun m n h => ?_
    rw [hR.memory h]
    exact (Matches.lift _).bind fun v => push_matches hR v
  | allot => exact allot_matches hR
  | define => exact define_matches hR
  | transform =>
    refine (pop_matches hR).bind fun name => (pop_matches hR).bind fun target => ?_
    refine (Matches.lift _).bind fun name => (Matches.lift _).bind fun target => ?_
    exact redefine_matches hR _ _ _
  | random =>
    refine (pop_matches hR).bind fun v => (draw_matches hR).bind fun x => ?_
    exact (Matches.lift _).bind fun p => (Matches.lift _).bind fun r => push_matches hR _
  | quote => exact absurd rfl hquote
  | readPort device port => exact (portValue_matches hR _ _).bind fun v => push_matches hR v
  | depth =>
    refine Matches.get_bind fun m n h => ?_
    rw [hR.stack h]
    exact push_matches hR _
  | readLine text => exact Matches.fail _
  | store | bumpPort | storePort | sendKey => cases hwrites
  | sleep | key | hold | holdAndFail | touch => cases ht

end Tasks

section Writing

variable (hR : Abides R)

include hR

private theorem wake_keyed_matches (key : Value) {m n : Machine} {c : Nat} (h : R m n)
    (hc : m.waiting = some c) :
    ((wake c).on (m.keyed key)).1 = ((wake c).on (n.keyed key)).1 ∧
      R ((wake c).on (m.keyed key)).2 ((wake c).on (n.keyed key)).2 := by
  have heq : m.spent.contains c = n.spent.contains c := by rw [hR.spent h]
  cases hs : m.spent.contains c with
  | true =>
    rw [wake_of_spent (m := m.keyed key) hs,
      wake_of_spent (m := n.keyed key) (heq.symm.trans hs)]
    exact ⟨rfl, keyed_matches hR key h⟩
  | false =>
    rw [wake_of_fresh (m := m.keyed key) hs,
      wake_of_fresh (m := n.keyed key) (heq.symm.trans hs)]
    exact ⟨rfl, keyed_matches hR key (hR.wake h hc)⟩

private theorem sendKey_matches : Matches R (task .sendKey) (task .sendKey) := by
  refine (pop_matches hR).bind fun key => ?_
  refine deliverKey_bind_matches hR (fun m n a h _ => ?_) (Matches.pure _) ?_
  · exact store_matches hR (withinLine_matches hR) _ _ _ h
  · exact fun m n c h hc => wake_keyed_matches hR key h hc

private theorem writingTask_matches {t : Task} (ht : t.writes = true) :
    Matches R (task t) (task t) := by
  cases t with
  | store =>
    refine (pop_matches hR).bind fun address => (pop_matches hR).bind fun value => ?_
    refine Matches.get_bind fun m n h => ?_
    rw [hR.rack h]
    exact (Matches.lift _).bind fun _ => store_matches hR (withinLine_matches hR) _ _ _
  | bumpPort device port =>
    refine (bound_matches device).bind fun d => (portValue_matches hR d port).bind fun v => ?_
    exact (Matches.lift _).bind fun w => setPort_matches hR (withinLine_matches hR) _ _ _
  | storePort device port =>
    refine (pop_matches hR).bind fun v => (bound_matches device).bind fun d => ?_
    exact setPort_matches hR (withinLine_matches hR) _ _ _
  | sendKey => exact sendKey_matches hR
  | _ => cases ht

end Writing

theorem touch_of_fresh {m : Machine} (h : m.spent.contains m.continuations = false) :
    (task .touch).on m =
      (.ok (), { m.suspended with spent := m.continuations :: m.spent, paused := false }) :=
  wake_of_fresh (m := m.suspended) h

theorem touch_of_spent {m : Machine} (h : m.spent.contains m.continuations = true) :
    (task .touch).on m = (.error (.failed { cause := .continuationSpent }), m.suspended) :=
  wake_of_spent (m := m.suspended) h

section Suspending

variable (hR : Minds R) (hP : Pauses R)

include hP

private theorem hold_matches : Matches R hold hold := fun _ _ h => ⟨rfl, hP.hold h⟩

include hR

private theorem touch_matches : Matches R (task .touch) (task .touch) := by
  intro m n h
  have heq : m.spent.contains m.continuations = n.spent.contains n.continuations := by
    rw [hR.spent h, hP.continuations h]
  cases hs : m.spent.contains m.continuations with
  | true =>
    rw [touch_of_spent hs, touch_of_spent (heq.symm.trans hs)]
    exact ⟨rfl, hP.pause h⟩
  | false =>
    rw [touch_of_fresh hs, touch_of_fresh (heq.symm.trans hs)]
    exact ⟨rfl, hP.touch h⟩

private theorem pausingTask_matches {t : Task} (ht : t.pauses = true) (hsleep : t ≠ .sleep) :
    Matches R (task t) (task t) := by
  cases t with
  | sleep => exact absurd rfl hsleep
  | key =>
    refine (report_matches hR _ _ _).bind fun _ => ?_
    exact fun m n h => ⟨rfl, hP.await h⟩
  | hold count => exact Matches.forM _ fun _ => hold_matches hP
  | holdAndFail kind message => exact (hold_matches hP).bind fun _ => Matches.fail _
  | touch => exact touch_matches hR hP
  | _ => cases ht

end Suspending

section Words

private theorem speak_matches (hR : Minds R) (vs : List Value) :
    Matches R (speak vs) (speak vs) := by
  cases vs with
  | nil => exact Matches.pure _
  | cons v vs =>
    cases v with
    | nothing => exact Matches.pure _
    | _ => exact (Matches.lift _).bind fun shown => write_matches hR shown

/-- A native word matches itself under a relation that survives what the word does. A word that
writes to memory is up to what the relation says of cells, one that sleeps up to the scheduler,
and one that reads tokens up to the line. -/
theorem native_matches_of_writes (hR : Minds R) (name : String) {c : Code}
    (hwrites : ∀ t, c = .task t → t.writes = true → Matches R (task t) (task t))
    (hP : c.pauses = true → Pauses R)
    (hsleep : c = .task .sleep → Matches R (task .sleep) (task .sleep))
    (hquote : c = .task .quote → Matches R (task .quote) (task .quote)) :
    Matches R (native name c) (native name c) := by
  have hcode : Matches R (code c) (code c) := by
    cases c with
    | push v => exact push_matches hR v
    | function arity yield apply =>
      refine (popMany_matches hR arity).bind fun arguments => ?_
      refine (Matches.lift _).bind fun results => ?_
      cases yield with
      | nothing => exact Matches.pure _
      | text => exact speak_matches hR results
      | values =>
        exact Matches.modify fun _ _ h =>
          hR.edit_apart h (fun w => { w with stack := w.stack.pushAll results }) rfl
    | task t =>
      cases ht : t.pauses with
      | false =>
        by_cases hq : t = .quote
        · subst hq
          exact hquote rfl
        · cases hw : t.writes with
          | true => exact hwrites t rfl hw
          | false => exact steadyTask_matches hR ht hq hw
      | true =>
        by_cases hs : t = .sleep
        · subst hs
          exact hsleep rfl
        · exact pausingTask_matches hR (hP ht) ht hs
  refine hcode.tryCatch fun stop => ?_
  cases stop with
  | failed f => exact Matches.throw _
  | exhausted => exact Matches.throw _

variable (hR : Abides R)

include hR

/-- A native word matches itself under a relation that survives what the word does. A word that
sleeps is up to the scheduler, and one that reads tokens up to the line. -/
theorem native_matches (name : String) {c : Code} (hP : c.pauses = true → Pauses R)
    (hsleep : c = .task .sleep → Matches R (task .sleep) (task .sleep))
    (hquote : c = .task .quote → Matches R (task .quote) (task .quote)) :
    Matches R (native name c) (native name c) :=
  native_matches_of_writes hR name (fun _ _ ht => writingTask_matches hR ht) hP hsleep hquote

theorem steady_matches (hS : Scans R) (name : String) {c : Code} (hc : c.pauses = false) :
    Matches R (native name c) (native name c) := by
  refine native_matches hR name (fun h => ?_) (fun h => ?_) fun _ => quote_matches hR hS
  · rw [hc] at h
    cases h
  · rw [h] at hc
    cases hc

end Words

theorem native_of_ok (name : String) {c : Code} {m m' : Machine}
    (h : (code c).on m = (.ok (), m')) : (native name c).on m = (.ok (), m') := by
  rw [native, on_tryCatch, h]

def blamed (name : String) : Stop → Stop
  | .failed f => .failed (f.during (.native name))
  | .exhausted => .exhausted

theorem native_of_error (name : String) {c : Code} {m m' : Machine} {stop : Stop}
    (h : (code c).on m = (.error stop, m')) :
    (native name c).on m = (.error (blamed name stop), m') := by
  rw [native, on_tryCatch, h]
  cases stop <;> rfl

def takeDelay : Run Binary64 := do
  let delay ← pop
  reportText .debug "Runtime" do
    let shown ← delay.plain
    return s!"Sleeping for {shown} ms."
  let x ← lift delay.toReal
  return x.div (Binary64.round false 1000 1)

def slumber (delay : Binary64) : Run Unit := do
  schedule delay (← pause)

theorem sleep_eq : task .sleep = takeDelay >>= slumber := by
  unfold takeDelay
  simp only [bind_assoc, pure_bind]
  rfl

theorem takeDelay_matches (hR : Heeds R) : Matches R takeDelay takeDelay := by
  refine (pop_matches hR).bind fun delay => (hR.reportText _ _ _).bind fun _ => ?_
  exact (Matches.lift _).bind fun x => Matches.pure _

theorem slumber_missing (delay : Binary64) {m : Machine} (h : m.scheduler = .missing) :
    (slumber delay).on m = (.error (.failed { cause := .host .absentFunction }), m.suspended) := by
  change (schedule delay m.continuations).on m.suspended = _
  rw [schedule, on_get_bind, show m.suspended.scheduler = .missing from h]
  rfl

theorem slumber_recording (delay : Binary64) {m : Machine} (h : m.scheduler = .recording) :
    (slumber delay).on m =
      (.ok (), { m.suspended with sleeping := m.sleeping ++ [(delay, m.continuations)] }) := by
  change (schedule delay m.continuations).on m.suspended = _
  rw [schedule, on_get_bind, show m.suspended.scheduler = .recording from h]
  rfl

theorem slumber_immediate (delay : Binary64) {m : Machine} (h : m.scheduler = .immediate) :
    (slumber delay).on m = (task .touch).on m := by
  change (schedule delay m.continuations).on m.suspended = _
  rw [schedule, on_get_bind, show m.suspended.scheduler = .immediate from h]
  rfl

structure Sleeps (R : Machine → Machine → Prop) : Prop where
  scheduler : ∀ ⦃m n⦄, R m n → m.scheduler = n.scheduler
  record : ∀ ⦃m n⦄ delay, R m n →
    R { m.suspended with sleeping := m.sleeping ++ [(delay, m.continuations)] }
      { n.suspended with sleeping := n.sleeping ++ [(delay, n.continuations)] }

theorem slumber_matches (hR : Minds R) (hP : Pauses R) (hS : Sleeps R) (delay : Binary64) :
    Matches R (slumber delay) (slumber delay) := by
  intro m n h
  have heq := hS.scheduler h
  cases hm : m.scheduler with
  | missing =>
    rw [slumber_missing delay hm, slumber_missing delay (heq.symm.trans hm)]
    exact ⟨rfl, hP.pause h⟩
  | recording =>
    rw [slumber_recording delay hm, slumber_recording delay (heq.symm.trans hm)]
    exact ⟨rfl, hS.record delay h⟩
  | immediate =>
    rw [slumber_immediate delay hm, slumber_immediate delay (heq.symm.trans hm)]
    exact touch_matches hR hP h

theorem sleep_matches (hR : Heeds R) (hP : Pauses R) (hS : Sleeps R) :
    Matches R (task .sleep) (task .sleep) := by
  rw [sleep_eq]
  exact (takeDelay_matches hR).bind fun delay => slumber_matches hR hP hS delay

end Run

end Forthline
