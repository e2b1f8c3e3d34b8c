import Forthline.Proofs.Reachable
import Forthline.Proofs.Vocabulary

/-!
# A line in flight

In a session without devices only `sleep` and `key` suspend a line, and they do so once: while a
line goes on, all continuations are used up, and when it is suspended, exactly one is not. A line
that goes on to its end, or fails, leaves the session at rest and is told to the listeners; one
that is suspended leaves its one continuation to the scheduler or to the next key.
-/

namespace Forthline

structure Ledger.Sole (l : Ledger) (c : Nat) : Prop where
  made : c < l.continuations
  fresh : c ∉ l.spent
  others : ∀ d < l.continuations, d ≠ c → d ∈ l.spent

namespace Machine

/-- A session without devices, whose scheduler records and whose words suspend a line only to sleep
or to wait for a key. -/
structure Hosted (m : Machine) : Prop extends m.Speaks fun c => c.holds = false where
  sound : m.Sound
  bindings : m.bindings = []
  scheduler : m.scheduler = .recording

def AllSpent (m : Machine) : Prop := ∀ c < m.continuations, c ∈ m.spent

def Entrusts (m : Machine) (c : Nat) : Prop :=
  m.waiting = some c ∧ (∀ e ∈ m.sleeping, e.2 ≠ c) ∨
    m.waiting = none ∧ ∃ delay, (delay, c) ∈ m.sleeping

structure AtRest (m : Machine) : Prop extends m.Idle where
  source : m.source = none
  waiting : m.waiting = none

structure OnHold (m : Machine) : Prop where
  line : m.line.isSome = true
  source : m.source.isSome = true
  paused : m.paused = true
  running : m.running = false

/-- The line goes on with `key`, under whatever name, and then with the rest of the sequence. -/
def AtKey (m : Machine) (rest : List Node) : Prop :=
  m.paused = false ∧
    ∃ name fs, m.frames = .sequence (.action (.native name (.task .key)) :: rest) :: fs

end Machine

namespace Run

/-- The line in flight, which was accepted when the given number of continuations was made, and what
the listeners had heard by then. -/
structure Aloft (k base : Nat) (text : String) (heard : List (String × String)) (running : Bool)
    (m : Machine) : Prop extends m.Hosted, m.Hears k heard where
  line : m.line.map Line.text = some text
  source : m.source.isSome = true
  running : m.running = running
  since : base ≤ m.continuations

structure Going (k base : Nat) (text : String) (heard : List (String × String)) (m : Machine) : Prop
    extends Aloft k base text heard true m where
  paused : m.paused = false
  waiting : m.waiting = none
  spent : m.AllSpent

/-- The line is suspended, and one continuation of it is left. -/
structure Held (k base : Nat) (text : String) (heard : List (String × String)) (running : Bool)
    (m : Machine) : Prop extends Aloft k base text heard running m where
  paused : m.paused = true
  owed : ∃ c, base ≤ c ∧ m.ledger.Sole c ∧ m.Entrusts c

structure Rests (k : Nat) (heard : List (String × String)) (m : Machine) : Prop
    extends m.Hosted, m.Hears k heard, m.AtRest where
  spent : m.AllSpent

theorem hosted_endures : Endures Machine.Hosted where
  work := by
    intro m w h hw
    have hbindings : w.bindings = [] := by
      rw [← List.length_eq_zero_iff, hw.bindings]
      exact List.length_eq_zero_iff.mpr h.bindings
    exact
      { h with
        sound := sound_invariant.work h.sound hw
        known := fun v hv => h.known v (hw.vocabulary v hv)
        bindings := hbindings }
  write := fun _ _ h => { h with }
  emit := fun _ _ h _ => { h with }
  note := fun _ _ h => { h with }
  wake := fun _ _ h hc => { h with sound := sound_invariant.wake h.sound hc }

variable {k base : Nat} {text : String} {heard : List (String × String)}

private theorem going_endures : Endures (Going k base text heard) where
  work := by
    intro m w h hw
    have hwaiting : w.waiting = none := by
      rcases hw.waiting with hsame | hnone
      · exact hsame.trans h.waiting
      · exact hnone
    exact
      { h with
        toHosted := hosted_endures.work h.toHosted hw
        toHears := (hears_endures _ _).work h.toHears hw
        waiting := hwaiting }
  write := fun m t h =>
    { h with
      toHosted := hosted_endures.write t h.toHosted
      toHears := (hears_endures _ _).write t h.toHears }
  emit := fun m e h he =>
    { h with
      toHosted := hosted_endures.emit h.toHosted he
      toHears := (hears_endures _ _).emit h.toHears he }
  note := fun m e h =>
    { h with
      toHosted := hosted_endures.note e h.toHosted
      toHears := (hears_endures _ _).note e h.toHears }
  wake := by
    intro m c h hc
    rw [h.waiting] at hc
    cases hc

private theorem going_scans : Scans (Itself (Going k base text heard)) where
  source := by
    rintro m _ ⟨rfl, -⟩
    rfl
  setSource := by
    rintro m _ s ⟨rfl, h⟩
    refine ⟨rfl, ?_⟩
    exact { h with source := rfl }

private abbrev Hostless (c : Code) : Prop := c.holds = false

private theorem going_confines :
    Confines (NodesWithin Hostless) (Itself (Going k base text heard)) where
  frames := by
    rintro m _ ⟨rfl, -⟩
    rfl
  held := fun _ _ h => h.2.nodes
  setFrames := by
    rintro m _ fs ⟨rfl, h⟩ hfs
    exact ⟨rfl, { h with nodes := hfs }⟩
  step := by
    rintro m _ ⟨rfl, h⟩
    exact ⟨rfl, { h with }⟩

private theorem going_learns :
    Learns (Word.Within Hostless) (Itself (Going k base text heard)) where
  pending := by
    rintro m _ ⟨rfl, -⟩
    rfl
  known := fun _ _ h => h.2.known
  spoken := fun _ _ p h hp => h.2.spoken p hp
  setPending := by
    rintro m _ p ⟨rfl, h⟩ hp
    exact ⟨rfl, { h with spoken := hp }⟩
  learn := by
    rintro m _ name word permanent d ⟨rfl, h⟩ hword hadd
    refine ⟨rfl, { h with known := fun v hv => ?_ }⟩
    rcases Dictionary.knows_of_add hadd hv with rfl | hv
    · exact hword
    · exact h.known v hv
  declare := by
    rintro m _ name a memory ⟨rfl, h⟩ ha
    exact ⟨rfl, { h with sound := sound_invariant.declare h.sound ha }⟩

private theorem takeToken_going : Keeps (Going k base text heard) takeToken := by
  have hK : Closed (Word.Within Hostless) := closed_within fun _ => rfl
  have hR : Respects (Itself (Going k base text heard)) := going_endures.respects
  have hinterpret (t : Token) := interpret_within hK hR.heeds going_learns going_scans t
  have hrecord (t : Token) : Keeps (Going k base text heard) (recordToken t) := by
    refine Keeps.modify fun m h => { h with line := ?_ }
    rw [← h.line, Option.map_map]
    rfl
  refine takeToken_within (nextToken_matches going_scans) hinterpret hrecord
    (fun t m n m' w h hw => word_of_interpret hK hR going_learns going_scans h hw) ?_
  intro w hw
  have hframe : NodesWithin Hostless (Frame.sequence [.action w]).nodes := by
    intro c hc
    rw [Frame.nodes, codesOf, Node.codes, codesOf, List.append_nil] at hc
    exact hw c hc
  exact pushFrame_within going_confines hframe

private theorem sole_of_pause {m m' : Machine} (h : Going k base text heard m)
    (hmade : m'.continuations = m.continuations + 1) (hspent : m'.spent = m.spent) :
    m'.ledger.Sole m.continuations where
  made := by
    change m.continuations < m'.continuations
    omega
  fresh := by
    change m.continuations ∉ m'.spent
    intro hc
    rw [hspent] at hc
    have hlt : m.continuations < m.continuations := h.sound.1.spent _ hc
    omega
  others := by
    change ∀ d < m'.continuations, d ≠ m.continuations → d ∈ m'.spent
    intro d hd hne
    rw [hspent]
    exact h.spent d (by omega)

private theorem sleep_going {m m' : Machine} {o : Except Stop Unit}
    (h : Going k base text heard m) (hsleep : (task .sleep).on m = (o, m')) :
    Going k base text heard m' ∨
      o = .ok () ∧ Held k base text heard true m' ∧ m'.waiting = none := by
  rw [sleep_eq] at hsleep
  have hdelay := Keeps.on (takeDelay_matches going_endures.respects.heeds) h
  rcases hd : takeDelay.on m with ⟨stop | delay, n⟩
  · rw [hd] at hdelay
    rw [on_bind_error hd] at hsleep
    cases hsleep
    exact .inl hdelay
  · rw [hd] at hdelay
    rw [on_bind_ok hd, slumber_recording delay hdelay.scheduler] at hsleep
    cases hsleep
    have hrecorded : (delay, n.continuations) ∈ n.sleeping ++ [(delay, n.continuations)] :=
      List.mem_append_right _ List.mem_cons_self
    refine .inr ⟨rfl, { hdelay with
      sound := sound_invariant.sleep delay hdelay.sound
      since := Nat.le_succ_of_le hdelay.since
      paused := rfl
      owed := ⟨n.continuations, hdelay.since, sole_of_pause hdelay rfl rfl, ?_⟩ }, hdelay.waiting⟩
    exact .inr ⟨hdelay.waiting, delay, hrecorded⟩

private theorem key_going {m m' : Machine} {o : Except Stop Unit}
    (h : Going k base text heard m) (hkey : (task .key).on m = (o, m')) :
    o = .ok () ∧ Held k base text heard true m' := by
  obtain ⟨n, -, hn⟩ := report_logged .debug "Runtime" "Waiting for a key." m
  have hreport := Keeps.on (report_matches going_endures.respects.minds .debug "Runtime"
    "Waiting for a key.") h
  rw [hn] at hreport
  rw [show (task .key).on m = (.ok (), { n.suspended with waiting := some n.continuations }) from
    on_bind_ok hn _] at hkey
  cases hkey
  have hapart : ∀ e ∈ n.sleeping, e.2 ≠ n.continuations := by
    intro e he heq
    have hlt : e.2 < n.continuations := hreport.sound.1.sleeping e he
    omega
  exact ⟨rfl, { hreport with
    sound := sound_invariant.await hreport.sound
    since := Nat.le_succ_of_le hreport.since
    paused := rfl
    owed := ⟨n.continuations, hreport.since, sole_of_pause hreport rfl rfl, .inl ⟨rfl, hapart⟩⟩ }⟩

private theorem native_going {m m' : Machine} {o : Except Stop Unit} {name : String} {c : Code}
    (h : Going k base text heard m) (hc : c.holds = false)
    (hnative : (native name c).on m = (o, m')) :
    Going k base text heard m' ∨
      o = .ok () ∧ Held k base text heard true m' ∧ (c = .task .key ∨ m'.waiting = none) := by
  cases hpauses : c.pauses with
  | false =>
    have hkept :=
      Keeps.on (steady_matches going_endures.respects.toAbides going_scans name hpauses) h
    rw [hnative] at hkept
    exact .inl hkept
  | true =>
    have hcode : ∀ {o n}, (code c).on m = (o, n) →
        Going k base text heard n ∨
          o = .ok () ∧ Held k base text heard true n ∧ (c = .task .key ∨ n.waiting = none) := by
      intro o n hn
      rcases Code.sleeps_or_waits hc hpauses with rfl | rfl
      · rcases sleep_going h hn with hgoing | ⟨ho, hheld, hwaiting⟩
        · exact .inl hgoing
        · exact .inr ⟨ho, hheld, .inr hwaiting⟩
      · obtain ⟨ho, hheld⟩ := key_going h hn
        exact .inr ⟨ho, hheld, .inl rfl⟩
    rcases hn : (code c).on m with ⟨stop | u, n⟩
    · rw [native_of_error name hn] at hnative
      cases hnative
      rcases hcode hn with hgoing | ⟨hok, -⟩
      · exact .inl hgoing
      · cases hok
    · rw [native_of_ok name hn] at hnative
      cases hnative
      exact hcode hn

private theorem advance_going {m m' : Machine} {o : Except Stop Unit} {f : Frame}
    {fs : List Frame} (h : Going k base text heard m) (hframes : m.frames = f :: fs)
    (hadvance : (advance f).on m = (o, m')) :
    Going k base text heard m' ∨
      o = .ok () ∧ Held k base text heard true m' ∧
        ((∃ rest, m.AtKey rest) ∨ m'.waiting = none) := by
  have hf : f ∈ m.frames := by
    rw [hframes]
    exact List.mem_cons_self
  have hwithin : NodesWithin Hostless f.nodes := h.nodes f hf
  cases hnative : f.native? with
  | none =>
    have hkept := Keeps.on (advance_within going_confines going_endures.respects.minds
      hereditary_within hwithin fun name c hc => by rw [hnative] at hc; cases hc) h
    rw [hadvance] at hkept
    exact .inl hkept
  | some e =>
    obtain ⟨name, c⟩ := e
    obtain ⟨rest, rfl⟩ := sequence_of_native hnative
    rw [advance_native] at hadvance
    have hrest : ∀ g ∈ Frame.sequence rest :: m.frames.tail, NodesWithin Hostless g.nodes := by
      intro g hg
      rcases List.mem_cons.mp hg with rfl | hg
      · exact hereditary_within.rest hwithin
      · exact h.nodes g (List.mem_of_mem_tail hg)
    have hstart : Going k base text heard
        { m with frames := .sequence rest :: m.frames.tail, steps := m.steps + 1 } :=
      { h with nodes := hrest }
    rcases native_going hstart (hwithin c List.mem_cons_self) hadvance with
      hgoing | ⟨ho, hheld, rfl | hwaiting⟩
    · exact .inl hgoing
    · exact .inr ⟨ho, hheld, .inl ⟨rest, h.paused, name, fs, hframes⟩⟩
    · exact .inr ⟨ho, hheld, .inr hwaiting⟩

/-- A turn lets the line go on, or suspends it. The line waits for a key only if the turn is that of
`key`. -/
theorem turn_going {m m' : Machine} {o : Except Stop (Option Bool)}
    (h : Going k base text heard m) (hturn : turn.on m = (o, m')) :
    Going k base text heard m' ∨
      o = .ok none ∧ Held k base text heard true m' ∧
        ((∃ rest, m.AtKey rest) ∨ m'.waiting = none) := by
  obtain hm | ⟨f, fs, hm⟩ | hm := ready_or_paused m
  · rw [h.paused] at hm
    cases hm
  · rw [turn_frame hm] at hturn
    rcases ha : (advance f).on m with ⟨stop | u, n⟩
    · rw [on_bind_error ha] at hturn
      cases hturn
      rcases advance_going h hm.2 ha with hgoing | ⟨hok, -⟩
      · exact .inl hgoing
      · cases hok
    · rw [on_bind_ok ha] at hturn
      cases hturn
      rcases advance_going h hm.2 ha with hgoing | ⟨-, hheld⟩
      · exact .inl hgoing
      · exact .inr ⟨rfl, hheld⟩
  · rw [turn_token hm] at hturn
    have hkept := takeToken_going.on h
    rw [hturn] at hkept
    exact .inl hkept

/-- Turn after turn, a line that goes on comes to its end or fails while it still goes on, or is
suspended. -/
theorem ends_going {m m' : Machine} {o : Except Failure Bool} (hends : Ends m o m')
    (h : Going k base text heard m) :
    o ≠ .ok false ∧ Going k base text heard m' ∨
      o = .ok false ∧ Held k base text heard true m' := by
  induction hends with
  | @stop m m' done hturn =>
    have hstopped := (Ends.stop hturn).stopped
    rcases turn_going h hturn with hgoing | ⟨hnone, -⟩
    · refine .inl ⟨fun hdone => ?_, hgoing⟩
      cases hdone
      rw [if_neg Bool.false_ne_true, hgoing.paused] at hstopped
      cases hstopped
    · cases hnone
  | @fail m m' f hturn =>
    rcases turn_going h hturn with hgoing | ⟨hnone, -⟩
    · exact .inl ⟨nofun, hgoing⟩
    · cases hnone
  | @step m m₁ m' o hturn hrest ih =>
    rcases turn_going h hturn with hgoing | ⟨-, hheld, -⟩
    · exact ih hgoing
    · obtain ⟨rfl, rfl⟩ := ends_of_paused hheld.paused hrest
      exact .inr ⟨rfl, hheld⟩

private theorem text_of_line {m : Machine} (h : m.line.map Line.text = some text) :
    (m.line.getD { text := "", returnDepth := 0 }).text = text := by
  cases hline : m.line with
  | none =>
    rw [hline] at h
    cases h
  | some line =>
    rw [hline] at h
    exact Option.some.inj h

/-- What the result of a line tells of the session. -/
def Lands (k base : Nat) (text : String) (heard : List (String × String)) (r : LineResult)
    (m : Machine) : Prop :=
  r.line = text ∧ if r.paused then Held k base text heard false m else Rests k (heard ++ told k r) m

private theorem lands_of_going {m n : Machine} {map : MemoryMap} {o : Except Failure Bool}
    (h : Going k base text heard m) (ho : o ≠ .ok false) (hframes : o = .ok true → m.frames = [])
    (hn : (Machine.concluded { m with running := false } map o).Logged n)
    (hears : n.Hears k (heard ++ told k (Machine.result { m with running := false } map o))) :
    Lands k base text heard (Machine.result { m with running := false } map o) n := by
  obtain ⟨entries, events, rfl⟩ := hn
  rcases o with f | _ | _
  · refine ⟨text_of_line h.line, ?_⟩
    exact
      { h with
        toHears := hears
        sound := sound_persists.lasts.ended h.sound (.error f)
        spoken := nofun
        nodes := List.forall_mem_nil _
        line := rfl
        paused := rfl
        running := rfl
        frames := rfl
        source := rfl
        waiting := rfl }
  · exact absurd rfl ho
  · refine ⟨text_of_line h.line, ?_⟩
    exact
      { h with
        toHears := hears
        line := rfl
        running := rfl
        frames := hframes rfl
        source := rfl }

private theorem lands_of_held {m n : Machine} {map : MemoryMap} (h : Held k base text heard true m)
    (hn : Machine.Logged { m with running := false } n) (hears : n.Hears k heard) :
    Lands k base text heard (Machine.result { m with running := false } map (.ok false)) n := by
  obtain ⟨entries, events, rfl⟩ := hn
  refine ⟨text_of_line h.line, ?_⟩
  exact { h with toHears := hears, running := rfl }

theorem drive_going {fuel : Nat} {m m' : Machine} {o : Except Stop LineResult}
    (h : Going k base text heard { m with running := true })
    (hdrive : (drive fuel).on m = (o, m')) (hend : o ≠ .error .exhausted) :
    ∃ r, o = .ok r ∧ Lands k base text heard r m' := by
  obtain ⟨out, n, hline, hconclude⟩ := drive_cases (m := m) (by rwa [hdrive])
  have hends : Ends { m with running := true } out n :=
    (continueLine_iff_ends _ _ _).mp ⟨fuel, hline⟩
  have hstopped : out = .ok true → n.frames = [] := by
    intro hout
    rw [hout] at hends
    exact hends.stopped.2
  have hgone := ends_going hends h
  have hlegible : n.memory.Legible := by
    rcases hgone with ⟨-, hgoing⟩ | ⟨-, hheld⟩
    · exact hgoing.sound.2.legible
    · exact hheld.sound.2.legible
  obtain ⟨map, hmap⟩ := n.memory.map_eq_ok_iff.mpr hlegible
  obtain ⟨n', hn', hresult⟩ := conclude_of_map (m := { n with running := false }) hmap out
  rw [hdrive, hresult] at hconclude
  cases hconclude
  refine ⟨_, rfl, ?_⟩
  rcases hgone with ⟨hout, hgoing⟩ | ⟨rfl, hheld⟩
  · have hears := conclude_hears (m := { n with running := false }) hout
      ⟨hgoing.heard, hgoing.listeners⟩ hresult
    exact lands_of_going hgoing hout hstopped hn' hears
  · have hears := suspended_hears (m := { n with running := false })
      ⟨hheld.heard, hheld.listeners⟩ hresult
    exact lands_of_held hheld hn' hears

section Calls

variable {m m' n : Machine}

theorem Rests.logged (h : Rests k heard m) (hn : m.Logged n) (hheard : n.heard = m.heard) :
    Rests k heard n := by
  obtain ⟨entries, events, rfl⟩ := hn
  exact { h with heard := hheard.trans h.heard }

theorem Held.logged (h : Held k base text heard false m) (hn : m.Logged n)
    (hheard : n.heard = m.heard) : Held k base text heard false n := by
  obtain ⟨entries, events, rfl⟩ := hn
  exact { h with heard := hheard.trans h.heard }

theorem Rests.going (h : Rests k heard m) (hbase : base ≤ m.continuations)
    (hn : (m.begun text).Logged n) (hheard : n.heard = m.heard) :
    Going k base text heard { n with running := true } := by
  obtain ⟨entries, events, rfl⟩ := hn
  exact
    { h with
      heard := hheard.trans h.heard
      line := rfl
      source := rfl
      running := rfl
      since := hbase }

theorem Aloft.going {c : Nat} (h : Aloft k base text heard false m) (hc : m.ledger.Sole c)
    (hwaiting : m.waiting = none)
    (hn : Machine.Logged { m with spent := c :: m.spent, paused := false } n)
    (hheard : n.heard = m.heard) : Going k base text heard { n with running := true } := by
  obtain ⟨entries, events, rfl⟩ := hn
  refine
    { h with
      heard := hheard.trans h.heard
      sound := ⟨h.sound.1.spend hc.made, h.sound.2⟩
      running := rfl
      paused := rfl
      waiting := hwaiting
      spent := fun d hd => ?_ }
  by_cases hdc : d = c
  · rw [hdc]
    exact List.mem_cons_self
  · exact List.mem_cons_of_mem _ (hc.others d hd hdc)

theorem readLine_rests {fuel : Nat} {o : Except Stop LineResult} (h : Rests k heard m)
    (hbase : base ≤ m.continuations) (hread : (readLine fuel text).on m = (o, m'))
    (hend : o ≠ .error .exhausted) : ∃ r, o = .ok r ∧ Lands k base text heard r m' := by
  obtain ⟨n, hn, hheard, hdrive⟩ := readLine_of_free h.toIdle.free text
  rw [hdrive] at hread
  exact drive_going (h.going hbase hn hheard) hread hend

theorem readLine_held (h : Held k base text heard false m) (fuel : Nat) (other : String) :
    (readLine fuel other).on m = (.error (.failed { cause := .lineInFlight }), m) := by
  refine readLine_of_busy fuel other ?_
  rw [h.paused, Bool.or_true, Bool.true_or]

theorem resume_aloft {fuel c : Nat} {o : Except Stop (Option LineResult)}
    (h : Aloft k base text heard false m) (hc : m.ledger.Sole c) (hwaiting : m.waiting = none)
    (hresume : (resume fuel c).on m = (o, m')) (hend : o ≠ .error .exhausted) :
    ∃ r, o = .ok (some r) ∧ Lands k base text heard r m' := by
  obtain ⟨line, hline, -⟩ := Option.map_eq_some_iff.mp h.line
  have hnew : c ∉ m.spent := hc.fresh
  have hfresh : m.spent.contains c = false := by simpa using hnew
  obtain ⟨n, hn, hheard, hdrive⟩ := resume_of_line hfresh h.running hline
  have hgoing := h.going hc hwaiting hn hheard
  rw [hdrive, ← bind_pure_comp] at hresume
  rcases hd : (drive fuel).on n with ⟨stop | r, n'⟩
  · rw [on_bind_error hd] at hresume
    cases hresume
    obtain ⟨r, hr, -⟩ := drive_going hgoing hd fun hstop => hend (by cases hstop; rfl)
    cases hr
  · rw [on_bind_ok hd] at hresume
    cases hresume
    obtain ⟨r', hr, hlands⟩ := drive_going hgoing hd nofun
    cases hr
    exact ⟨r, rfl, hlands⟩

theorem resume_of_spent {c : Nat} (hc : c ∈ m.spent) (fuel : Nat) :
    (resume fuel c).on m = (.error (.failed { cause := .continuationSpent }), m) := by
  rw [resume, on_bind_error (wake_of_spent (List.contains_iff_mem.mpr hc))]

end Calls

end Run

end Forthline
