import Forthline.Proofs.Invariants
import Forthline.Proofs.Turns

/-!
# How lines end

The machine and the result that a line leaves when it is at its end, is suspended or fails. A result
shows the named blocks of the memory, and can be given exactly if all of them can be read.
-/

namespace Forthline

def Machine.Logged (m n : Machine) : Prop :=
  ∃ entries events, n = { m with log := { m.log with entries }, events }

theorem Machine.Logged.refl (m : Machine) : m.Logged m := ⟨m.log.entries, m.events, rfl⟩

theorem Machine.Logged.trans {m n k : Machine} (h : m.Logged n) (h' : n.Logged k) : m.Logged k := by
  obtain ⟨_, _, rfl⟩ := h
  obtain ⟨entries, events, rfl⟩ := h'
  exact ⟨entries, events, rfl⟩

def Machine.heard (m : Machine) : List (String × String) := (m.events.filterMap Event.line?).reverse

structure Machine.Hears (k : Nat) (heard : List (String × String)) (m : Machine) : Prop where
  heard : m.heard = heard
  listeners : m.lineListeners.length = k

namespace Run

theorem hears_endures (k : Nat) (heard : List (String × String)) :
    Endures (Machine.Hears k heard) where
  work := fun _ _ h _ => ⟨h.heard, h.listeners⟩
  write := fun _ _ h => ⟨h.heard, h.listeners⟩
  emit := by
    intro m e h he
    refine ⟨?_, h.listeners⟩
    rw [← h.heard, Machine.heard, List.filterMap_cons_none he]
    rfl
  note := fun _ _ h => ⟨h.heard, h.listeners⟩
  wake := fun _ _ h _ => ⟨h.heard, h.listeners⟩

theorem report_hears {k : Nat} {heard : List (String × String)}
    {level : Level} {category message : String} {m n : Machine}
    (hm : m.Hears k heard) (h : (report level category message).on m = (.ok (), n)) :
    n.Hears k heard := by
  have hkept := Keeps.on (report_matches (hears_endures k heard).respects level category message) hm
  rwa [h] at hkept

private theorem forM_emit {α : Type} (xs : List α) (e : Event) (m : Machine) :
    (xs.forM fun _ => emit e).on m =
      (.ok (), { m with events := List.replicate xs.length e ++ m.events }) := by
  induction xs generalizing m with
  | nil => rfl
  | cons x xs ih =>
    have hrest := ih { m with events := e :: m.events }
    rw [List.length_cons, List.replicate_succ', List.append_assoc]
    exact hrest

theorem report_logged (level : Level) (category message : String) (m : Machine) :
    ∃ n, m.Logged n ∧ (report level category message).on m = (.ok (), n) := by
  unfold report reportText
  rw [on_get_bind]
  split
  · let entry : LogEntry := { level, category, message }
    have h := forM_emit m.logListeners (.log entry)
      { m with log := { m.log with entries := entry :: m.log.entries } }
    exact ⟨_, ⟨entry :: m.log.entries, _, rfl⟩, h⟩
  · exact ⟨m, .refl m, rfl⟩

private theorem forM_report_logged {α : Type} (xs : List α) (level : Level) (category : String)
    (message : α → String) (m : Machine) :
    ∃ n, m.Logged n ∧ (xs.forM fun x => report level category (message x)).on m = (.ok (), n) := by
  induction xs generalizing m with
  | nil => exact ⟨m, .refl m, rfl⟩
  | cons x xs ih =>
    obtain ⟨n, hn, hx⟩ := report_logged level category (message x) m
    obtain ⟨k, hk, hxs⟩ := ih n
    refine ⟨k, hn.trans hk, ?_⟩
    rw [← hxs]
    exact on_bind_ok hx _

private theorem resolved_logged (m : Machine) :
    ∃ n, m.Logged n ∧ resolved.on m = (.ok m.dictionary.resolved, n) := by
  obtain ⟨n, hn, h⟩ := forM_report_logged m.dictionary.resolve.2 .warning "Dictionary"
    (fun b => s!"Skipping invalid redefinition for `{b.key}`: {b.reason}") m
  refine ⟨n, hn, ?_⟩
  unfold resolved
  rw [on_get_bind]
  exact on_bind_ok h _

end Run

namespace Machine

def ended (m : Machine) : Except Failure Bool → Machine
  | .ok true => { m with output := if m.pending.isNone then m.output ++ m.marker else m.output }
  | .ok false => m
  | .error f =>
    { m with
      pending := none
      frames := []
      returns := m.returns.truncate ((m.line.map Line.returnDepth).getD 0)
      paused := false
      waiting := none
      output := m.output ++ f.shown }

def shown (m : Machine) (map : MemoryMap) (paused : Bool) (failure : Option Failure) :
    LineResult :=
  let line := m.line.getD { text := "", returnDepth := 0 }
  { line := line.text
    output := m.output
    stack := m.stack.toList
    parsed := line.parsed.reverse
    memory := map
    dictionary := m.dictionary.resolved
    paused
    failure }

def result (m : Machine) (map : MemoryMap) : Except Failure Bool → LineResult
  | .ok true => (m.ended (.ok true)).shown map false none
  | .ok false => m.shown map true none
  | .error f => (m.ended (.error f)).shown map false (some f)

def closed (m : Machine) (r : LineResult) : Machine :=
  { m with line := none, source := none, lastResult := some r }

def concluded (m : Machine) (map : MemoryMap) : Except Failure Bool → Machine
  | .ok false => m
  | o => (m.ended o).closed (m.result map o)

theorem Logged.memory {m n : Machine} (h : m.Logged n) : n.memory = m.memory := by
  obtain ⟨_, _, rfl⟩ := h
  rfl

theorem Logged.shown {m n : Machine} (h : m.Logged n) : n.shown = m.shown := by
  obtain ⟨_, _, rfl⟩ := h
  rfl

theorem Logged.closed {m n : Machine} (h : m.Logged n) (r : LineResult) :
    (m.closed r).Logged (n.closed r) := by
  obtain ⟨entries, events, rfl⟩ := h
  exact ⟨entries, events, rfl⟩

/-- Two machines after a line, as far as it shows. -/
structure SameEnd (m n : Machine) : Prop where
  stack : m.stack = n.stack
  returns : m.returns = n.returns
  memory : m.memory = n.memory
  dictionary : m.dictionary = n.dictionary
  pending : m.pending = n.pending
  frames : m.frames = [] ∧ n.frames = []
  steps : m.steps = n.steps

theorem SameEnd.logged {m m' n n' : Machine} (h : m.SameEnd n) (hm : m.Logged m')
    (hn : n.Logged n') : m'.SameEnd n' := by
  obtain ⟨_, _, rfl⟩ := hm
  obtain ⟨_, _, rfl⟩ := hn
  exact ⟨h.stack, h.returns, h.memory, h.dictionary, h.pending, h.frames, h.steps⟩

end Machine

namespace Run

def conclude : Except Failure Bool → Run LineResult
  | .ok true => finished
  | .ok false => suspended
  | .error f => failed f

private theorem snapshot_of_map {m : Machine} {map : MemoryMap} (h : m.memory.map = .ok map)
    (paused : Bool) (failure : Option Failure) :
    ∃ n, m.Logged n ∧ (snapshot paused failure).on m = (.ok (m.shown map paused failure), n) := by
  obtain ⟨n, hn, hview⟩ := resolved_logged m
  refine ⟨n, hn, ?_⟩
  rw [snapshot, on_get_bind, h, on_bind_ok (on_lift_ok _ _), on_bind_ok hview]
  rfl

private theorem snapshot_of_error {m : Machine} {c : Cause} (h : m.memory.map = .error c)
    (paused : Bool) (failure : Option Failure) :
    (snapshot paused failure).on m = (.error (.failed { cause := c }), m) := by
  rw [snapshot, on_get_bind, h]
  exact on_bind_error (on_lift_error _ _) _

private def conclusion (failure : Option Failure) : Run LineResult := do
  complete (← snapshot false failure)

private theorem conclusion_of_map {m : Machine} {map : MemoryMap} (h : m.memory.map = .ok map)
    (failure : Option Failure) :
    ∃ n, (m.closed (m.shown map false failure)).Logged n ∧
      (conclusion failure).on m = (.ok (m.shown map false failure), n) := by
  obtain ⟨n, hn, hs⟩ := snapshot_of_map h false failure
  let r := m.shown map false failure
  have htell := forM_emit n.lineListeners (.line r.line r.output) (n.closed r)
  have hcomplete : (complete r).on n = (.ok r, _) := on_bind_ok htell _
  exact ⟨_, (hn.closed r).trans ⟨n.log.entries, _, rfl⟩, (on_bind_ok hs _).trans hcomplete⟩

private theorem conclusion_of_error {m : Machine} {c : Cause} (h : m.memory.map = .error c)
    (failure : Option Failure) :
    (conclusion failure).on m = (.error (.failed { cause := c }), m) :=
  on_bind_error (snapshot_of_error h false failure) _

private theorem finished_eq (m : Machine) :
    finished.on m = (conclusion none).on (m.ended (.ok true)) := by
  unfold finished Machine.ended
  rw [on_get_bind]
  cases m.pending.isNone with
  | true => rfl
  | false => rfl

private theorem suspended_logged (m : Machine) :
    ∃ n, m.Logged n ∧ suspended.on m = (snapshot true none).on n := by
  let text := (m.line.map Line.text).getD ""
  obtain ⟨n, hn, h⟩ := report_logged .debug "Runtime" s!"Line suspended: {text}" m
  refine ⟨n, hn, ?_⟩
  rw [suspended, on_get_bind]
  exact on_bind_ok h _

private def giveUp (f : Failure) : Run LineResult := do
  modify fun m =>
    { m with
      pending := none
      frames := []
      returns := m.returns.truncate ((m.line.map Line.returnDepth).getD 0)
      paused := false
      waiting := none }
  write f.shown
  let kind := f.cause.kind
  let message := f.cause.message
  report .error "Runtime" s!"{kind}: {message}"
  conclusion (some f)

private theorem giveUp_logged (f : Failure) {m n : Machine} (hn : m.Logged n) :
    ∃ n', (m.ended (.error f)).Logged n' ∧
      (giveUp f).on n = (conclusion (some f)).on n' := by
  obtain ⟨entries, events, rfl⟩ := hn
  let kind := f.cause.kind
  let message := f.cause.message
  obtain ⟨n', hn', h⟩ := report_logged .error "Runtime" s!"{kind}: {message}"
    { m.ended (.error f) with log := { m.log with entries }, events }
  refine ⟨n', Machine.Logged.trans ⟨entries, events, rfl⟩ hn', ?_⟩
  rw [giveUp, on_modify_bind, write, on_modify_bind]
  exact on_bind_ok h _

private theorem failed_eq (f : Failure) :
    failed f = (do
      match (← get).pending with
      | some p => do
        let name := p.name
        report .debug "Compiler" s!"Discarding definition `{name}`."
        giveUp f
      | none => giveUp f) := rfl

private theorem failed_logged (f : Failure) (m : Machine) :
    ∃ n, (m.ended (.error f)).Logged n ∧ (failed f).on m = (conclusion (some f)).on n := by
  rw [failed_eq, on_get_bind]
  cases m.pending with
  | none => exact giveUp_logged f (.refl m)
  | some p =>
    let name := p.name
    obtain ⟨n, hn, h⟩ := report_logged .debug "Compiler" s!"Discarding definition `{name}`." m
    obtain ⟨n', hn', h'⟩ := giveUp_logged f hn
    exact ⟨n', hn', (on_bind_ok h _).trans h'⟩

@[simp] theorem ended_memory (m : Machine) (o : Except Failure Bool) :
    (m.ended o).memory = m.memory := by
  rcases o with f | _ | _
  · rfl
  · rfl
  · rfl

theorem conclude_of_map {m : Machine} {map : MemoryMap} (h : m.memory.map = .ok map)
    (o : Except Failure Bool) :
    ∃ n, (m.concluded map o).Logged n ∧ (conclude o).on m = (.ok (m.result map o), n) := by
  rcases o with f | _ | _
  · obtain ⟨n, hn, hf⟩ := failed_logged f m
    obtain ⟨n', hn', hc⟩ := conclusion_of_map (m := n) (by rwa [hn.memory, ended_memory]) (some f)
    rw [hn.shown] at hn' hc
    exact ⟨n', (hn.closed _).trans hn', hf.trans hc⟩
  · obtain ⟨n, hn, hs⟩ := suspended_logged m
    obtain ⟨n', hn', hc⟩ := snapshot_of_map (m := n) (by rwa [hn.memory]) true none
    rw [hn.shown] at hc
    exact ⟨n', hn.trans hn', hs.trans hc⟩
  · obtain ⟨n, hn, hc⟩ := conclusion_of_map (m := m.ended (.ok true)) (by rwa [ended_memory]) none
    exact ⟨n, hn, (finished_eq m).trans hc⟩

theorem conclude_of_error {m : Machine} {c : Cause} (h : m.memory.map = .error c)
    (o : Except Failure Bool) :
    ∃ n, (m.ended o).Logged n ∧ (conclude o).on m = (.error (.failed { cause := c }), n) := by
  rcases o with f | _ | _
  · obtain ⟨n, hn, hf⟩ := failed_logged f m
    exact ⟨n, hn, hf.trans (conclusion_of_error (by rwa [hn.memory, ended_memory]) (some f))⟩
  · obtain ⟨n, hn, hs⟩ := suspended_logged m
    exact ⟨n, hn, hs.trans (snapshot_of_error (by rwa [hn.memory]) true none)⟩
  · refine ⟨_, .refl _, (finished_eq m).trans (conclusion_of_error ?_ none)⟩
    rwa [ended_memory]

section Listeners

variable {k : Nat} {heard : List (String × String)}

private theorem snapshot_keeps (paused : Bool) (failure : Option Failure) :
    Keeps (Machine.Hears k heard) (snapshot paused failure) := by
  have hreport := report_matches (hears_endures k heard).respects.minds
  have hresolved : Keeps (Machine.Hears k heard) resolved :=
    Keeps.get_bind fun _ _ => (Matches.forM _ fun _ => hreport _ _ _).bind fun _ => Matches.pure _
  refine Keeps.get_bind fun m _ => (Matches.lift _).bind fun _ => ?_
  exact hresolved.bind fun _ => Matches.pure _

def told (k : Nat) (r : LineResult) : List (String × String) := List.replicate k (r.line, r.output)

private theorem complete_hears {m n : Machine} {r r' : LineResult} (hm : m.Hears k heard)
    (h : (complete r).on m = (.ok r', n)) : n.Hears k (heard ++ told k r') := by
  have hemit := forM_emit m.lineListeners (.line r.line r.output) (m.closed r)
  have hcomplete : (complete r).on m = (.ok r, _) := on_bind_ok hemit _
  rw [hcomplete] at h
  cases h
  refine ⟨?_, hm.listeners⟩
  have hline : (Event.line r.line r.output).line? = some (r.line, r.output) := rfl
  rw [← hm.heard, ← hm.listeners]
  simp [Machine.heard, told, Machine.closed, List.filterMap_replicate_of_some hline]

private theorem conclusion_hears {m n : Machine} {r : LineResult} {failure : Option Failure}
    (hm : m.Hears k heard) (h : (conclusion failure).on m = (.ok r, n)) :
    n.Hears k (heard ++ told k r) := by
  obtain ⟨r', m₁, hs, h⟩ := on_bind_eq_ok h
  have hm₁ := (snapshot_keeps false failure).on hm
  rw [hs] at hm₁
  exact complete_hears hm₁ h

private theorem giveUp_hears {m n : Machine} {r : LineResult} {f : Failure}
    (hm : m.Hears k heard) (h : (giveUp f).on m = (.ok r, n)) :
    n.Hears k (heard ++ told k r) := by
  rw [giveUp, on_modify_bind, write, on_modify_bind] at h
  obtain ⟨_, m₁, hreport, h⟩ := on_bind_eq_ok h
  have hended : (m.ended (.error f)).Hears k heard := ⟨hm.heard, hm.listeners⟩
  exact conclusion_hears (report_hears hended hreport) h

theorem suspended_hears {m n : Machine} {r : LineResult} (hm : m.Hears k heard)
    (h : (conclude (.ok false)).on m = (.ok r, n)) : n.Hears k heard := by
  change suspended.on m = _ at h
  rw [suspended, on_get_bind] at h
  obtain ⟨_, m₁, hreport, h⟩ := on_bind_eq_ok h
  have hkept := (snapshot_keeps true none).on (report_hears hm hreport)
  rwa [h] at hkept

theorem conclude_hears {m n : Machine} {r : LineResult} {o : Except Failure Bool}
    (ho : o ≠ .ok false) (hm : m.Hears k heard) (h : (conclude o).on m = (.ok r, n)) :
    n.Hears k (heard ++ told k r) := by
  rcases o with f | _ | _
  · change (failed f).on m = _ at h
    rw [failed_eq, on_get_bind] at h
    cases hp : m.pending with
    | none =>
      rw [hp] at h
      exact giveUp_hears hm h
    | some p =>
      rw [hp] at h
      obtain ⟨_, m₁, hreport, h⟩ := on_bind_eq_ok h
      exact giveUp_hears (report_hears hm hreport) h
  · exact absurd rfl ho
  · rw [conclude, finished_eq] at h
    exact conclusion_hears (m := m.ended (.ok true)) ⟨hm.heard, hm.listeners⟩ h

end Listeners

private def attempt (fuel : Nat) : Run (Except Failure Bool) :=
  tryCatch (Except.ok <$> continueLine fuel) fun stop =>
    match stop with
    | .failed f => return .error f
    | .exhausted => throw .exhausted

private theorem drive_eq (fuel : Nat) :
    drive fuel = (do
      modify fun m => { m with running := true }
      let o ← attempt fuel
      modify fun m => { m with running := false }
      conclude o) := rfl

private theorem attempt_of_continueLine {fuel : Nat} {m m' : Machine} {o : Except Failure Bool}
    (h : (continueLine fuel).on m = (o.mapError .failed, m')) :
    (attempt fuel).on m = (.ok o, m') := by
  rw [attempt, on_tryCatch, ← bind_pure_comp]
  cases o with
  | error f =>
    rw [on_bind_error h]
    exact on_pure _ _
  | ok done =>
    rw [on_bind_ok h]
    rfl

theorem drive_of_continueLine {fuel : Nat} {m m' : Machine} {o : Except Failure Bool}
    (h : (continueLine fuel).on { m with running := true } = (o.mapError .failed, m')) :
    (drive fuel).on m = (conclude o).on { m' with running := false } := by
  rw [drive_eq, on_modify_bind, on_bind_ok (attempt_of_continueLine h), on_modify_bind]

theorem drive_of_exhausted {fuel : Nat} {m m' : Machine}
    (h : (continueLine fuel).on { m with running := true } = (.error .exhausted, m')) :
    (drive fuel).on m = (.error .exhausted, m') := by
  have hattempt : (attempt fuel).on { m with running := true } = (.error .exhausted, m') := by
    rw [attempt, on_tryCatch, ← bind_pure_comp, on_bind_error h]
    exact on_throw _ _
  rw [drive_eq, on_modify_bind, on_bind_error hattempt]

theorem drive_cases {fuel : Nat} {m : Machine}
    (h : ((drive fuel).on m).1 ≠ .error .exhausted) :
    ∃ o m', (continueLine fuel).on { m with running := true } =
        ((o : Except Failure Bool).mapError .failed, m') ∧
      (drive fuel).on m = (conclude o).on { m' with running := false } := by
  rcases hc : (continueLine fuel).on { m with running := true } with ⟨(f | _) | done, m'⟩
  · exact ⟨.error f, m', rfl, drive_of_continueLine hc⟩
  · refine absurd ?_ h
    rw [drive_of_exhausted hc]
  · exact ⟨.ok done, m', rfl, drive_of_continueLine hc⟩

theorem drive_of_ends {m m' : Machine} {o : Except Failure Bool}
    (h : Ends { m with running := true } o m') :
    ∃ k, ∀ fuel, k ≤ fuel → (drive fuel).on m = (conclude o).on { m' with running := false } := by
  obtain ⟨k, hk⟩ := (continueLine_iff_ends _ _ _).mpr h
  refine ⟨k, fun fuel hfuel => drive_of_continueLine ?_⟩
  obtain ⟨extra, rfl⟩ := Nat.exists_eq_add_of_le hfuel
  rw [continueLine_add (by rw [hk]; cases o <;> exact nofun), hk]

end Run

structure Machine.Idle (m : Machine) : Prop where
  line : m.line = none
  paused : m.paused = false
  running : m.running = false
  frames : m.frames = []

instance (m : Machine) : Decidable m.Idle :=
  decidable_of_iff
    (m.line.isNone = true ∧ m.paused = false ∧ m.running = false ∧ m.frames.isEmpty = true) <| by
    rw [Option.isNone_iff_eq_none, List.isEmpty_iff]
    exact ⟨fun h => ⟨h.1, h.2.1, h.2.2.1, h.2.2.2⟩,
      fun h => ⟨h.line, h.paused, h.running, h.frames⟩⟩

theorem Machine.Idle.free {m : Machine} (hm : m.Idle) :
    (m.line.isSome || m.paused || m.running) = false := by
  rw [hm.line, hm.paused, hm.running]
  rfl

def Machine.begun (m : Machine) (text : String) : Machine :=
  { m with
    line := some { text, returnDepth := m.returns.depth }
    linesRead := m.linesRead + 1
    output := ""
    source := some (Stream.ofText text) }

namespace Run

def beginLine (text : String) : Run Unit := do
  let m ← get
  if m.line.isSome || m.paused || m.running then fail .lineInFlight
  set { m with line := some { text, returnDepth := m.returns.depth } }
  report .info "Input" s!"Processing line: {text}"
  modify fun m =>
    { m with linesRead := m.linesRead + 1, output := "", source := some (Stream.ofText text) }

def rouse (continuation : Nat) : Run Bool := do
  wake continuation
  let m ← get
  match m.running, m.line with
  | false, some line =>
    let text := line.text
    report .debug "Runtime" s!"Resuming line: {text}"
    return true
  | _, _ => return false

theorem readLine_eq (fuel : Nat) (text : String) :
    readLine fuel text = (do beginLine text; drive fuel) := by
  unfold readLine beginLine
  rw [bind_assoc]
  refine bind_congr fun m => ?_
  split
  · rfl
  · simp only [bind_assoc]

theorem resume_eq (fuel c : Nat) :
    resume fuel c = (do if ← rouse c then some <$> drive fuel else return none) := by
  unfold resume rouse
  rw [bind_assoc]
  refine bind_congr fun _ => ?_
  rw [bind_assoc]
  refine bind_congr fun m => ?_
  cases m.running with
  | true => rfl
  | false =>
    cases m.line with
    | none => rfl
    | some line => simp only [bind_assoc, pure_bind, if_true]

theorem beginLine_of_busy (text : String) {m : Machine}
    (hm : (m.line.isSome || m.paused || m.running) = true) :
    (beginLine text).on m = (.error (.failed { cause := .lineInFlight }), m) := by
  unfold beginLine
  rw [on_get_bind, hm]
  rfl

theorem beginLine_of_free {m : Machine} (hm : (m.line.isSome || m.paused || m.running) = false)
    (text : String) :
    ∃ n, (m.begun text).Logged n ∧ n.heard = m.heard ∧ (beginLine text).on m = (.ok (), n) := by
  let m₁ := { m with line := some { text, returnDepth := m.returns.depth } }
  obtain ⟨_, ⟨entries, events, rfl⟩, h⟩ := report_logged .info "Input"
    s!"Processing line: {text}" m₁
  have hheard := (report_hears (m := m₁) ⟨rfl, rfl⟩ h).heard
  refine ⟨_, ⟨entries, events, rfl⟩, hheard, ?_⟩
  unfold beginLine
  rw [on_get_bind, hm]
  exact on_bind_ok h _

theorem rouse_of_spent {m : Machine} {c : Nat} (hspent : m.spent.contains c = true) :
    (rouse c).on m = (.error (.failed { cause := .continuationSpent }), m) := by
  rw [rouse, on_bind_error (wake_of_spent hspent)]

theorem rouse_of_line {m : Machine} {c : Nat} {line : Line} (hfresh : m.spent.contains c = false)
    (hrunning : m.running = false) (hline : m.line = some line) :
    ∃ n, Machine.Logged { m with spent := c :: m.spent, paused := false } n ∧ n.heard = m.heard ∧
      (rouse c).on m = (.ok true, n) := by
  generalize hwoken : { m with spent := c :: m.spent, paused := false } = m'
  have hrunning' : m'.running = false := by rw [← hwoken]; exact hrunning
  have hline' : m'.line = some line := by rw [← hwoken]; exact hline
  have hheard : m'.heard = m.heard := by rw [← hwoken]; rfl
  let text := line.text
  obtain ⟨n, hn, h⟩ := report_logged .debug "Runtime" s!"Resuming line: {text}" m'
  refine ⟨n, hn, (report_hears ⟨hheard, rfl⟩ h).heard, ?_⟩
  rw [rouse, on_bind_ok (wake_of_fresh hfresh), hwoken, on_get_bind, hrunning', hline']
  exact on_bind_ok h _

theorem readLine_of_busy (fuel : Nat) (text : String) {m : Machine}
    (hm : (m.line.isSome || m.paused || m.running) = true) :
    (readLine fuel text).on m = (.error (.failed { cause := .lineInFlight }), m) := by
  rw [readLine_eq, on_bind_error (beginLine_of_busy text hm)]

theorem readLine_of_free {m : Machine} (hm : (m.line.isSome || m.paused || m.running) = false)
    (text : String) :
    ∃ n, (m.begun text).Logged n ∧ n.heard = m.heard ∧
      ∀ fuel, (readLine fuel text).on m = (drive fuel).on n := by
  obtain ⟨n, hn, hheard, h⟩ := beginLine_of_free hm text
  refine ⟨n, hn, hheard, fun fuel => ?_⟩
  rw [readLine_eq, on_bind_ok h]

theorem resume_of_line {m : Machine} {c : Nat} {line : Line} (hfresh : m.spent.contains c = false)
    (hrunning : m.running = false) (hline : m.line = some line) :
    ∃ n, Machine.Logged { m with spent := c :: m.spent, paused := false } n ∧ n.heard = m.heard ∧
      ∀ fuel, (resume fuel c).on m = (some <$> drive fuel).on n := by
  obtain ⟨n, hn, hheard, h⟩ := rouse_of_line hfresh hrunning hline
  refine ⟨n, hn, hheard, fun fuel => ?_⟩
  rw [resume_eq, on_bind_ok h, if_pos rfl]

end Run

end Forthline
