import Forthline.Proofs.Reachable

/-!
# Suspension is transparent

A line that sleeps leads to the same end whether its scheduler resumes it at once, within the word
that sleeps, or records its continuation, which is fired whenever the line comes back suspended.
Turn by turn the two runs agree; where one of them sleeps, the other is like it will be when it
was woken.
-/

namespace Forthline

namespace Run

def fireAll (fuel : Nat) : Nat → LineResult → Run LineResult
  | 0, _ => throw .exhausted
  | rounds + 1, r =>
    if r.paused then do
      match ← fire fuel 0 with
      | .returned (some r) => fireAll fuel rounds r
      | _ => return r
    else return r

def readFiring (fuel : Nat) (text : String) : Run LineResult := do
  let r ← readLine fuel text
  fireAll fuel fuel r

end Run

namespace Machine

def scheduled (m : Machine) (scheduler : Scheduler) : Machine :=
  { m with scheduler, sleeping := [] }

def woken (m : Machine) (c : Nat) : Machine :=
  { m with
    sleeping := m.sleeping.tail
    fired := some c
    spent := c :: m.spent
    paused := false }

def mode (m : Machine) : Scheduler × List (Binary64 × Nat) × Bool × Bool :=
  (m.scheduler, m.sleeping, m.running, m.line.isSome)

end Machine

namespace Run

/-- The first machine runs a line with a scheduler that resumes at once. The second is in the same
state with one that records, but for what was fired and logged. -/
structure Alike (a b : Machine) : Prop where
  sound : a.Sound
  mode : a.mode = (.immediate, [], true, true)
  same : ∃ fired entries events,
    b = { a with scheduler := .recording, fired, log := { a.log with entries }, events }

/-- The second machine sleeps, and is like the first when it is woken. -/
def Asleep (a b : Machine) : Prop :=
  b.paused = true ∧ ∃ delay c, b.sleeping = [(delay, c)] ∧ b.spent.contains c = false ∧
    Alike a (b.woken c)

private theorem alike_respects : Respects Alike where
  workspace := by
    rintro a _ ⟨-, -, _, _, _, rfl⟩
    rfl
  rack := by
    rintro a _ ⟨-, -, _, _, _, rfl⟩
    rfl
  spent := by
    rintro a _ ⟨-, -, _, _, _, rfl⟩
    rfl
  threshold := by
    rintro a _ ⟨-, -, _, _, _, rfl⟩
    rfl
  logListeners := by
    rintro a _ ⟨-, -, _, _, _, rfl⟩
    rfl
  work := by
    rintro a _ w ⟨hs, hm, _, _, _, rfl⟩ hw
    exact ⟨sound_invariant.work hs hw, hm, _, _, _, rfl⟩
  write := by
    rintro a _ text ⟨hs, hm, _, _, _, rfl⟩
    exact ⟨hs, hm, _, _, _, rfl⟩
  emit := by
    rintro a _ e ⟨hs, hm, _, _, _, rfl⟩ -
    exact ⟨hs, hm, _, _, _, rfl⟩
  note := by
    rintro a _ e ⟨hs, hm, _, _, _, rfl⟩
    exact ⟨hs, hm, _, _, _, rfl⟩
  wake := by
    rintro a _ c ⟨hs, hm, _, _, _, rfl⟩ hc
    exact ⟨sound_invariant.wake hs hc, hm, _, _, _, rfl⟩

private theorem alike_scans : Scans Alike where
  source := by
    rintro a _ ⟨-, -, _, _, _, rfl⟩
    rfl
  setSource := by
    rintro a _ s ⟨hs, hm, _, _, _, rfl⟩
    exact ⟨hs, hm, _, _, _, rfl⟩

private theorem alike_pauses : Pauses Alike where
  continuations := by
    rintro a _ ⟨-, -, _, _, _, rfl⟩
    rfl
  pause := by
    rintro a _ ⟨hs, hm, _, _, _, rfl⟩
    exact ⟨sound_invariant.pause hs, hm, _, _, _, rfl⟩
  hold := by
    rintro a _ ⟨hs, hm, _, _, _, rfl⟩
    exact ⟨sound_invariant.hold hs, hm, _, _, _, rfl⟩
  await := by
    rintro a _ ⟨hs, hm, _, _, _, rfl⟩
    exact ⟨sound_invariant.await hs, hm, _, _, _, rfl⟩
  touch := by
    rintro a _ ⟨hs, hm, _, _, _, rfl⟩
    exact ⟨sound_invariant.touch hs, hm, _, _, _, rfl⟩

private theorem alike_tracks : Tracks Alike where
  frames := by
    rintro a _ ⟨-, -, _, _, _, rfl⟩
    rfl
  setFrames := by
    rintro a _ fs ⟨hs, hm, _, _, _, rfl⟩
    exact ⟨hs, hm, _, _, _, rfl⟩
  step := by
    rintro a _ ⟨hs, hm, _, _, _, rfl⟩
    exact ⟨hs, hm, _, _, _, rfl⟩

private theorem alike_reads : Reads Alike where
  pending := by
    rintro a _ ⟨-, -, _, _, _, rfl⟩
    rfl
  setPending := by
    rintro a _ p ⟨hs, hm, _, _, _, rfl⟩
    exact ⟨hs, hm, _, _, _, rfl⟩
  learn := by
    rintro a _ name word permanent d ⟨hs, hm, _, _, _, rfl⟩ hd
    exact ⟨sound_invariant.learn hs hd, hm, _, _, _, rfl⟩
  declare := by
    rintro a _ name address memory ⟨hs, hm, _, _, _, rfl⟩ hv
    exact ⟨sound_invariant.declare hs hv, hm, _, _, _, rfl⟩

private theorem recordToken_alike (t : Token) : Matches Alike (recordToken t) (recordToken t) := by
  refine Matches.modify ?_
  rintro a _ ⟨hs, hm, _, _, _, rfl⟩
  refine ⟨hs, ?_, _, _, _, rfl⟩
  have hline : (a.line.map fun l => { l with parsed := t.value :: l.parsed }).isSome =
      a.line.isSome := Option.isSome_map
  rw [← hm]
  unfold Machine.mode
  rw [hline]

private theorem takeToken_alike : Matches Alike takeToken takeToken :=
  takeToken_matches (nextToken_matches alike_scans)
    (interpret_matches alike_respects alike_reads alike_scans) recordToken_alike
    (pushFrame_matches alike_tracks)

private theorem sleep_alike (name : String) {a b : Machine} (h : Alike a b) :
    (∃ stop a' b', (native name (.task .sleep)).on a = (.error stop, a') ∧
      (native name (.task .sleep)).on b = (.error stop, b') ∧ Alike a' b') ∨
    (∃ a' b', (native name (.task .sleep)).on a = (.ok (), a') ∧
      (native name (.task .sleep)).on b = (.ok (), b') ∧ Asleep a' b') := by
  have hdelay := takeDelay_matches alike_respects h
  rcases ha : takeDelay.on a with ⟨stop | delay, a₁⟩ <;>
    rcases hb : takeDelay.on b with ⟨stop' | delay', b₁⟩ <;> rw [ha, hb] at hdelay
  · obtain ⟨hstop, hab⟩ := hdelay
    cases hstop
    have ha' : (code (.task .sleep)).on a = (.error stop, a₁) := by
      rw [code, sleep_eq, on_bind_error ha]
    have hb' : (code (.task .sleep)).on b = (.error stop, b₁) := by
      rw [code, sleep_eq, on_bind_error hb]
    exact .inl ⟨_, a₁, b₁, native_of_error name ha', native_of_error name hb', hab⟩
  · cases hdelay.1
  · cases hdelay.1
  · obtain ⟨hsame, hs, hm, fired, entries, events, rfl⟩ := hdelay
    cases hsame
    have hscheduler : a₁.scheduler = .immediate := congrArg Prod.fst hm
    have hsleeping : a₁.sleeping = [] := congrArg (·.2.1) hm
    have hfresh : a₁.spent.contains a₁.continuations = false := hs.1.fresh
    have ha' : (code (.task .sleep)).on a = (.ok (), { a₁.suspended with
        spent := a₁.continuations :: a₁.spent, paused := false }) := by
      rw [code, sleep_eq, on_bind_ok ha, slumber_immediate delay hscheduler, touch_of_fresh hfresh]
    have hb' := (on_bind_ok hb slumber).trans (slumber_recording delay rfl)
    rw [← sleep_eq, show task .sleep = code (.task .sleep) from rfl] at hb'
    refine .inr ⟨_, _, native_of_ok name ha', native_of_ok name hb', rfl, delay,
      a₁.continuations, ?_, hfresh, ?_⟩
    · change a₁.sleeping ++ [(delay, a₁.continuations)] = _
      rw [hsleeping]
      rfl
    · refine ⟨sound_invariant.touch hs, hm, some a₁.continuations, entries, events, ?_⟩
      have htail : (a₁.sleeping ++ [(delay, a₁.continuations)]).tail = a₁.sleeping := by
        rw [hsleeping]
        rfl
      simp only [Machine.woken, Machine.suspended, htail]

private theorem sequence_of_sleeps {f : Frame} (h : f.sleeps = true) :
    ∃ name rest, f = .sequence (.action (.native name (.task .sleep)) :: rest) := by
  unfold Frame.sleeps at h
  split at h
  · exact ⟨_, _, rfl⟩
  · cases h

private theorem turn_alike {a b : Machine} (h : Alike a b) :
    (∃ o a' b', turn.on a = (o, a') ∧ turn.on b = (o, b') ∧ Alike a' b') ∨
    (∃ a' b', turn.on a = (.ok none, a') ∧ turn.on b = (.ok none, b') ∧ Asleep a' b') := by
  have hpaused : b.paused = a.paused := by
    obtain ⟨-, -, _, _, _, rfl⟩ := h
    rfl
  have hframes : b.frames = a.frames := (alike_tracks.frames h).symm
  have hmatch {p : Run (Option Bool)} (hp : Matches Alike p p) :
      ∃ o a' b', p.on a = (o, a') ∧ p.on b = (o, b') ∧ Alike a' b' :=
    ⟨(p.on a).1, (p.on a).2, (p.on b).2, rfl, by rw [(hp h).1], (hp h).2⟩
  obtain ha | ⟨f, fs, ha⟩ | ha := ready_or_paused a
  · rw [turn_paused ha, turn_paused (hpaused.trans ha)]
    exact .inl ⟨_, a, b, rfl, rfl, h⟩
  · have hb : Ready (f :: fs) b := ⟨hpaused.trans ha.1, hframes.trans ha.2⟩
    rw [turn_frame ha, turn_frame hb]
    cases hf : f.sleeps with
    | false =>
      have hadvance := advance_matches alike_tracks alike_respects alike_pauses alike_scans (f := f)
        fun hs => by rw [hf] at hs; cases hs
      exact .inl (hmatch (hadvance.bind fun _ => Matches.pure _))
    | true =>
      obtain ⟨name, rest, rfl⟩ := sequence_of_sleeps hf
      rcases sleep_alike name (alike_tracks.start h rest) with
        ⟨stop, a', b', ha', hb', h'⟩ | ⟨a', b', ha', hb', h'⟩
      · exact .inl ⟨_, a', b', on_bind_error ha' _, on_bind_error hb' _, h'⟩
      · exact .inr ⟨a', b', on_bind_ok ha' _, on_bind_ok hb' _, h'⟩
  · have hb : Ready [] b := ⟨hpaused.trans ha.1, hframes.trans ha.2⟩
    rw [turn_token ha, turn_token hb]
    exact .inl (hmatch takeToken_alike)

private theorem ends_alike {b b' : Machine} {o : Except Failure Bool} (h : Ends b o b')
    {a : Machine} (hab : Alike a b) :
    (∃ a', Ends a o a' ∧ Alike a' b') ∨
    (o = .ok false ∧ ∃ a', Asleep a' b' ∧ ∀ o' a'', Ends a' o' a'' → Ends a o' a'') := by
  induction h generalizing a with
  | stop h =>
    rcases turn_alike hab with ⟨_, a', _, ha, hb, h'⟩ | ⟨_, _, _, hb, _⟩ <;> rw [h] at hb <;>
      cases hb
    exact .inl ⟨a', .stop ha, h'⟩
  | fail h =>
    rcases turn_alike hab with ⟨_, a', _, ha, hb, h'⟩ | ⟨_, _, _, hb, _⟩ <;> rw [h] at hb <;>
      cases hb
    exact .inl ⟨a', .fail ha, h'⟩
  | @step b b₁ b' o h hrest ih =>
    rcases turn_alike hab with ⟨_, a₁, _, ha, hb, h'⟩ | ⟨a₁, _, ha, hb, h'⟩ <;> rw [h] at hb <;>
      cases hb
    · rcases ih h' with ⟨a', ha', hab'⟩ | ⟨ho, a', hasleep, hgo⟩
      · exact .inl ⟨a', .step ha ha', hab'⟩
      · exact .inr ⟨ho, a', hasleep, fun _ _ hend => .step ha (hgo _ _ hend)⟩
    · -- The second run stops where it fell asleep.
      obtain ⟨rfl, rfl⟩ := ends_of_paused h'.1 hrest
      exact .inr ⟨rfl, a₁, h', fun _ _ hend => .step ha hend⟩

private def called (fuel : Nat) : Run Called := do
  return .returned (some (← drive fuel))

private theorem fire_of_sleeping {m : Machine} {delay : Binary64} {c : Nat}
    (hsleeping : m.sleeping = [(delay, c)]) (hfresh : m.spent.contains c = false)
    (hrunning : m.running = false) (hline : m.line.isSome = true) :
    ∃ n, (m.woken c).Logged n ∧ ∀ fuel, (fire fuel 0).on m = (called fuel).on n := by
  obtain ⟨line, hline⟩ := Option.isSome_iff_exists.mp hline
  obtain ⟨n, hn, -, h⟩ := resume_of_line (c := c)
    (m := { m with sleeping := m.sleeping.tail, fired := some c }) hfresh hrunning hline
  refine ⟨n, hn, fun fuel => ?_⟩
  have hfirst : m.sleeping[0]? = some (delay, c) := by rw [hsleeping]; rfl
  rw [fire, on_get_bind, hfirst]
  dsimp only
  rw [on_modify_bind, List.eraseIdx_zero, on_bind, h, ← on_bind, called, map_eq_pure_bind,
    bind_assoc]
  rfl

private theorem fire_of_asleep {a b : Machine} (h : Asleep a b) :
    ∃ r n n', (conclude (.ok false)).on { b with running := false } = (.ok r, n) ∧
      r.paused = true ∧ (∀ fuel, (fire fuel 0).on n = (called fuel).on n') ∧
      Alike a { n' with running := true } := by
  obtain ⟨-, delay, c, hsleeping, hfresh, hs, hm, fired, _, _, hsame⟩ := h
  have hrunning : a.running = true := congrArg (·.2.2.1) hm
  have hline : b.line.isSome = true := by
    change (b.woken c).line.isSome = true
    rw [hsame]
    exact congrArg (·.2.2.2) hm
  have hlegible : b.memory.Legible := by
    change (b.woken c).memory.Legible
    rw [hsame]
    exact hs.2.legible
  obtain ⟨map, hmap⟩ := (b.memory.map_eq_ok_iff).mpr hlegible
  obtain ⟨_, ⟨entries, events, rfl⟩, hsuspended⟩ :=
    conclude_of_map (m := { b with running := false }) hmap (.ok false)
  obtain ⟨_, ⟨entries', events', rfl⟩, hfire⟩ :=
    fire_of_sleeping hsleeping hfresh (m := { b with
      running := false
      log := { b.log with entries }
      events }) rfl hline
  refine ⟨_, _, _, hsuspended, rfl, hfire, hs, hm, fired, entries', events', ?_⟩
  change { b.woken c with
    running := true
    log := { (b.woken c).log with entries := entries' }
    events := events' } = _
  rw [hsame]
  simp only [hrunning]

private theorem result_paused (m : Machine) (map : MemoryMap) {o : Except Failure Bool}
    (ho : o ≠ .ok false) : (m.result map o).paused = false := by
  rcases o with f | _ | _
  · rfl
  · exact absurd rfl ho
  · rfl

private theorem result_alike {a b : Machine} (h : Alike a b) (map : MemoryMap)
    (o : Except Failure Bool) :
    Machine.result { b with running := false } map o =
      Machine.result { a with running := false } map o := by
  obtain ⟨-, -, _, _, _, rfl⟩ := h
  rcases o with f | _ | _ <;> rfl

private theorem concluded_alike {a b : Machine} (h : Alike a b) (map : MemoryMap)
    {o : Except Failure Bool} (ho : o ≠ .ok false) (hframes : o = .ok true → a.frames = []) :
    (Machine.concluded { a with running := false } map o).SameEnd
      (Machine.concluded { b with running := false } map o) := by
  obtain ⟨-, -, _, _, _, rfl⟩ := h
  rcases o with f | _ | _
  · exact ⟨rfl, rfl, rfl, rfl, rfl, ⟨rfl, rfl⟩, rfl⟩
  · exact absurd rfl ho
  · exact ⟨rfl, rfl, rfl, rfl, rfl, ⟨hframes rfl, hframes rfl⟩, rfl⟩

private theorem map_alike {a b : Machine} (h : Alike a b) :
    ∃ map, a.memory.map = .ok map ∧ b.memory.map = .ok map := by
  obtain ⟨map, hmap⟩ := (a.memory.map_eq_ok_iff).mpr h.sound.2.legible
  refine ⟨map, hmap, ?_⟩
  rwa [← alike_respects.memory h]

private theorem conclude_alike {a b : Machine} (h : Alike a b) {o : Except Failure Bool}
    (ho : o ≠ .ok false) (hframes : o = .ok true → a.frames = []) :
    ∃ r a' b', (conclude o).on { a with running := false } = (.ok r, a') ∧
      (conclude o).on { b with running := false } = (.ok r, b') ∧ r.paused = false ∧
      a'.SameEnd b' := by
  obtain ⟨map, hmapa, hmapb⟩ := map_alike h
  obtain ⟨a', ha', ha⟩ := conclude_of_map (m := { a with running := false }) hmapa o
  obtain ⟨b', hb', hb⟩ := conclude_of_map (m := { b with running := false }) hmapb o
  rw [result_alike h] at hb
  exact ⟨_, a', b', ha, hb, result_paused _ _ ho,
    (concluded_alike h map ho hframes).logged ha' hb'⟩

private def driveFiring (fuel rounds : Nat) : Run LineResult := do
  let r ← drive fuel
  fireAll fuel rounds r

private theorem fireAll_of_fire {fuel rounds : Nat} {r : LineResult} {m n : Machine}
    (hr : r.paused = true) (h : (fire fuel 0).on m = (called fuel).on n) :
    (fireAll fuel (rounds + 1) r).on m = (driveFiring fuel rounds).on n := by
  rw [fireAll, if_pos hr, on_bind, h, ← on_bind, called, bind_assoc]
  rfl

private theorem fireAll_of_finished (fuel rounds : Nat) {r : LineResult} (hr : r.paused = false)
    (m : Machine) : (fireAll fuel (rounds + 1) r).on m = (.ok r, m) := by
  rw [fireAll, if_neg (by rw [hr]; exact Bool.false_ne_true)]
  rfl

private theorem fireAll_of_nothing (fuel rounds : Nat) {r : LineResult} {m : Machine}
    (hr : r.paused = true) (hm : m.sleeping = []) :
    (fireAll fuel (rounds + 1) r).on m = (.ok r, m) := by
  have habsent : (fire fuel 0).on m = (.ok .absent, m) := by
    rw [fire, on_get_bind, hm]
    rfl
  rw [fireAll, if_pos hr, on_bind_ok habsent]
  rfl

private theorem conclude_finished {a b : Machine} (h : Alike a b) {o : Except Failure Bool}
    (ho : o ≠ .ok false) :
    ∃ r n, (conclude o).on { b with running := false } = (.ok r, n) ∧ r.paused = false := by
  obtain ⟨map, -, hmap⟩ := map_alike h
  obtain ⟨n, -, hn⟩ := conclude_of_map (m := { b with running := false }) hmap o
  exact ⟨_, n, hn, result_paused _ _ ho⟩

private theorem driveFiring_last {a b n : Machine} {o : Except Failure Bool}
    (h : Ends { n with running := true } o b) (hab : Alike a b) (ho : o ≠ .ok false) :
    ∃ k, ∀ fuel rounds, k ≤ fuel → k ≤ rounds →
      (driveFiring fuel rounds).on n = (conclude o).on { b with running := false } := by
  obtain ⟨k, hk⟩ := drive_of_ends h
  obtain ⟨r, n', hconclude, hr⟩ := conclude_finished hab ho
  refine ⟨k + 1, fun fuel rounds hfuel hrounds => ?_⟩
  obtain ⟨rounds, rfl⟩ := Nat.exists_eq_add_of_le' (Nat.le_trans (Nat.le_add_left 1 k) hrounds)
  have hdrive := (hk fuel (by omega)).trans hconclude
  rw [driveFiring, on_bind_ok hdrive, fireAll_of_finished fuel rounds hr, hconclude]

private theorem driveFiring_of_ends {a a' : Machine} {o : Except Failure Bool} (h : Ends a o a')
    (ho : o ≠ .ok false) {b n : Machine} (hab : Alike a b)
    (hb : ∀ o' b', Ends b o' b' → Ends { n with running := true } o' b') :
    ∃ k b', Alike a' b' ∧ ∀ fuel rounds, k ≤ fuel → k ≤ rounds →
      (driveFiring fuel rounds).on n = (conclude o).on { b' with running := false } := by
  induction h generalizing b n with
  | stop h =>
    rcases turn_alike hab with ⟨_, _, b', ha, hturn, h'⟩ | ⟨_, _, ha, _, _⟩ <;> rw [h] at ha <;>
      cases ha
    obtain ⟨k, hk⟩ := driveFiring_last (hb _ _ (.stop hturn)) h' ho
    exact ⟨k, b', h', hk⟩
  | fail h =>
    rcases turn_alike hab with ⟨_, _, b', ha, hturn, h'⟩ | ⟨_, _, ha, _, _⟩ <;> rw [h] at ha <;>
      cases ha
    obtain ⟨k, hk⟩ := driveFiring_last (hb _ _ (.fail hturn)) h' ho
    exact ⟨k, b', h', hk⟩
  | step h _ ih =>
    rcases turn_alike hab with ⟨_, _, b₁, ha, hturn, h'⟩ | ⟨_, b₁, ha, hturn, h'⟩ <;>
      rw [h] at ha <;> cases ha
    · exact ih ho h' fun _ _ hend => hb _ _ (.step hturn hend)
    · -- Fired, the second run goes on from a machine that is like that of the first.
      have hasleep := hb _ _ (.step hturn (.stop (turn_paused h'.1)))
      obtain ⟨k₁, hdrive⟩ := drive_of_ends hasleep
      obtain ⟨r, n₁, n₂, hconclude, hr, hfire, hwoken⟩ := fire_of_asleep h'
      obtain ⟨k₂, b', hb', hrest⟩ := ih ho hwoken fun _ _ hend => hend
      refine ⟨k₁ + k₂ + 1, b', hb', fun fuel rounds hfuel hrounds => ?_⟩
      obtain ⟨rounds, rfl⟩ :=
        Nat.exists_eq_add_of_le' (Nat.le_trans (Nat.le_add_left 1 (k₁ + k₂)) hrounds)
      have hfirst := (hdrive fuel (by omega)).trans hconclude
      rw [driveFiring, on_bind_ok hfirst, fireAll_of_fire hr (hfire fuel)]
      exact hrest fuel rounds (by omega) (by omega)

private theorem ends_of_driveFiring {fuel rounds : Nat} {a n n' : Machine} {r : LineResult}
    (hab : Alike a { n with running := true })
    (h : (driveFiring fuel rounds).on n = (.ok r, n')) (hr : r.paused = false) :
    ∃ o a' b', Ends a o a' ∧ Alike a' b' ∧ o ≠ .ok false ∧
      (conclude o).on { b' with running := false } = (.ok r, n') := by
  induction rounds generalizing a n with
  | zero =>
    obtain ⟨r₁, n₁, -, h⟩ := on_bind_eq_ok h
    cases h
  | succ rounds ih =>
    obtain ⟨r₁, n₁, hd, h⟩ := on_bind_eq_ok h
    obtain ⟨o, b, hline, hconclude⟩ := drive_cases (m := n) (by rw [hd]; exact nofun)
    rw [hd] at hconclude
    have hends := (continueLine_iff_ends _ _ _).mp ⟨fuel, hline⟩
    rcases ends_alike hends hab with ⟨a', ha', hab'⟩ | ⟨rfl, a', hasleep, hgo⟩
    · by_cases ho : o = .ok false
      · -- The line waits for something that firing does not provide.
        subst ho
        obtain ⟨map, -, hmap⟩ := map_alike hab'
        obtain ⟨n₁', hn₁', hsuspended⟩ :=
          conclude_of_map (m := { b with running := false }) hmap (.ok false)
        rw [← hconclude] at hsuspended
        cases hsuspended
        have hsleeping : n₁.sleeping = [] := by
          obtain ⟨-, hm, _, _, _, rfl⟩ := hab'
          obtain ⟨_, _, rfl⟩ := hn₁'
          exact congrArg (·.2.1) hm
        rw [fireAll_of_nothing fuel rounds rfl hsleeping] at h
        cases h
        cases hr
      · obtain ⟨r', n'', hfinished, hr'⟩ := conclude_finished hab' ho
        rw [← hconclude] at hfinished
        cases hfinished
        rw [fireAll_of_finished fuel rounds hr'] at h
        cases h
        exact ⟨o, a', b, ha', hab', ho, hconclude.symm⟩
    · obtain ⟨r', n₁', n₂, hsuspended, hr', hfire, hwoken⟩ := fire_of_asleep hasleep
      rw [← hconclude] at hsuspended
      cases hsuspended
      rw [fireAll_of_fire hr' (hfire fuel)] at h
      obtain ⟨o, a'', b', hend, hab'', ho, hresult⟩ := ih hwoken h
      exact ⟨o, a'', b', hgo _ _ hend, hab'', ho, hresult⟩

private theorem paused_of_suspended {m m' : Machine} {r : LineResult}
    (h : (conclude (.ok false)).on m = (.ok r, m')) : r.paused = true := by
  cases hmap : m.memory.map with
  | ok map =>
    obtain ⟨n, -, hn⟩ := conclude_of_map hmap (.ok false)
    rw [h] at hn
    cases hn
    rfl
  | error c =>
    obtain ⟨n, -, hn⟩ := conclude_of_error hmap (.ok false)
    rw [h] at hn
    cases hn

private theorem alike_begun {m a b : Machine} (hs : m.Sound) (text : String)
    (ha : ((m.scheduled .immediate).begun text).Logged a)
    (hb : ((m.scheduled .recording).begun text).Logged b) :
    Alike { a with running := true } { b with running := true } := by
  obtain ⟨_, _, rfl⟩ := ha
  obtain ⟨_, _, rfl⟩ := hb
  refine ⟨⟨{ hs.1 with sleeping := nofun }, hs.2⟩, rfl, _, _, _, rfl⟩

private theorem frames_of_ends {m m' : Machine} {o : Except Failure Bool} (h : Ends m o m') :
    o = .ok true → m'.frames = [] := by
  rintro rfl
  have hready : Ready [] m' := h.stopped
  exact hready.2

/-- Suspension is transparent. A line is finished with a scheduler that resumes sleeping lines at
once exactly if it is with one that records them and whose continuation is fired whenever the line
comes back suspended, and both give the same result and leave the same session. A line that waits
for a key is finished by neither. -/
theorem sleep_is_transparent {m : Machine} (hm : Session.Reached m) (hidle : m.Idle)
    (text : String) :
    (∀ fuel r a, (readLine fuel text).on (m.scheduled .immediate) = (.ok r, a) →
      r.paused = false →
      ∃ fuel b, (readFiring fuel text).on (m.scheduled .recording) = (.ok r, b) ∧ a.SameEnd b) ∧
    (∀ fuel r b, (readFiring fuel text).on (m.scheduled .recording) = (.ok r, b) →
      r.paused = false →
      ∃ fuel a, (readLine fuel text).on (m.scheduled .immediate) = (.ok r, a) ∧ a.SameEnd b) := by
  have hidle' (scheduler : Scheduler) : (m.scheduled scheduler).Idle :=
    ⟨hidle.line, hidle.paused, hidle.running, hidle.frames⟩
  obtain ⟨na, hna, -, hreada⟩ := readLine_of_free (hidle' .immediate).free text
  obtain ⟨nb, hnb, -, hreadb⟩ := readLine_of_free (hidle' .recording).free text
  have halike := alike_begun hm.sound text hna hnb
  have hfiring (fuel : Nat) : (readFiring fuel text).on (m.scheduled .recording) =
      (driveFiring fuel fuel).on nb := by
    rw [readFiring, on_bind, hreadb, ← on_bind, driveFiring]
  constructor
  · intro fuel r a h hr
    rw [hreada] at h
    obtain ⟨o, a', hline, hconclude⟩ := drive_cases (m := na) (by rw [h]; exact nofun)
    rw [hconclude] at h
    have hends := (continueLine_iff_ends _ _ _).mp ⟨fuel, hline⟩
    have ho : o ≠ .ok false := by
      rintro rfl
      rw [paused_of_suspended h] at hr
      cases hr
    obtain ⟨k, b', hab, hk⟩ := driveFiring_of_ends hends ho halike fun _ _ hend => hend
    obtain ⟨r', a'', b'', ha, hb, -, hsame⟩ := conclude_alike hab ho (frames_of_ends hends)
    rw [h] at ha
    cases ha
    exact ⟨k, b'', by rw [hfiring, hk k k (Nat.le_refl k) (Nat.le_refl k), hb], hsame⟩
  · intro fuel r b h hr
    rw [hfiring] at h
    obtain ⟨o, a', b', hends, hab, ho, hconclude⟩ := ends_of_driveFiring halike h hr
    obtain ⟨k, hk⟩ := drive_of_ends hends
    obtain ⟨r', a'', b'', ha, hb, -, hsame⟩ := conclude_alike hab ho (frames_of_ends hends)
    rw [hconclude] at hb
    cases hb
    exact ⟨k, a'', by rw [hreada, hk k (Nat.le_refl k), ha], hsame⟩

/-- Sleeps in a loop inside a conditional, and then fails. -/
private def nappingLine : String := ": f 1 if 2 0 do i 5 sleep loop then ; f drop drop drop"

private theorem nappingLine_fails :
    ∃ r a, (readLine 200 nappingLine).on (Session.builtin.scheduled .immediate) = (.ok r, a) ∧
      r.paused = false ∧ r.failure.isSome = true := by
  let o := (readLine 200 nappingLine).on (Session.builtin.scheduled .immediate)
  have hfails : o.1.toOption.any (fun r => !r.paused && r.failure.isSome) = true := by
    decide +kernel
  obtain ⟨r, hr, h⟩ := result_of_any hfails
  rw [Bool.and_eq_true, Bool.not_eq_true'] at hr
  exact ⟨r, o.2, h, hr.1, hr.2⟩

/-- A line that sleeps in a loop and then fails does so after being fired, too. -/
theorem nappingLine_is_transparent :
    Session.Reached Session.builtin ∧ Session.builtin.Idle ∧
    ∃ r fuel b,
      (readFiring fuel nappingLine).on (Session.builtin.scheduled .recording) = (.ok r, b) ∧
      r.paused = false ∧ r.failure.isSome = true := by
  obtain ⟨r, a, h, hr, hfailure⟩ := nappingLine_fails
  obtain ⟨fuel, b, hb, -⟩ := (sleep_is_transparent Session.builtin_reached Session.builtin_idle
    nappingLine).1 200 r a h hr
  exact ⟨Session.builtin_reached, Session.builtin_idle, r, fuel, b, hb, hr, hfailure⟩

end Run

end Forthline
