import Forthline.Proofs.Frames

/-!
# Evaluation of structures

The meaning of a list of nodes by recursion over structures and calls, without frames: loops are
loops, and a call evaluates the body of the definition. The machine with its frames agrees with
it, whether the evaluation ends, fails or goes on forever.
-/

namespace Forthline

mutual

def Word.pauses : Word → Bool
  | .native _ c => c.pauses
  | .definition _ body _ => pausesAny body
  | .control _ | .stray _ => false

def Node.pauses : Node → Bool
  | .action w => w.pauses
  | .conditional consequent alternative => pausesAny consequent || pausesAny alternative
  | .counted body _ | .indefinite body => pausesAny body

def pausesAny : List Node → Bool
  | [] => false
  | n :: ns => n.pauses || pausesAny ns

end

namespace Run

def countedLoop (body : Run Unit) (stepped : Bool) (limit : Value) (forwards : Bool) :
    Nat → Value → Run Unit
  | 0, _ => throw .exhausted
  | fuel + 1, index => do
    let more ← lift (goesOn index limit forwards)
    if more then
      pushReturn index
      body
      let index ← nextIndex stepped index
      countedLoop body stepped limit forwards fuel index
    else pure ()

def untilLoop (body : Run Unit) : Nat → Run Unit
  | 0 => throw .exhausted
  | fuel + 1 => do
    body
    let flag ← pop
    if flag.same (.int (-1)) then pure () else untilLoop body fuel

/-- What a list of nodes means. The fuel bounds the depth of calls and structures and the rounds of
each loop. -/
def evaluate : Nat → List Node → Run Unit
  | 0, _ => throw .exhausted
  | _ + 1, [] => pure ()
  | fuel + 1, n :: rest => do
    modify fun m => { m with steps := m.steps + 1 }
    match n with
    | .action (.native name c) => native name c
    | .action (.definition _ body _) => evaluate fuel body
    | .action (.control c) => fail (.unknownControl c.code)
    | .action (.stray shown) => fail (.invalidAction shown)
    | .conditional consequent alternative => do
      let v ← pop
      evaluate fuel (if v.same (.int 0) then alternative else consequent)
    | .counted body stepped => do
      let start ← pop
      let limit ← pop
      let forwards ← lift (limit.greater start)
      countedLoop (evaluate fuel body) stepped limit forwards fuel start
    | .indefinite body => untilLoop (evaluate fuel body) fuel
    evaluate fuel rest

variable {base : List Frame}

private def runAfter (q : Run Unit) (fuel : Nat) : Run Bool := do
  q
  run fuel

private theorem runAfter_add {q : Run Unit} {fuel : Nat} {m : Machine}
    (h : ((runAfter q fuel).on m).1 ≠ .error .exhausted) (extra : Nat) :
    (runAfter q (fuel + extra)).on m = (runAfter q fuel).on m :=
  on_bind_congr h fun _ _ _ hrun => run_add hrun extra

/-- The run that starts with the rest of a turn does what an evaluation says: it comes to the given
frames with the same machine, it fails in the same way, or it takes as many turns as the
evaluation had fuel. -/
private def Agrees (base : List Frame) (k : Nat) (q : Run Unit) (m : Machine)
    (frames : List Frame) : Except Stop Unit × Machine → Prop
  | (.ok _, m') => Ready base m' ∧
      ∃ t, ∀ fuel, (runAfter q (t + fuel)).on m = (run fuel).on { m' with frames }
  | (.error (.failed f), m') =>
      ∃ t rest, ∀ fuel, (runAfter q (t + fuel)).on m =
        (.error (.failed f), { m' with frames := rest })
  | (.error .exhausted, _) => ∀ j < k, ((runAfter q j).on m).1 = .error .exhausted

private theorem Agrees.mono {k l : Nat} {q : Run Unit} {m : Machine} {frames : List Frame}
    {o : Except Stop Unit × Machine} (h : Agrees base k q m frames o) (hl : l ≤ k) :
    Agrees base l q m frames o := by
  rcases o with ⟨(_ | _) | _, m'⟩
  · exact h
  · exact fun j hj => h j (Nat.lt_of_lt_of_le hj hl)
  · exact h

private theorem Agrees.congr {k : Nat} {q q' : Run Unit} {n n' : Machine} {frames : List Frame}
    {o : Except Stop Unit × Machine} (h : Agrees base k q' n' frames o)
    (hq : ∀ fuel, (runAfter q fuel).on n = (runAfter q' fuel).on n') :
    Agrees base k q n frames o := by
  unfold Agrees at h ⊢
  simp only [hq]
  exact h

private theorem Agrees.turn {k : Nat} {f : Frame} {m : Machine} {rest frames : List Frame}
    {o : Except Stop Unit × Machine} (hm : Ready base m)
    (h : Agrees base k (advance f) { m with frames := f :: rest } frames o) :
    Agrees base (k + 1) (pure ()) { m with frames := f :: rest } frames o := by
  have hturn (fuel : Nat) : (runAfter (pure ()) (fuel + 1)).on { m with frames := f :: rest } =
      (runAfter (advance f) fuel).on { m with frames := f :: rest } := by
    unfold runAfter
    rw [pure_bind, run, on_get_bind]
    simp only [hm.1, Bool.false_eq_true, if_false]
  rcases o with ⟨(f | _) | _, m'⟩
  · obtain ⟨t, gs, h⟩ := h
    refine ⟨t + 1, gs, fun fuel => ?_⟩
    rw [Nat.add_right_comm, hturn]
    exact h fuel
  · intro j hj
    cases j with
    | zero => rfl
    | succ j =>
      rw [hturn]
      exact h j (Nat.lt_of_succ_lt_succ hj)
  · obtain ⟨hm', t, h⟩ := h
    refine ⟨hm', t + 1, fun fuel => ?_⟩
    rw [Nat.add_right_comm, hturn]
    exact h fuel

private theorem Agrees.bind {k : Nat} {q p e : Run Unit} {m n : Machine}
    {frames outer : List Frame} (h : Agrees base k q n frames (p.on m))
    (hrest : ∀ ⦃m'⦄, Ready base m' →
      Agrees base k (pure ()) { m' with frames } outer (e.on m')) :
    Agrees base k q n outer ((do p; e : Run Unit).on m) := by
  rw [on_bind]
  rcases hp : p.on m with ⟨(f | _) | _, m'⟩ <;> rw [hp] at h
  · exact h
  · exact h
  · obtain ⟨hm', t, h⟩ := h
    have hrest := hrest hm'
    dsimp only
    rcases he : e.on m' with ⟨(f | _) | _, m''⟩ <;> rw [he] at hrest
    · obtain ⟨t', gs, hrest⟩ := hrest
      refine ⟨t + t', gs, fun fuel => ?_⟩
      rw [Nat.add_assoc, h]
      exact hrest fuel
    · intro j hj
      -- Were the run over after `j` turns, it would also be over after `t` more.
      refine Classical.byContradiction fun hover => ?_
      have hlonger := runAfter_add hover t
      rw [Nat.add_comm, h] at hlonger
      rw [← hlonger] at hover
      exact hover (hrest j hj)
    · obtain ⟨hm'', t', hrest⟩ := hrest
      refine ⟨hm'', t + t', fun fuel => ?_⟩
      rw [Nat.add_assoc, h]
      exact hrest fuel

private theorem Agrees.after {α : Type} {k : Nat} {p : Run α} {q e : α → Run Unit} {m : Machine}
    {frames outer : List Frame} (hp : Matches (Aside base frames) p p) (hm : Ready base m)
    (hrest : ∀ a ⦃m'⦄, Ready base m' →
      Agrees base k (q a) { m' with frames } outer ((e a).on m')) :
    Agrees base k (p >>= q) { m with frames } outer ((p >>= e).on m) := by
  have hmatch := hp ⟨hm, rfl⟩
  rcases hpm : p.on m with ⟨s | a, m'⟩ <;>
    rcases hpn : p.on { m with frames } with ⟨s' | a', n'⟩ <;> rw [hpm, hpn] at hmatch
  · obtain ⟨hs, -, rfl⟩ := hmatch
    cases hs
    have hq (fuel : Nat) : (runAfter (p >>= q) fuel).on { m with frames } =
        (.error s, { m' with frames }) := by
      rw [runAfter, bind_assoc, on_bind_error hpn]
    rw [on_bind_error hpm]
    cases s with
    | failed f => exact ⟨0, frames, fun fuel => hq _⟩
    | exhausted => exact fun j _ => congrArg Prod.fst (hq j)
  · cases hmatch.1
  · cases hmatch.1
  · obtain ⟨ha, hm', rfl⟩ := hmatch
    cases ha
    rw [on_bind_ok hpm]
    refine (hrest a hm').congr fun fuel => ?_
    rw [runAfter, bind_assoc, on_bind_ok hpn, runAfter]

private theorem Agrees.done {k : Nat} {m : Machine} {frames : List Frame}
    (hm : Ready base m) :
    Agrees base k (pure ()) { m with frames } frames ((pure () : Run Unit).on m) := by
  refine ⟨hm, 0, fun fuel => ?_⟩
  rw [Nat.zero_add]
  rfl

private theorem Agrees.only {k : Nat} {p : Run Unit} {m : Machine} {frames : List Frame}
    (hp : Matches (Aside base frames) p p) (hm : Ready base m) :
    Agrees base k p { m with frames } frames (p.on m) := by
  have h : Agrees base k (p >>= pure) { m with frames } frames ((p >>= pure).on m) :=
    Agrees.after hp hm fun _ _ hm' => Agrees.done hm'
  rwa [bind_pure] at h

section Loops

variable {k : Nat} {body : List Node} {p : Run Unit}
  (hbody : ∀ ⦃m⦄ frames, Ready base m →
    Agrees base (k + 1) (pure ()) { m with frames := .sequence body :: frames } frames (p.on m))

include hbody

private theorem countedLoop_agrees (stepped : Bool) (limit : Value) (forwards : Bool) {j : Nat}
    (hj : j ≤ k) (index : Value) {m : Machine} (hm : Ready base m) (f : Frame)
    (frames : List Frame) :
    Agrees base j (visit body stepped index limit forwards) { m with frames := f :: frames } frames
      ((countedLoop p stepped limit forwards j index).on m) := by
  induction j generalizing index m f with
  | zero => exact fun j hj => absurd hj (Nat.not_lt_zero j)
  | succ j ih =>
    have hR := aside_respects base
    refine Agrees.after (Matches.lift _) hm fun more m hm => ?_
    cases more with
    | false => exact (Agrees.done hm).congr fun fuel => rfl
    | true =>
      refine Agrees.after (pushReturn_matches (hR _).minds index) hm fun _ m hm => ?_
      let looping := Frame.counted body stepped index limit forwards true
      have hround : Agrees base (j + 1) (do setFrame looping; pushFrame (.sequence body))
          { m with frames := f :: frames } (looping :: frames) (p.on m) :=
        ((hbody (looping :: frames) hm).mono (Nat.le_succ_of_le hj)).congr fun fuel => rfl
      refine hround.bind fun m hm => Agrees.turn hm ?_
      change Agrees base j (iterate body stepped index limit forwards true) _ _ _
      rw [iterate_next]
      refine Agrees.after (nextIndex_matches (hR _).minds stepped index) hm fun index m hm => ?_
      exact (ih (Nat.le_of_succ_le hj) index hm _).congr fun fuel => rfl

private theorem untilLoop_agrees {j : Nat} (hj : j ≤ k) {m : Machine} (hm : Ready base m)
    (f : Frame) (frames : List Frame) :
    Agrees base j (repeatBody body false) { m with frames := f :: frames } frames
      ((untilLoop p j).on m) := by
  induction j generalizing m f with
  | zero => exact fun j hj => absurd hj (Nat.not_lt_zero j)
  | succ j ih =>
    let looping := Frame.indefinite body true
    have hround : Agrees base (j + 1) (repeatBody body false) { m with frames := f :: frames }
        (looping :: frames) (p.on m) :=
      ((hbody (looping :: frames) hm).mono (Nat.le_succ_of_le hj)).congr fun fuel => rfl
    refine hround.bind fun m hm => Agrees.turn hm ?_
    refine Agrees.after (pop_matches (aside_respects base _).minds) hm fun flag m hm => ?_
    cases flag.same (.int (-1)) with
    | true => exact (Agrees.done hm).congr fun fuel => rfl
    | false => exact ih (Nat.le_of_succ_le hj) hm _

end Loops

private theorem evaluate_agrees (k : Nat) {ns : List Node} (hns : pausesAny ns = false)
    {m : Machine} (hm : Ready base m) (frames : List Frame) :
    Agrees base (k + 1) (pure ()) { m with frames := .sequence ns :: frames } frames
      ((evaluate k ns).on m) := by
  induction k generalizing ns m frames with
  | zero =>
    intro j hj
    rw [Nat.lt_one_iff.mp hj]
    rfl
  | succ k ih =>
    refine Agrees.turn hm ?_
    cases ns with
    | nil => exact (Agrees.done hm).congr fun fuel => rfl
    | cons n rest =>
      obtain ⟨hn, hrest⟩ := Bool.or_eq_false_iff.mp hns
      let inner := Frame.sequence rest :: frames
      have hR := aside_respects base inner
      have hafter ⦃m : Machine⦄ (hm : Ready base m) :
          Agrees base (k + 1) (pure ()) { m with frames := inner } frames
            ((evaluate k rest).on m) :=
        ih hrest hm frames
      have hcount : Matches (Aside base inner)
          (modify fun m => { m with steps := m.steps + 1 } : Run _)
          (modify fun m => { m with steps := m.steps + 1 }) := by
        refine Matches.modify ?_
        rintro m _ ⟨hm, rfl⟩
        exact ⟨hm, rfl⟩
      suffices hnode : Agrees base (k + 1) (node n) { m with frames := inner } frames
          ((evaluate (k + 1) (n :: rest)).on m) from hnode.congr fun fuel => rfl
      refine Agrees.after hcount hm fun _ m hm => ?_
      cases n with
      | action w =>
        cases w with
        | native name c =>
          have hword := Agrees.only (k := k + 1)
            (steady_matches hR (aside_scans base inner) name hn) hm
          exact (hword.bind hafter).congr fun fuel => rfl
        | control c => exact (Agrees.only (k := k + 1) (Matches.fail _) hm).bind hafter
        | definition name body permanent =>
          exact ((ih hn hm inner).bind hafter).congr fun fuel => rfl
        | stray shown => exact (Agrees.only (k := k + 1) (Matches.fail _) hm).bind hafter
      | conditional consequent alternative =>
        have hbranches := Bool.or_eq_false_iff.mp hn
        refine Agrees.after (pop_matches hR) hm fun v m hm => ?_
        have hbranch : pausesAny (if v.same (.int 0) then alternative else consequent) = false := by
          split
          · exact hbranches.2
          · exact hbranches.1
        exact ((ih hbranch hm inner).bind hafter).congr fun fuel => rfl
      | counted body stepped =>
        refine Agrees.after (pop_matches hR) hm fun start m hm => ?_
        refine Agrees.after (pop_matches hR) hm fun limit m hm => ?_
        refine Agrees.after (Matches.lift _) hm fun forwards m hm => ?_
        let looping := Frame.counted body stepped start limit forwards false
        have hloop : Agrees base (k + 1) (pure ()) { m with frames := looping :: inner } inner
            ((countedLoop (evaluate k body) stepped limit forwards k start).on m) := by
          refine Agrees.turn hm ?_
          change Agrees base k (iterate body stepped start limit forwards false) _ _ _
          rw [iterate_first]
          exact countedLoop_agrees (fun _ outer hm => ih hn hm outer) stepped limit forwards
            (Nat.le_refl k) start hm looping inner
        exact (hloop.bind hafter).congr fun fuel => rfl
      | indefinite body =>
        let looping := Frame.indefinite body false
        have hloop : Agrees base (k + 1) (pure ()) { m with frames := looping :: inner } inner
            ((untilLoop (evaluate k body) k).on m) := by
          refine Agrees.turn hm ?_
          exact untilLoop_agrees (fun _ outer hm => ih hn hm outer) (Nat.le_refl k) hm looping inner
        exact (hloop.bind hafter).congr fun fuel => rfl

/-- Running a word on top of any frames agrees with evaluating it. An evaluation that ends leaves
the machine from which the run goes on with those frames; one that fails fails the run in the
same way; and if the evaluation goes on forever, so does the run. -/
theorem execute_agrees_with_evaluate (w : Word) (hw : w.pauses = false) (m : Machine)
    (hm : m.paused = false) :
    (∀ k m', (evaluate k [.action w]).on m = (.ok (), m') →
      m'.frames = m.frames ∧ ∃ t, ∀ fuel, (execute (t + fuel) w).on m = (run fuel).on m') ∧
    (∀ k f m', (evaluate k [.action w]).on m = (.error (.failed f), m') →
      ∃ t frames, ∀ fuel,
        (execute (t + fuel) w).on m = (.error (.failed f), { m' with frames })) ∧
    ((∀ k, ((evaluate k [.action w]).on m).1 = .error .exhausted) →
      ∀ fuel, ((execute fuel w).on m).1 = .error .exhausted) := by
  have hns : pausesAny [.action w] = false := by rw [pausesAny, pausesAny, Node.pauses, hw]; rfl
  have hready : Ready m.frames m := ⟨hm, rfl⟩
  have hall (k : Nat) := evaluate_agrees k hns hready m.frames
  refine ⟨fun k m' h => ?_, fun k f m' h => ?_, fun h fuel => ?_⟩
  · have hk := hall k
    rw [h] at hk
    obtain ⟨hm', t, hk⟩ := hk
    refine ⟨hm'.2, t, fun fuel => ?_⟩
    have hsame : { m' with frames := m.frames } = m' := by rw [← hm'.2]
    rw [← hsame]
    exact hk fuel
  · have hk := hall k
    rw [h] at hk
    exact hk
  · have hk := hall fuel
    rcases ho : (evaluate fuel [.action w]).on m with ⟨o, m'⟩
    obtain rfl : o = .error .exhausted := by
      have := h fuel
      rwa [ho] at this
    rw [ho] at hk
    exact hk fuel (Nat.lt_succ_self fuel)

private def indices : Word :=
  .definition "indices"
    [.action (.pusher "2" (.int 2)), .action (.pusher "0" (.int 0)),
      .counted [.action (.native "i" (.task (.copyReturn 1)))] false,
      .conditional [.action (.pusher "1" (.int 1))] []]
    false

theorem execute_indices_agrees :
    indices.pauses = false ∧
    ∃ t, ∀ fuel, (execute (t + fuel) indices).on { frames := [.sequence []] } =
      (run fuel).on
        { frames := [.sequence []], steps := 8,
          stack := { name := "Stack", items := [.int 1, .int 0] } } :=
  ⟨rfl, ((execute_agrees_with_evaluate indices rfl _ rfl).1 8 _ rfl).2⟩

end Run

end Forthline
