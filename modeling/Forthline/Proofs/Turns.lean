import Forthline.Proofs.Reading

/-!
# Turns of a line

A line goes on in turns: of the innermost frame while there is one, else of the next token. Going on
with a line, in which the tokens and the frames of each word are two nested loops, comes to the
same end as taking turn after turn. Two lines whose turns go alike go alike with the same fuel.
-/

namespace Forthline

namespace Run

def takeToken : Run (Option Bool) := do
  match ← nextToken with
  | none => return some true
  | some t =>
    match ← interpret t with
    | none => return none
    | some w =>
      recordToken t
      pushFrame (.sequence [.action w])
      return none

section TakeToken

variable {R : Machine → Machine → Prop} (hnext : Matches R nextToken nextToken)
  (hinterpret : ∀ t, Matches R (interpret t) (interpret t))
  (hrecord : ∀ t, Matches R (recordToken t) (recordToken t))

include hnext hinterpret hrecord

theorem takeToken_within {ok : Word → Prop}
    (hok : ∀ ⦃t m n m' w⦄, R m n → (interpret t).on m = (.ok (some w), m') → ok w)
    (hpush : ∀ w, ok w →
      Matches R (pushFrame (.sequence [.action w])) (pushFrame (.sequence [.action w]))) :
    Matches R takeToken takeToken := by
  refine hnext.bind fun t => ?_
  cases t with
  | none => exact Matches.pure _
  | some t =>
    refine Matches.bind_of (hinterpret t) (Q := fun w => ∀ v ∈ w, ok v) ?_ fun w hw => ?_
    · intro m n m' w h hw v hv
      cases hv
      exact hok h hw
    · cases w with
      | none => exact Matches.pure _
      | some w => exact (hrecord t).bind fun _ => (hpush w (hw w rfl)).bind fun _ => Matches.pure _

theorem takeToken_matches (hpush : ∀ f, Matches R (pushFrame f) (pushFrame f)) :
    Matches R takeToken takeToken :=
  takeToken_within hnext hinterpret hrecord (fun _ _ _ _ _ _ _ => trivial) fun _ _ => hpush _

end TakeToken

/-- One turn of a line. Tells whether the line is at its end, or suspended, if it does not go on. -/
def turn : Run (Option Bool) := do
  let m ← get
  if m.paused then return some false
  else
    match m.frames with
    | f :: _ => do
      advance f
      return none
    | [] => takeToken

/-- Turn after turn, the line comes to an end, is suspended or fails. -/
inductive Ends : Machine → Except Failure Bool → Machine → Prop where
  | stop {m m' : Machine} {done : Bool} : turn.on m = (.ok (some done), m') → Ends m (.ok done) m'
  | fail {m m' : Machine} {f : Failure} : turn.on m = (.error (.failed f), m') →
      Ends m (.error f) m'
  | step {m m₁ m' : Machine} {o : Except Failure Bool} : turn.on m = (.ok none, m₁) →
      Ends m₁ o m' → Ends m o m'

theorem turn_paused {m : Machine} (h : m.paused = true) : turn.on m = (.ok (some false), m) := by
  rw [turn, on_get_bind, if_pos h]
  rfl

theorem turn_frame {m : Machine} {f : Frame} {fs : List Frame} (h : Ready (f :: fs) m) :
    turn.on m = (do advance f; return none : Run (Option Bool)).on m := by
  rw [turn, on_get_bind, if_neg (by rw [h.1]; exact Bool.false_ne_true), h.2]

theorem turn_token {m : Machine} (h : Ready [] m) : turn.on m = takeToken.on m := by
  rw [turn, on_get_bind, if_neg (by rw [h.1]; exact Bool.false_ne_true), h.2]

theorem ready_or_paused (m : Machine) :
    m.paused = true ∨ (∃ f fs, Ready (f :: fs) m) ∨ Ready [] m := by
  cases hp : m.paused with
  | true => exact .inl rfl
  | false =>
    cases hf : m.frames with
    | nil => exact .inr (.inr ⟨hp, hf⟩)
    | cons f fs => exact .inr (.inl ⟨f, fs, hp, hf⟩)

private def proceed (k l : Nat) : Run Bool := do
  if ← run k then readTokens l else return false

theorem run_paused (k : Nat) {m : Machine} (h : m.paused = true) :
    (run (k + 1)).on m = (.ok false, m) := by
  rw [run, on_get_bind]
  cases m.frames with
  | nil =>
    rw [h]
    rfl
  | cons f fs =>
    dsimp only
    rw [if_pos h]
    rfl

theorem run_frame (k : Nat) {m : Machine} {f : Frame} {fs : List Frame}
    (h : Ready (f :: fs) m) : (run (k + 1)).on m = (do advance f; run k : Run Bool).on m := by
  rw [run, on_get_bind, h.2]
  dsimp only
  rw [if_neg (by rw [h.1]; exact Bool.false_ne_true)]

theorem run_ready (k : Nat) {m : Machine} (h : Ready [] m) :
    (run (k + 1)).on m = (.ok true, m) := by
  rw [run, on_get_bind, h.2, h.1]
  rfl

private theorem aside_reads : Reads (Aside [] []) where
  pending := by
    rintro m _ ⟨-, rfl⟩
    rfl
  setPending := by
    rintro m _ p ⟨hm, rfl⟩
    exact ⟨hm, rfl⟩
  learn := by
    rintro m _ name word permanent d ⟨hm, rfl⟩ -
    exact ⟨hm, rfl⟩
  declare := by
    rintro m _ name a memory ⟨hm, rfl⟩ -
    exact ⟨hm, rfl⟩

private theorem ready_of_matches {α : Type} {p : Run α} (hp : Matches (Aside [] []) p p)
    {m : Machine} (hm : Ready [] m) : Ready [] (p.on m).2 := by
  have haside : Aside [] [] m m := ⟨hm, by rw [← hm.2]⟩
  exact (hp haside).2.1

private theorem ready_nextToken {m : Machine} (hm : Ready [] m) : Ready [] (nextToken.on m).2 :=
  ready_of_matches (nextToken_matches (aside_scans [] [])) hm

private theorem ready_interpret (t : Token) {m : Machine} (hm : Ready [] m) :
    Ready [] ((interpret t).on m).2 :=
  ready_of_matches (interpret_matches (aside_respects [] []) aside_reads (aside_scans [] []) t) hm

private theorem execute_bind (k l : Nat) (w : Word) (m : Machine) :
    (do if ← execute k w then readTokens l else return false : Run Bool).on m =
      (proceed k l).on { m with frames := .sequence [.action w] :: m.frames } := rfl

private theorem proceed_congr {k l l' : Nat} {m : Machine}
    (h : ((proceed k l).on m).1 ≠ .error .exhausted) (i : Nat)
    (hl : ∀ ⦃m⦄, ((readTokens l).on m).1 ≠ .error .exhausted →
      (readTokens l').on m = (readTokens l).on m) :
    (proceed (k + i) l').on m = (proceed k l).on m := by
  have hrun : ((run k).on m).1 ≠ .error .exhausted := by
    intro hr
    refine h ?_
    rcases hk : (run k).on m with ⟨s | done, m'⟩ <;> rw [hk] at hr <;> cases hr
    rw [proceed, on_bind_error hk]
  calc (proceed (k + i) l').on m
      _ = (proceed k l').on m := by
        unfold proceed
        rw [on_bind, run_add hrun, ← on_bind]
      _ = (proceed k l).on m := by
        refine on_bind_congr h fun done n _ h => ?_
        cases done with
        | false => rfl
        | true => exact hl h

private theorem readTokens_add {fuel : Nat} {m : Machine}
    (h : ((readTokens fuel).on m).1 ≠ .error .exhausted) (extra : Nat) :
    (readTokens (fuel + extra)).on m = (readTokens fuel).on m := by
  induction fuel generalizing m with
  | zero => exact absurd rfl h
  | succ fuel ih =>
    rw [Nat.add_right_comm]
    refine on_bind_congr h fun t m₁ _ h => ?_
    cases t with
    | none => rfl
    | some t =>
      refine on_bind_congr h fun w m₂ _ h => ?_
      cases w with
      | none => exact ih h
      | some w =>
        refine on_bind_congr h fun _ m₃ _ h => ?_
        rw [execute_bind] at h
        rw [execute_bind, execute_bind]
        exact proceed_congr h extra fun _ h => ih h

private theorem proceed_add {k l : Nat} {m : Machine}
    (h : ((proceed k l).on m).1 ≠ .error .exhausted) (i j : Nat) :
    (proceed (k + i) (l + j)).on m = (proceed k l).on m :=
  proceed_congr h i fun _ h => readTokens_add h j

private theorem proceed_paused (k l : Nat) {m : Machine} (h : m.paused = true) :
    (proceed (k + 1) l).on m = (.ok false, m) := by
  rw [proceed, on_bind_ok (run_paused k h)]
  rfl

private theorem proceed_frame (k l : Nat) {m : Machine} {f : Frame} {fs : List Frame}
    (h : Ready (f :: fs) m) :
    (proceed (k + 1) l).on m = (do advance f; proceed k l : Run Bool).on m := by
  unfold proceed
  rw [on_bind, run_frame k h, ← on_bind, bind_assoc]

private theorem proceed_ready (k l : Nat) {m : Machine} (h : Ready [] m) :
    (proceed (k + 1) l).on m = (readTokens l).on m := by
  rw [proceed, on_bind_ok (run_ready k h)]
  rfl

private theorem readTokens_ready (l : Nat) {m : Machine} (h : Ready [] m) :
    (readTokens (l + 1)).on m =
      (do
        match ← takeToken with
        | some done => return done
        | none => proceed l l : Run Bool).on m := by
  have hnext := ready_nextToken h
  unfold readTokens takeToken
  rw [bind_assoc]
  rcases ht : nextToken.on m with ⟨s | t, m₁⟩
  · rw [on_bind_error ht, on_bind_error ht]
  · rw [ht] at hnext
    rw [on_bind_ok ht, on_bind_ok ht]
    cases t with
    | none => rfl
    | some t =>
      have hinterpret := ready_interpret t hnext
      dsimp only
      rw [bind_assoc]
      rcases hw : (interpret t).on m₁ with ⟨s | w, m₂⟩
      · rw [on_bind_error hw, on_bind_error hw]
      · rw [hw] at hinterpret
        rw [on_bind_ok hw, on_bind_ok hw]
        cases w with
        | some w => rfl
        | none =>
          cases l with
          | zero => rfl
          | succ l => exact (proceed_ready l (l + 1) hinterpret).symm

private theorem ends_of_proceed_of_readTokens {l : Nat}
    (hl : ∀ ⦃m o m'⦄, Ready [] m → (readTokens l).on m = (o.mapError .failed, m') → Ends m o m')
    {k : Nat} {m m' : Machine} {o : Except Failure Bool}
    (h : (proceed k l).on m = (o.mapError .failed, m')) : Ends m o m' := by
  induction k generalizing m with
  | zero => cases o <;> cases h
  | succ k ih =>
    obtain hm | ⟨f, fs, hm⟩ | hm := ready_or_paused m
    · rw [proceed_paused k l hm] at h
      cases o with
      | error f => cases h
      | ok done =>
        cases h
        exact .stop (turn_paused hm)
    · rw [proceed_frame k l hm] at h
      rcases ha : (advance f).on m with ⟨s | u, m₁⟩
      · rw [on_bind_error ha] at h
        cases o with
        | ok done => cases h
        | error e =>
          cases h
          refine .fail ?_
          rw [turn_frame hm, on_bind_error ha]
      · rw [on_bind_ok ha] at h
        refine .step ?_ (ih h)
        rw [turn_frame hm, on_bind_ok ha]
        rfl
    · rw [proceed_ready k l hm] at h
      exact hl hm h

private theorem ends_of_readTokens {l : Nat} {m m' : Machine} {o : Except Failure Bool}
    (hm : Ready [] m) (h : (readTokens l).on m = (o.mapError .failed, m')) : Ends m o m' := by
  induction l generalizing m m' o with
  | zero => cases o <;> cases h
  | succ l ih =>
    rw [readTokens_ready l hm] at h
    rcases ht : takeToken.on m with ⟨s | done, m₁⟩
    · rw [on_bind_error ht] at h
      cases o with
      | ok done => cases h
      | error e =>
        cases h
        exact .fail ((turn_token hm).trans ht)
    · rw [on_bind_ok ht] at h
      cases done with
      | some done =>
        cases o with
        | error e => cases h
        | ok b =>
          cases h
          exact .stop ((turn_token hm).trans ht)
      | none =>
        refine .step ((turn_token hm).trans ht) ?_
        exact ends_of_proceed_of_readTokens (fun _ _ _ hm h => ih hm h) h

private theorem proceed_of_ends {m m' : Machine} {o : Except Failure Bool} (h : Ends m o m') :
    ∃ k l, (proceed k l).on m = (o.mapError .failed, m') := by
  induction h with
  | @stop m m' done h =>
    obtain hm | ⟨f, fs, hm⟩ | hm := ready_or_paused m
    · rw [turn_paused hm] at h
      cases h
      exact ⟨1, 0, proceed_paused 0 0 hm⟩
    · rw [turn_frame hm] at h
      obtain ⟨_, _, -, h⟩ := on_bind_eq_ok h
      cases h
    · rw [turn_token hm] at h
      refine ⟨1, 1, ?_⟩
      rw [proceed_ready 0 1 hm, readTokens_ready 0 hm, on_bind_ok h]
      rfl
  | @fail m m' f h =>
    obtain hm | ⟨f', fs, hm⟩ | hm := ready_or_paused m
    · rw [turn_paused hm] at h
      cases h
    · rw [turn_frame hm, on_bind] at h
      rcases ha : (advance f').on m with ⟨s | u, m₁⟩ <;> rw [ha] at h <;> cases h
      refine ⟨1, 0, ?_⟩
      rw [proceed_frame 0 0 hm, on_bind_error ha]
      rfl
    · rw [turn_token hm] at h
      refine ⟨1, 1, ?_⟩
      rw [proceed_ready 0 1 hm, readTokens_ready 0 hm, on_bind_error h]
      rfl
  | @step m m₁ m' o h _ ih =>
    obtain ⟨k, l, ih⟩ := ih
    obtain hm | ⟨f, fs, hm⟩ | hm := ready_or_paused m
    · rw [turn_paused hm] at h
      cases h
    · rw [turn_frame hm] at h
      obtain ⟨_, _, ha, h⟩ := on_bind_eq_ok h
      cases h
      refine ⟨k + 1, l, ?_⟩
      rw [proceed_frame k l hm, on_bind_ok ha, ih]
    · rw [turn_token hm] at h
      -- One more token takes as much fuel for its frames as for the tokens after it.
      have hboth := proceed_add (k := k) (l := l) (m := m₁)
        (by rw [ih]; cases o <;> exact nofun) l k
      refine ⟨1, k + l + 1, ?_⟩
      rw [proceed_ready 0 _ hm, readTokens_ready _ hm, on_bind_ok h]
      rw [Nat.add_comm l k, ih] at hboth
      exact hboth

/-- Going on with a line is taking turn after turn, for some fuel. -/
theorem continueLine_iff_ends (m m' : Machine) (o : Except Failure Bool) :
    (∃ fuel, (continueLine fuel).on m = (o.mapError .failed, m')) ↔ Ends m o m' := by
  constructor
  · rintro ⟨fuel, h⟩
    exact ends_of_proceed_of_readTokens (fun _ _ _ hm h => ends_of_readTokens hm h) h
  · intro h
    obtain ⟨k, l, hkl⟩ := proceed_of_ends h
    have hboth := proceed_add (k := k) (l := l) (m := m)
      (by rw [hkl]; cases o <;> exact nofun) l k
    refine ⟨k + l, ?_⟩
    rw [Nat.add_comm l k, hkl] at hboth
    exact hboth

theorem continueLine_add {fuel : Nat} {m : Machine}
    (h : ((continueLine fuel).on m).1 ≠ .error .exhausted) (extra : Nat) :
    (continueLine (fuel + extra)).on m = (continueLine fuel).on m :=
  proceed_add h extra extra

private theorem ready_of_takeToken {m m' : Machine} {done : Bool} (hm : Ready [] m)
    (h : takeToken.on m = (.ok (some done), m')) : done = true ∧ Ready [] m' := by
  have hnext := ready_nextToken hm
  obtain ⟨t, m₁, ht, h⟩ := on_bind_eq_ok h
  rw [ht] at hnext
  cases t with
  | none =>
    cases h
    exact ⟨rfl, hnext⟩
  | some t =>
    obtain ⟨w, m₂, -, h⟩ := on_bind_eq_ok h
    cases w <;> cases h

theorem Ends.stopped {m m' : Machine} {done : Bool} (h : Ends m (.ok done) m') :
    if done then Ready [] m' else m'.paused = true := by
  generalize ho : (.ok done : Except Failure Bool) = o at h
  induction h with
  | fail h => cases ho
  | step _ _ ih => exact ih ho
  | @stop m m' done' h =>
    cases ho
    obtain hm | ⟨f, fs, hm⟩ | hm := ready_or_paused m
    · rw [turn_paused hm] at h
      cases h
      exact hm
    · rw [turn_frame hm] at h
      obtain ⟨_, _, -, h⟩ := on_bind_eq_ok h
      cases h
    · rw [turn_token hm] at h
      obtain ⟨rfl, hready⟩ := ready_of_takeToken hm h
      exact hready

theorem ends_of_paused {m m' : Machine} {o : Except Failure Bool} (hm : m.paused = true)
    (h : Ends m o m') : o = .ok false ∧ m' = m := by
  have hturn := turn_paused hm
  cases h with
  | stop h =>
    rw [hturn] at h
    cases h
    exact ⟨rfl, rfl⟩
  | fail h =>
    rw [hturn] at h
    cases h
  | step h _ =>
    rw [hturn] at h
    cases h

/-- Turn after turn, the line comes from one machine to another, where it is not at its end yet. -/
inductive Reaches : Machine → Machine → Prop where
  | refl (m : Machine) : Reaches m m
  | step {m m₁ m' : Machine} : turn.on m = (.ok none, m₁) → Reaches m₁ m' → Reaches m m'

theorem reaches_of_suspended {m m' : Machine} (h : Ends m (.ok false) m') : Reaches m m' := by
  generalize ho : (.ok false : Except Failure Bool) = o at h
  induction h with
  | fail h => cases ho
  | step hturn _ ih => exact .step hturn (ih ho)
  | @stop m m' done h =>
    cases ho
    obtain hm | ⟨f, fs, hm⟩ | hm := ready_or_paused m
    · rw [turn_paused hm] at h
      cases h
      exact .refl m
    · rw [turn_frame hm] at h
      obtain ⟨_, _, -, h⟩ := on_bind_eq_ok h
      cases h
    · rw [turn_token hm] at h
      cases (ready_of_takeToken hm h).1

section SideBySide

variable {R : Machine → Machine → Prop} {B : Machine → Prop}
  (hready : ∀ ⦃m n⦄, R m n → m.paused = n.paused ∧ m.frames = n.frames)
  (hturn : ∀ ⦃m n⦄, R m n →
    B m ∨ ((turn.on m).1 = (turn.on n).1 ∧ R (turn.on m).2 (turn.on n).2))

include hready hturn

end SideBySide

/-- Whatever the line comes to, it has one end. -/
theorem Reaches.ends {m n m' : Machine} {o : Except Failure Bool} (h : Reaches m n)
    (hends : Ends m o m') : Ends n o m' := by
  induction h with
  | refl m => exact hends
  | step hturn _ ih =>
    cases hends with
    | stop h =>
      rw [hturn] at h
      cases h
    | fail h =>
      rw [hturn] at h
      cases h
    | step h hends =>
      rw [hturn] at h
      cases h
      exact ih hends

end Run

end Forthline
