import Forthline.Machine.Execution
import Forthline.Proofs.Native

/-!
# Turns of frames

A turn of a counted loop ends the iteration under way and then visits the next index or leaves the
loop. Turns of frames match themselves under every relation that, in addition to what words need,
says the same of the frames and survives their change. Fuel decides only whether a run comes to
an end.
-/

namespace Forthline

def Frame.sleeps : Frame → Bool
  | .sequence (.action (.native _ (.task .sleep)) :: _) => true
  | _ => false

def Frame.native? : Frame → Option (String × Code)
  | .sequence (.action (.native name c) :: _) => some (name, c)
  | _ => none

def Frame.nodes : Frame → List Node
  | .sequence rest => rest
  | .counted body .. => body
  | .indefinite body _ => body

namespace Run

def goesOn (index limit : Value) (forwards : Bool) : Except Cause Bool :=
  if forwards then index.less limit else index.atLeast limit

def nextIndex (stepped : Bool) (index : Value) : Run Value := do
  discard popReturn
  let step ← if stepped then pop else pure (.int 1)
  lift (Value.add "+=" index step)

def visit (body : List Node) (stepped : Bool) (index limit : Value) (forwards : Bool) :
    Run Unit := do
  let more ← lift (goesOn index limit forwards)
  if more then
    pushReturn index
    setFrame (.counted body stepped index limit forwards true)
    pushFrame (.sequence body)
  else dropFrame

theorem iterate_first (body : List Node) (stepped : Bool) (index limit : Value)
    (forwards : Bool) :
    iterate body stepped index limit forwards false = visit body stepped index limit forwards := by
  cases forwards <;> rfl

theorem iterate_next (body : List Node) (stepped : Bool) (index limit : Value)
    (forwards : Bool) :
    iterate body stepped index limit forwards true = (do
      let index ← nextIndex stepped index
      setFrame (.counted body stepped index limit forwards true)
      visit body stepped index limit forwards) := by
  unfold nextIndex
  rw [bind_assoc]
  cases stepped with
  | false => cases forwards <;> rfl
  | true =>
    change _ = (discard popReturn >>= fun _ => (pop >>= fun step => _) >>= _)
    simp only [bind_assoc]
    cases forwards <;> rfl

theorem sequence_of_native {f : Frame} {name : String} {c : Code}
    (h : f.native? = some (name, c)) :
    ∃ rest, f = .sequence (.action (.native name c) :: rest) := by
  unfold Frame.native? at h
  split at h
  · cases h
    exact ⟨_, rfl⟩
  · cases h

theorem advance_native (name : String) (c : Code) (rest : List Node) (m : Machine) :
    (advance (.sequence (.action (.native name c) :: rest))).on m =
      (native name c).on
        { m with frames := .sequence rest :: m.frames.tail, steps := m.steps + 1 } := rfl

/-- The relation says the same of the frames, and survives their change. -/
structure Tracks (R : Machine → Machine → Prop) : Prop where
  frames : ∀ ⦃m n⦄, R m n → m.frames = n.frames
  setFrames : ∀ ⦃m n⦄ fs, R m n → R { m with frames := fs } { n with frames := fs }
  step : ∀ ⦃m n⦄, R m n → R { m with steps := m.steps + 1 } { n with steps := n.steps + 1 }

/-- A property of lists of nodes that passes on to what the nodes have inside. -/
structure Hereditary (ok : List Node → Prop) : Prop where
  rest : ∀ {n ns}, ok (n :: ns) → ok ns
  call : ∀ {name body permanent ns},
    ok (.action (.definition name body permanent) :: ns) → ok body
  branches : ∀ {consequent alternative ns},
    ok (.conditional consequent alternative :: ns) → ok consequent ∧ ok alternative
  counted : ∀ {body stepped ns}, ok (.counted body stepped :: ns) → ok body
  indefinite : ∀ {body ns}, ok (.indefinite body :: ns) → ok body

/-- The relation says the same of the frames, whose nodes all have some property, and survives a
change of the frames that keeps to the property. -/
structure Confines (ok : List Node → Prop) (R : Machine → Machine → Prop) : Prop where
  frames : ∀ ⦃m n⦄, R m n → m.frames = n.frames
  held : ∀ ⦃m n⦄, R m n → ∀ f ∈ m.frames, ok f.nodes
  setFrames : ∀ ⦃m n fs⦄, R m n → (∀ f ∈ fs, ok f.nodes) →
    R { m with frames := fs } { n with frames := fs }
  step : ∀ ⦃m n⦄, R m n → R { m with steps := m.steps + 1 } { n with steps := n.steps + 1 }

theorem Tracks.start {R : Machine → Machine → Prop} (hT : Tracks R) {m n : Machine} (h : R m n)
    (rest : List Node) :
    R { m with frames := .sequence rest :: m.frames.tail, steps := m.steps + 1 }
      { n with frames := .sequence rest :: n.frames.tail, steps := n.steps + 1 } := by
  rw [hT.frames h]
  exact hT.step (hT.setFrames (.sequence rest :: n.frames.tail) h)

section Turns

variable {ok : List Node → Prop} {R : Machine → Machine → Prop} (hC : Confines ok R)

include hC

theorem pushFrame_within {f : Frame} (hf : ok f.nodes) :
    Matches R (pushFrame f) (pushFrame f) := by
  refine Matches.modify fun m n h => ?_
  rw [← hC.frames h]
  refine hC.setFrames h fun g hg => ?_
  rcases List.mem_cons.mp hg with rfl | hg
  · exact hf
  · exact hC.held h g hg

private theorem setFrame_within {f : Frame} (hf : ok f.nodes) :
    Matches R (setFrame f) (setFrame f) := by
  refine Matches.modify fun m n h => ?_
  rw [← hC.frames h]
  refine hC.setFrames h fun g hg => ?_
  rcases List.mem_cons.mp hg with rfl | hg
  · exact hf
  · exact hC.held h g (List.mem_of_mem_tail hg)

private theorem dropFrame_within : Matches R dropFrame dropFrame := by
  refine Matches.modify fun m n h => ?_
  rw [← hC.frames h]
  exact hC.setFrames h fun g hg => hC.held h g (List.mem_of_mem_tail hg)

variable (hR : Minds R)

include hR

private theorem visit_within {body : List Node} (hbody : ok body) (stepped : Bool)
    (index limit : Value) (forwards : Bool) :
    Matches R (visit body stepped index limit forwards)
      (visit body stepped index limit forwards) := by
  refine (Matches.lift _).bind fun more => Matches.ite _ ?_ (dropFrame_within hC)
  let looping := Frame.counted body stepped index limit forwards true
  refine (pushReturn_matches hR index).bind fun _ => ?_
  exact (setFrame_within hC (f := looping) hbody).bind fun _ => pushFrame_within hC hbody

omit hC in
theorem nextIndex_matches (stepped : Bool) (index : Value) :
    Matches R (nextIndex stepped index) (nextIndex stepped index) := by
  refine (popReturn_matches hR).discard.bind fun _ => ?_
  cases stepped with
  | false => exact Matches.lift _
  | true => exact (pop_matches hR).bind fun _ => Matches.lift _

private theorem iterate_within {body : List Node} (hbody : ok body) (stepped : Bool)
    (index limit : Value) (forwards running : Bool) :
    Matches R (iterate body stepped index limit forwards running)
      (iterate body stepped index limit forwards running) := by
  cases running with
  | false =>
    rw [iterate_first]
    exact visit_within hC hR hbody stepped index limit forwards
  | true =>
    rw [iterate_next]
    refine (nextIndex_matches hR stepped index).bind fun index => ?_
    let looping := Frame.counted body stepped index limit forwards true
    exact (setFrame_within hC (f := looping) hbody).bind fun _ =>
      visit_within hC hR hbody stepped index limit forwards

private theorem repeatBody_within {body : List Node} (hbody : ok body) (running : Bool) :
    Matches R (repeatBody body running) (repeatBody body running) := by
  have hround (done : Bool) : Matches R
      (if done then dropFrame
        else do
          setFrame (.indefinite body true)
          pushFrame (.sequence body))
      (if done then dropFrame
        else do
          setFrame (.indefinite body true)
          pushFrame (.sequence body)) :=
    Matches.ite _ (dropFrame_within hC)
      ((setFrame_within hC (f := .indefinite body true) hbody).bind fun _ =>
        pushFrame_within hC hbody)
  cases running with
  | false => exact hround false
  | true => exact (pop_matches hR).bind fun v => hround _

/-- A turn of a frame stays within what its nodes have inside, and matches itself if the native word
does that is next. -/
theorem advance_within (hH : Hereditary ok) {f : Frame} (hf : ok f.nodes)
    (hnative : ∀ name c, f.native? = some (name, c) → Matches R (native name c) (native name c)) :
    Matches R (advance f) (advance f) := by
  cases f with
  | counted body stepped index limit forwards running =>
    exact iterate_within hC hR hf stepped index limit forwards running
  | indefinite body running => exact repeatBody_within hC hR hf running
  | sequence rest =>
    cases rest with
    | nil => exact dropFrame_within hC
    | cons n rest =>
      have hrest : ok rest := hH.rest hf
      refine (setFrame_within hC (f := .sequence rest) hrest).bind fun _ => ?_
      refine (Matches.modify fun _ _ h => hC.step h).bind fun _ => ?_
      cases n with
      | action w =>
        cases w with
        | native name c => exact hnative name c rfl
        | control c => exact Matches.fail _
        | definition name body permanent => exact pushFrame_within hC (hH.call hf)
        | stray shown => exact Matches.fail _
      | conditional consequent alternative =>
        refine (pop_matches hR).bind fun v => pushFrame_within hC ?_
        change ok (if v.same (.int 0) then alternative else consequent)
        split
        · exact (hH.branches hf).2
        · exact (hH.branches hf).1
      | counted body stepped =>
        refine (pop_matches hR).bind fun start => (pop_matches hR).bind fun limit => ?_
        exact (Matches.lift _).bind fun forwards => pushFrame_within hC (hH.counted hf)
      | indefinite body => exact pushFrame_within hC (hH.indefinite hf)

end Turns

section Turns

variable {R : Machine → Machine → Prop} (hT : Tracks R)

include hT

private theorem Tracks.confines : Confines (fun _ => True) R where
  frames := hT.frames
  held := fun _ _ _ _ _ => trivial
  setFrames := fun _ _ _ h _ => hT.setFrames _ h
  step := hT.step

theorem pushFrame_matches (f : Frame) : Matches R (pushFrame f) (pushFrame f) :=
  pushFrame_within hT.confines trivial

section Words

variable (hR : Minds R)

include hR

theorem advance_matches_of_native {f : Frame}
    (hnative : ∀ name c, f.native? = some (name, c) → Matches R (native name c) (native name c)) :
    Matches R (advance f) (advance f) :=
  advance_within hT.confines hR ⟨fun _ => trivial, fun _ => trivial, fun _ => ⟨trivial, trivial⟩,
    fun _ => trivial, fun _ => trivial⟩ trivial hnative

end Words

theorem advance_matches (hR : Abides R) (hP : Pauses R) (hS : Scans R) {f : Frame}
    (hsleep : f.sleeps = true → Matches R (task .sleep) (task .sleep)) :
    Matches R (advance f) (advance f) := by
  refine advance_matches_of_native hT hR fun name c hf => ?_
  refine native_matches hR name (fun _ => hP) (fun hc => hsleep ?_) fun _ => quote_matches hR hS
  subst hc
  obtain ⟨rest, rfl⟩ := sequence_of_native hf
  rfl

end Turns

def Ready (base : List Frame) (m : Machine) : Prop :=
  m.paused = false ∧ m.frames = base

def Aside (base frames : List Frame) (m n : Machine) : Prop :=
  Ready base m ∧ n = { m with frames }

theorem aside_respects (base frames : List Frame) : Respects (Aside base frames) where
  workspace := by
    rintro m _ ⟨-, rfl⟩
    rfl
  rack := by
    rintro m _ ⟨-, rfl⟩
    rfl
  spent := by
    rintro m _ ⟨-, rfl⟩
    rfl
  threshold := by
    rintro m _ ⟨-, rfl⟩
    rfl
  logListeners := by
    rintro m _ ⟨-, rfl⟩
    rfl
  work := by
    rintro m _ w ⟨hm, rfl⟩ -
    exact ⟨hm, rfl⟩
  write := by
    rintro m _ text ⟨hm, rfl⟩
    exact ⟨hm, rfl⟩
  emit := by
    rintro m _ e ⟨hm, rfl⟩ -
    exact ⟨hm, rfl⟩
  note := by
    rintro m _ e ⟨hm, rfl⟩
    exact ⟨hm, rfl⟩
  wake := by
    rintro m _ c ⟨hm, rfl⟩ -
    exact ⟨⟨rfl, hm.2⟩, rfl⟩

theorem aside_scans (base frames : List Frame) : Scans (Aside base frames) where
  source := by
    rintro m _ ⟨-, rfl⟩
    rfl
  setSource := by
    rintro m _ s ⟨hm, rfl⟩
    exact ⟨hm, rfl⟩

/-- A run that comes to an end does so with more fuel, in the same way. -/
theorem run_add {fuel : Nat} {m : Machine} (h : ((run fuel).on m).1 ≠ .error .exhausted)
    (extra : Nat) : (run (fuel + extra)).on m = (run fuel).on m := by
  induction fuel generalizing m with
  | zero => exact absurd rfl h
  | succ fuel ih =>
    rw [Nat.add_right_comm]
    unfold run at h ⊢
    rw [on_get_bind] at h ⊢
    rw [on_get_bind]
    cases hf : m.frames with
    | nil => rfl
    | cons f fs =>
      simp only [hf] at h ⊢
      split
      · rfl
      · rename_i hp
        rw [if_neg hp] at h
        exact on_bind_congr h fun _ _ _ => ih

end Run

end Forthline
