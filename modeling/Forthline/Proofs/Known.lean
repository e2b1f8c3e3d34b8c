import Forthline.Dictionary
import Forthline.Proofs.Tables

/-!
# The words of a dictionary

A dictionary knows the words that it has under a name and those that redefinitions captured. What
a name leads to is among them, and new entries make no other words known than their own.
-/

namespace Forthline

namespace Dictionary

def Knows (d : Dictionary) (w : Word) : Prop :=
  (∃ e ∈ d.words.entries, e.2.1 = w) ∨ ∃ e ∈ d.redefinitions.entries, e.2.1 = .captured w

private theorem knows_of_follow {d : Dictionary} {name key : String} {budget : Nat}
    {seen : List String} {w : Word} (h : d.follow name budget seen key = .ok (some w)) :
    d.Knows w := by
  fun_induction follow d name budget seen key with
  | case1 => cases h
  | case2 budget seen key _ v permanent hcaptured =>
    cases h
    exact .inr ⟨_, Table.mem_of_get? hcaptured, rfl⟩
  | case3 => cases h
  | case4 _ _ _ _ _ _ _ ih => exact ih h
  | case5 budget seen key _ hnone =>
    simp only [Except.ok.injEq, Option.map_eq_some_iff] at h
    obtain ⟨e, he, rfl⟩ := h
    exact .inl ⟨_, Table.mem_of_get? he, rfl⟩

theorem knows_of_lookup {d : Dictionary} {name : String} {w : Word}
    (h : d.lookup name = .ok (some w)) : d.Knows w :=
  knows_of_follow h

theorem knows_of_get {d : Dictionary} {name : String} {w : Word} (h : d.get name = .ok w) :
    d.Knows w := by
  unfold get at h
  cases hlookup : d.lookup name with
  | error c => simp [hlookup, bind, Except.bind] at h
  | ok found =>
    cases found with
    | none => simp [hlookup, bind, Except.bind] at h
    | some v =>
      simp only [hlookup, bind, Except.bind, pure, Except.pure, Except.ok.injEq] at h
      subst h
      exact knows_of_lookup hlookup

theorem knows_of_add {d d' : Dictionary} {name : String} {w v : Word} {permanent : Bool}
    (h : d.add name w permanent = .ok d') (hv : d'.Knows v) : v = w ∨ d.Knows v := by
  unfold add at h
  split at h
  · cases h
  · cases h
    rcases hv with ⟨e, he, rfl⟩ | hv
    · rcases Table.mem_insertEntry he with rfl | he
      · exact .inl rfl
      · exact .inr (.inl ⟨e, he, rfl⟩)
    · exact .inr (.inr hv)

theorem knows_of_redefine {d d' : Dictionary} {name : String} {aim : Aim} {v : Word}
    {permanent : Bool} (h : d.redefine name aim permanent = .ok d') (hv : d'.Knows v) :
    aim = .word v ∨ d.Knows v := by
  unfold redefine at h
  split at h
  · cases h
  · dsimp only at h
    split at h
    · cases h
    · cases h
      rcases hv with hv | ⟨e, he, hcaptured⟩
      · exact .inr (.inl hv)
      · rcases Table.mem_insertEntry he with rfl | he
        · cases aim with
          | name n => cases hcaptured
          | word w =>
            cases hcaptured
            exact .inl rfl
        · exact .inr (.inr ⟨e, he, hcaptured⟩)

end Dictionary

end Forthline
