import Forthline.Display
import Forthline.Proofs.Outcomes
import Mathlib.Algebra.Group.Nat.Defs
import Mathlib.Data.List.DropRight

/-!
# Stacks on a line

A stack is shown on a line of a given width: its values at the right end, or an ellipsis and the end
of the values where they are too long. The width two is too narrow for that. The end of no
characters is taken for the whole text there.
-/

namespace Forthline.Display

def joined (texts : List String) : String :=
  if texts.isEmpty then "∅" else " ".intercalate texts

def fitted (width : Nat) (cs : List Char) : List Char :=
  if cs.length ≤ width then cs.leftpad width ' ' else '…' :: ' ' :: cs.rtake (width - 2)

theorem length_fitted {width : Nat} (h : 2 ≤ width) (cs : List Char) :
    (fitted width cs).length = width := by
  unfold fitted
  split
  · rw [List.length_leftpad]
    omega
  · rw [List.length_cons, List.length_cons, List.rtake, List.length_drop]
    omega

theorem toList_padLeft (width : Nat) (s : String) :
    (padLeft width s).toList = s.toList.leftpad width ' ' := by
  rw [padLeft, spaces, String.toList_append, String.toList_ofList]
  rfl

theorem toList_suffixFrom_neg {n : Nat} (h : 0 < n) (s : String) :
    (suffixFrom s (-n)).toList = s.toList.rtake n := by
  have hneg : (-(n : Int)) < 0 := by omega
  have hstart : (-(n : Int) + (s.length : Int)).toNat = s.toList.length - n := by
    rw [String.length_toList]
    omega
  simp only [suffixFrom, if_pos hneg, String.toList_ofList, hstart]
  rfl

section Line

variable {vs : List Value} {texts : List String}

def cutLine (width : Nat) (s : String) : String :=
  if width < s.length then "… " ++ suffixFrom s (2 - width) else s

private theorem values_eq (h : List.Forall₂ (fun v t => v.display = .ok t) vs texts) :
    values vs = .ok (" ".intercalate texts) := by
  rw [values, mapM_eq_ok_iff.mpr h]
  rfl

-- The only limit on the width is that of the host's format.
private theorem stackLine_eq (h : List.Forall₂ (fun v t => v.display = .ok t) vs texts)
    (w : Nat) :
    stackLine vs (some (w : Int)) =
      if 2 ^ 63 ≤ w then .error (.host .widthDigits)
      else .ok (padLeft w (cutLine w (joined texts))) := by
  have hcut : (if (w : Int) < (joined texts).length then "… " ++ suffixFrom (joined texts) (2 - w)
      else joined texts) = cutLine w (joined texts) := by
    simp only [cutLine, Int.ofNat_lt]
  have hnonneg : ¬ (w : Int) < 0 := by omega
  have hsteps : stackLine vs (some (w : Int)) =
      if twoTo 63 ≤ w then .error (.host .widthDigits)
      else if (w : Int) < 0 then .error (.host .signInWidth)
      else .ok (padLeft w (if (w : Int) < (joined texts).length
        then "… " ++ suffixFrom (joined texts) (2 - w) else joined texts)) := by
    cases h with
    | nil => rfl
    | cons hv hvs =>
      unfold stackLine
      rw [values_eq (.cons hv hvs)]
      rfl
  rw [hsteps, hcut, if_neg hnonneg]
  rfl

private theorem stackLine_of_lt (h : List.Forall₂ (fun v t => v.display = .ok t) vs texts)
    {w : Nat} (hw : w < 2 ^ 63) :
    stackLine vs (some (w : Int)) = .ok (padLeft w (cutLine w (joined texts))) := by
  rw [stackLine_eq h, if_neg (by omega)]

private theorem stackLine_of_le (h : List.Forall₂ (fun v t => v.display = .ok t) vs texts)
    {w : Nat} (hw : 2 ^ 63 ≤ w) :
    stackLine vs (some (w : Int)) = .error (.host .widthDigits) := by
  rw [stackLine_eq h, if_pos hw]

end Line

private theorem toList_padLeft_cutLine {width : Nat} (s : String) (hwidth : 2 ≤ width)
    (hfits : width = 2 → s.length ≤ 2) :
    (padLeft width (cutLine width s)).toList = fitted width s.toList := by
  rw [toList_padLeft, cutLine, fitted, String.length_toList]
  by_cases hlong : width < s.length
  · have hthree : 0 < width - 2 := by omega
    have hposition : (2 - width : Int) = -((width - 2 : Nat) : Int) := by omega
    have hcut : ("… " ++ suffixFrom s (2 - width)).toList =
        '…' :: ' ' :: s.toList.rtake (width - 2) := by
      rw [hposition, String.toList_append, toList_suffixFrom_neg hthree]
      rfl
    have hlength := length_fitted hwidth s.toList
    rw [fitted, String.length_toList, if_neg (by omega)] at hlength
    rw [if_pos hlong, if_neg (by omega), hcut, List.leftpad, hlength, Nat.sub_self]
    rfl
  · rw [if_neg hlong, if_pos (by omega)]

private theorem padLeft_cutLine_two {s : String} (h : 2 < s.length) :
    padLeft 2 (cutLine 2 s) = "… " ++ s := by
  -- The last 0 characters are asked for by the position 0, which is that of the first one.
  have hall : suffixFrom s 0 = s := by
    simp [suffixFrom]
  have hcut : cutLine 2 s = "… " ++ s := by
    rw [cutLine, if_pos h]
    exact congrArg ("… " ++ ·) hall
  apply String.toList_injective
  rw [hcut, toList_padLeft, List.leftpad, String.length_toList, String.length_append,
    Nat.sub_eq_zero_of_le (by omega)]
  rfl

/-- A stack whose values have texts fills a line of any width from two on that the host's format
takes, with its values at the right end or the end of its values behind an ellipsis, unless the line
is two wide and the values are longer. They are then all shown, and the line is longer than they
are. -/
theorem stackLine_fits_iff {vs : List Value} {texts : List String} {width : Nat}
    (htexts : List.Forall₂ (fun v t => v.display = .ok t) vs texts) (hwidth : 2 ≤ width) :
    ((∃ line, stackLine vs (some width) = .ok line ∧ line.length = width ∧
        line.toList = fitted width (joined texts).toList) ↔
      width < 2 ^ 63 ∧ (width = 2 → (joined texts).length ≤ 2)) ∧
    (width = 2 → 2 < (joined texts).length →
      stackLine vs (some width) = .ok ("… " ++ joined texts)) ∧
    (2 ^ 63 ≤ width → stackLine vs (some width) = .error (.host .widthDigits)) := by
  have htwo (hw : width = 2) (hlong : 2 < (joined texts).length) :
      stackLine vs (some width) = .ok ("… " ++ joined texts) := by
    subst hw
    rw [stackLine_of_lt htexts (by omega), padLeft_cutLine_two hlong]
  refine ⟨⟨?_, fun ⟨hsmall, hfits⟩ => ?_⟩, htwo, stackLine_of_le htexts⟩
  · rintro ⟨line, hok, hlength, -⟩
    constructor
    · by_contra hlarge
      rw [stackLine_of_le htexts (Nat.le_of_not_lt hlarge)] at hok
      cases hok
    · intro hw
      by_contra hlong
      rw [htwo hw (Nat.lt_of_not_le hlong)] at hok
      rw [← Except.ok.inj hok, String.length_append] at hlength
      omega
  · have hfitted := toList_padLeft_cutLine (joined texts) hwidth hfits
    refine ⟨_, stackLine_of_lt htexts hsmall, ?_, hfitted⟩
    rw [← String.length_toList, hfitted, length_fitted hwidth]

/-- A line that is five wide has room for the last number and the blank before it. -/
theorem long_stack_fills_five :
    List.Forall₂ (fun v t => Value.display v = .ok t) [.int 10, .text "a b", .int (-5)]
        ["10", "a b", "-5"] ∧ 2 ≤ 5 ∧
      ∃ line, stackLine [.int 10, .text "a b", .int (-5)] (some 5) = .ok line ∧
        line.length = 5 ∧ line.toList = "…  -5".toList := by
  have htexts : List.Forall₂ (fun v t => Value.display v = .ok t)
      [.int 10, .text "a b", .int (-5)] ["10", "a b", "-5"] :=
    .cons (by decide +kernel) (.cons rfl (.cons (by decide +kernel) .nil))
  have hwidth : 2 ≤ 5 := by decide
  obtain ⟨hfits, -, -⟩ := stackLine_fits_iff htexts hwidth
  obtain ⟨line, hok, hlength, hline⟩ := hfits.mpr ⟨by decide, by decide⟩
  exact ⟨htexts, hwidth, line, hok, hlength, hline.trans (by decide +kernel)⟩

/-- A line that is two wide does not hold a stack whose text is longer. -/
theorem two_wide_line_overflows :
    stackLine [.int 12, .int 34] (some 2) = .ok "… 12 34" ∧ "… 12 34".length = 7 := by
  decide +kernel

end Forthline.Display
