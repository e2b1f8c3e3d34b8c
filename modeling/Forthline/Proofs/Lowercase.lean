import Forthline.Text.Lowercase

/-!
# Lowercasing once

The letters that capitals are lowered to are no capitals themselves, so a text that was lowered
stays as it is when it is lowered again.
-/

namespace Forthline.Text

namespace CapitalRun

def Covers (r : CapitalRun) (n : Nat) : Prop :=
  r.first ≤ n ∧ n ≤ r.last ∧ (n - r.first) % r.stride = 0

instance (r : CapitalRun) (n : Nat) : Decidable (r.Covers n) :=
  inferInstanceAs (Decidable (_ ∧ _ ∧ _))

def low (r : CapitalRun) : Nat := (r.first + r.offset).toNat

def high (r : CapitalRun) : Nat := r.low + (r.last - r.first)

/-- No letter that the first run lowers to is a capital of the second: the letters lie beside its
range, or between its capitals. -/
def clears (r r' : CapitalRun) : Bool :=
  Nat.blt r.high r'.first || Nat.blt r'.last r.low ||
    (r.stride == 2 || r.first == r.last) && r'.stride == 2 && (r.low + r'.first) % 2 == 1

def isSound (r : CapitalRun) : Bool :=
  decide (0 ≤ r.first + r.offset) && (Nat.blt r.high 0x130 || Nat.blt 0x130 r.low) &&
    (Nat.blt r.high 0x3a3 || Nat.blt 0x3a3 r.low)

private theorem small_eq {r : CapitalRun} (h : r.isSound = true) {n : Nat} (hn : r.Covers n) :
    (n + r.offset).toNat = r.low + (n - r.first) := by
  have hpos : 0 ≤ r.first + r.offset := by
    simp only [isSound, Bool.and_eq_true, decide_eq_true_eq] at h
    exact h.1.1
  have hfirst := hn.1
  unfold low
  omega

private theorem not_covers_of_clears {r r' : CapitalRun} (h : r.clears r' = true) {n : Nat}
    (hn : r.Covers n) : ¬r'.Covers (r.low + (n - r.first)) := by
  obtain ⟨hfirst, hlast, hstride⟩ := hn
  intro ⟨hfirst', hlast', hstride'⟩
  simp only [clears, Bool.or_eq_true, Bool.and_eq_true, Nat.blt_eq, beq_iff_eq, high] at h
  rcases h with (h | h) | ⟨⟨h, htwo⟩, hodd⟩
  · omega
  · omega
  · rw [htwo] at hstride'
    rcases h with h | h
    · rw [h] at hstride
      omega
    · omega

end CapitalRun

private theorem capitalRuns_clear :
    (capitalRuns.all fun r => capitalRuns.all fun r' => r.clears r') = true := by
  decide +kernel

private theorem capitalRuns_sound : (capitalRuns.all fun r => r.isSound) = true := by
  decide +kernel

def Settled (n : Nat) : Prop := n ≠ 0x130 ∧ n ≠ 0x3a3 ∧ ∀ r ∈ capitalRuns, ¬r.Covers n

instance (n : Nat) : Decidable (Settled n) := inferInstanceAs (Decidable (_ ∧ _ ∧ _))

private theorem settled_small {r : CapitalRun} (hr : r ∈ capitalRuns) {n : Nat}
    (hn : r.Covers n) : Settled (n + r.offset).toNat := by
  have hsound := List.all_eq_true.mp capitalRuns_sound r hr
  rw [CapitalRun.small_eq hsound hn]
  simp only [CapitalRun.isSound, Bool.and_eq_true, Bool.or_eq_true, Nat.blt_eq,
    CapitalRun.high] at hsound
  have hfirst := hn.1
  have hlast := hn.2.1
  refine ⟨by omega, by omega, ?_⟩
  intro r' hr'
  have hclears := List.all_eq_true.mp (List.all_eq_true.mp capitalRuns_clear r hr) r' hr'
  exact CapitalRun.not_covers_of_clears hclears hn

private def asciiRun : CapitalRun := ⟨0x41, 0x5a, 1, 32⟩

private theorem asciiRun_mem : asciiRun ∈ capitalRuns := List.mem_cons_self

private theorem asciiRun_covers {n : Nat} (h : 0x41 ≤ n ∧ n ≤ 0x5a) : asciiRun.Covers n :=
  ⟨h.1, h.2, Nat.mod_one _⟩

private theorem settled_of_ascii {n : Nat} (h : n < 0x80) (hsmall : ¬(0x41 ≤ n ∧ n ≤ 0x5a)) :
    Settled n := by
  have hruns : ∀ r ∈ capitalRuns, 0x80 ≤ r.first ∨ 0x41 ≤ r.first ∧ r.last ≤ 0x5a := by
    decide +kernel
  refine ⟨by omega, by omega, ?_⟩
  intro r hr ⟨hfirst, hlast, _⟩
  have hr := hruns r hr
  omega

private theorem settled_ofNat {n : Nat} (h : Settled n) : Settled (Char.ofNat n).toNat := by
  by_cases hvalid : n.isValidChar
  · have hnat : (Char.ofNat n).toNat = n := by
      rw [Char.ofNat, dif_pos hvalid]
      rfl
    rw [hnat]
    exact h
  · have hnul : (Char.ofNat n).toNat = 0 := by simp [Char.ofNat, hvalid]
    rw [hnul]
    exact settled_of_ascii (by decide) (by decide)

private theorem covers_iff (r : CapitalRun) (n : Nat) :
    (r.first ≤ n && n ≤ r.last && (n - r.first) % r.stride == 0) = true ↔ r.Covers n := by
  simp [CapitalRun.Covers, and_assoc]

private theorem lowerChar_of_settled {c : Char} (h : Settled c.toNat) : lowerChar c = c := by
  obtain ⟨-, -, hruns⟩ := h
  unfold lowerChar
  by_cases hascii : c.toNat < 0x80
  · have hsmall : ¬(0x41 ≤ c.toNat ∧ c.toNat ≤ 0x5a) :=
      fun h => hruns asciiRun asciiRun_mem (asciiRun_covers h)
    simp [hascii, hsmall]
  · have hnone : capitalRuns.find? (fun r => r.first ≤ c.toNat && c.toNat ≤ r.last &&
        (c.toNat - r.first) % r.stride == 0) = none := by
      apply List.find?_eq_none.mpr
      intro r hr hcovers
      exact hruns r hr ((covers_iff r c.toNat).mp hcovers)
    simp only [hascii, if_false, hnone]

private theorem settled_lowerChar {c : Char} (hdotted : c.toNat ≠ 0x130)
    (hsigma : c.toNat ≠ 0x3a3) : Settled (lowerChar c).toNat := by
  unfold lowerChar
  by_cases hascii : c.toNat < 0x80
  · by_cases hcapital : 0x41 ≤ c.toNat ∧ c.toNat ≤ 0x5a
    · have hsmall : Settled (c.toNat + 32) :=
        settled_small asciiRun_mem (asciiRun_covers hcapital)
      simpa [hascii, hcapital] using settled_ofNat hsmall
    · simpa [hascii, hcapital] using settled_of_ascii hascii hcapital
  · simp only [hascii, if_false]
    split
    · next r hfind =>
      have hfound := List.find?_some hfind
      have hcovers := (covers_iff r c.toNat).mp hfound
      exact settled_ofNat (settled_small (List.mem_of_find?_eq_some hfind) hcovers)
    · next hnone =>
      refine ⟨hdotted, hsigma, ?_⟩
      intro r hr hcovers
      exact List.find?_eq_none.mp hnone r hr ((covers_iff r c.toNat).mpr hcovers)

private theorem settled_lowerFrom (before cs : List Char) :
    ∀ c ∈ lowerFrom before cs, Settled c.toNat := by
  induction cs generalizing before with
  | nil => simp [lowerFrom]
  | cons c rest ih =>
    intro letter hletter
    simp only [lowerFrom, beq_iff_eq, List.mem_append] at hletter
    rcases hletter with hletter | hletter
    · split at hletter
      · split at hletter
        · rw [List.mem_singleton.mp hletter]
          decide +kernel
        · rw [List.mem_singleton.mp hletter]
          decide +kernel
      · next hsigma =>
        split at hletter
        · simp only [List.mem_cons, List.not_mem_nil, or_false] at hletter
          rcases hletter with rfl | rfl
          · exact settled_of_ascii (by decide) (by decide)
          · decide +kernel
        · next hdotted =>
          rw [List.mem_singleton.mp hletter]
          exact settled_lowerChar hdotted hsigma
    · exact ih _ letter hletter

private theorem lowerFrom_of_settled (before : List Char) {cs : List Char}
    (h : ∀ c ∈ cs, Settled c.toNat) : lowerFrom before cs = cs := by
  induction cs generalizing before with
  | nil => rfl
  | cons c rest ih =>
    have hc := h c List.mem_cons_self
    have hrest := ih (c :: before) fun c' hc' => h c' (List.mem_cons_of_mem c hc')
    simp [lowerFrom, hc.1, hc.2.1, lowerChar_of_settled hc, hrest]

@[simp] theorem lower_lower (s : String) : lower (lower s) = lower s := by
  unfold lower
  rw [String.toList_ofList, lowerFrom_of_settled [] (settled_lowerFrom [] s.toList)]

end Forthline.Text
