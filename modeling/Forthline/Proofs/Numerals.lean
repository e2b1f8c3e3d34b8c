import Forthline.Value
import Mathlib.Data.List.TakeWhile

/-!
# Numerals that are read back

An integer that is not too long is written in decimal as it is read. After a prefix a natural of any
size is read in the base of the prefix; with a sign before the prefix nothing is read.
-/

namespace Forthline

namespace Numeral

/-! ### Characters -/

section Characters

variable {base d : Nat} {c : Char}

theorem digitOf?_digitChar (h : d < 16) : digitOf? (Nat.digitChar d) = some d := by
  decide +revert

theorem isDigitIn_iff : isDigitIn base c = true ↔ ∃ d, digitOf? c = some d ∧ d < base := by
  unfold isDigitIn
  cases digitOf? c with
  | none => simp
  | some d => simp

theorem visible_of_digitOf? (h : digitOf? c = some d) :
    0x20 < c.toNat ∧ c.toNat < 0x7f := by
  unfold digitOf? at h
  simp only [Bool.and_eq_true, decide_eq_true_eq] at h
  split at h
  · omega
  · split at h
    · omega
    · split at h
      · omega
      · cases h

private theorem visible_plain :
    ∀ n < 0x7f, 0x20 < n → Text.isBlank (Char.ofNat n) = false ∧
      Text.asciiDigit (Char.ofNat n) = Char.ofNat n := by
  decide +kernel

theorem isBlank_of_visible (h : 0x20 < c.toNat ∧ c.toNat < 0x7f) : Text.isBlank c = false := by
  have hplain := (visible_plain c.toNat h.2 h.1).1
  rwa [Char.ofNat_toNat] at hplain

theorem asciiDigit_of_visible (h : 0x20 < c.toNat ∧ c.toNat < 0x7f) : Text.asciiDigit c = c := by
  have hplain := (visible_plain c.toNat h.2 h.1).2
  rwa [Char.ofNat_toNat] at hplain

end Characters

theorem plain_of_visible {s : String} (h : ∀ c ∈ s.toList, 0x20 < c.toNat ∧ c.toNat < 0x7f) :
    plain s = s.toList := by
  have hpadding (cs : List Char) (hcs : ∀ c ∈ cs, c ∈ s.toList) :
      cs.dropWhile Text.isPadding = cs := by
    cases cs with
    | nil => rfl
    | cons c cs =>
      rw [List.dropWhile_cons_of_neg]
      rw [Text.isPadding, isBlank_of_visible (h c (hcs c List.mem_cons_self)), Bool.false_and]
      exact Bool.false_ne_true
  have htrim : Text.trim Text.isPadding s.toList = s.toList := by
    rw [Text.trim, hpadding _ fun _ hc => hc, hpadding _ fun _ hc => List.mem_reverse.mp hc,
      List.reverse_reverse]
  rw [plain, htrim]
  exact (List.map_congr_left fun c hc => asciiDigit_of_visible (h c hc)).trans (List.map_id _)

/-! ### Digits -/

section Digits

variable {base : Nat}

theorem valueOf_append (base : Nat) (ds : List Char) (c : Char) :
    valueOf base (ds ++ [c]) = valueOf base ds * base + (digitOf? c).getD 0 := List.foldl_append

theorem valueOf_toDigits (hlower : 1 < base) (hupper : base ≤ 16) (n : Nat) :
    valueOf base (Nat.toDigits base n) = n := by
  induction n using Nat.strongRecOn with
  | ind n ih =>
    rw [Nat.toDigits_eq_if hlower]
    split
    · next hlt =>
      rw [valueOf, List.foldl_cons, List.foldl_nil, digitOf?_digitChar (by omega)]
      rw [Nat.zero_mul, Nat.zero_add, Option.getD_some]
    · have hsmaller : n / base < n := Nat.div_lt_self (by omega) hlower
      have hdigit : n % base < base := Nat.mod_lt n (by omega)
      rw [valueOf_append, ih _ hsmaller, digitOf?_digitChar (by omega)]
      exact Nat.div_add_mod' n base

theorem isDigitIn_of_mem_toDigits (hlower : 1 < base) (hupper : base ≤ 16) {n : Nat} {c : Char}
    (h : c ∈ Nat.toDigits base n) : isDigitIn base c = true := by
  induction n using Nat.strongRecOn with
  | ind n ih =>
    rw [Nat.toDigits_eq_if hlower] at h
    split at h
    · next hlt =>
      rw [List.mem_singleton.mp h, isDigitIn_iff]
      exact ⟨n, digitOf?_digitChar (by omega), hlt⟩
    · have hsmaller : n / base < n := Nat.div_lt_self (by omega) hlower
      have hdigit : n % base < base := Nat.mod_lt n (by omega)
      rcases List.mem_append.mp h with h | h
      · exact ih _ hsmaller h
      · rw [List.mem_singleton.mp h, isDigitIn_iff]
        exact ⟨_, digitOf?_digitChar (by omega), hdigit⟩

theorem joined?_of_notMem {ds : List Char} (h : '_' ∉ ds) : joined? ds = some ds := by
  induction ds using joined?.induct with
  | case1 => rfl
  | case4 c _ => simp [joined?]
  | case7 c rest _ hc hrest hnext ih =>
    have hnone : '_' ∉ rest := fun hmem => h (List.mem_cons_of_mem c hmem)
    rw [joined?, ih hnone]
    · rfl
    all_goals assumption
  | _ => simp at h

end Digits

/-! ### Reading -/

section Reading

variable {s : String} {negative : Bool} {cs : List Char}

theorem ne_underscore_of_isDigitIn {base : Nat} {c : Char} (h : isDigitIn base c = true) :
    c ≠ '_' := by
  rintro rfl
  cases h

theorem readInt_of_digits (hsign : sign (plain s) = (negative, cs)) (hne : cs ≠ [])
    (hlength : cs.length ≤ digitLimit) (hcs : ∀ c ∈ cs, isDigitIn 10 c = true) :
    readInt s = .value (Binary64.signed negative (valueOf 10 cs)) := by
  have hrun : cs.takeWhile (fun c => isDigitIn 10 c || c = '_') = cs :=
    List.takeWhile_eq_self_iff.mpr fun c hc => by rw [hcs c hc, Bool.true_or]
  have hjoined : joined? cs = some cs :=
    joined?_of_notMem fun h => ne_underscore_of_isDigitIn (hcs _ h) rfl
  rw [readInt, hsign]
  simp only [hrun, hjoined, List.isEmpty_iff, hne, if_false, Nat.not_lt.mpr hlength,
    Nat.lt_irrefl]

end Reading

/-! ### Decimal numerals -/

section Decimal

theorem toString_of_nonneg {n : Int} (h : 0 ≤ n) :
    (toString n).toList = Nat.toDigits 10 n.natAbs := by
  obtain ⟨k, rfl⟩ := Int.eq_ofNat_of_zero_le h
  change (toString k).toList = _
  rw [Nat.toString_eq_ofList_toDigits, String.toList_ofList]
  rfl

theorem toString_of_neg {n : Int} (h : n < 0) :
    (toString n).toList = '-' :: Nat.toDigits 10 n.natAbs := by
  have habs : (-n).toNat = n.natAbs := by omega
  rw [Int.toString_eq_repr, Int.repr_eq_if, if_neg (Int.not_le.mpr h), String.toList_append, habs,
    ← Nat.toString_eq_repr, Nat.toString_eq_ofList_toDigits]
  simp

theorem sign_toString (n : Int) :
    sign (toString n).toList = (decide (n < 0), Nat.toDigits 10 n.natAbs) := by
  by_cases h : n < 0
  · rw [toString_of_neg h, decide_eq_true h]
    rfl
  · rw [toString_of_nonneg (Int.not_lt.mp h), decide_eq_false h]
    obtain ⟨d, ds, hds⟩ :=
      List.exists_cons_of_ne_nil (Nat.toDigits_ne_nil (n := n.natAbs) (b := 10))
    have hd : isDigitIn 10 d = true := by
      apply isDigitIn_of_mem_toDigits (by decide) (by decide) (n := n.natAbs)
      rw [hds]
      exact List.mem_cons_self
    rw [hds, sign]
    · rintro _ ⟨⟩
      cases hd
    · rintro _ ⟨⟩
      cases hd

theorem mem_toString {n : Int} {c : Char} (h : c ∈ (toString n).toList) :
    c = '-' ∨ isDigitIn 10 c = true := by
  by_cases hn : n < 0
  · rw [toString_of_neg hn] at h
    rcases List.mem_cons.mp h with h | h
    · exact .inl h
    · exact .inr (isDigitIn_of_mem_toDigits (by decide) (by decide) h)
  · rw [toString_of_nonneg (Int.not_lt.mp hn)] at h
    exact .inr (isDigitIn_of_mem_toDigits (by decide) (by decide) h)

theorem visible_of_isDigitIn {base : Nat} {c : Char} (h : isDigitIn base c = true) :
    0x20 < c.toNat ∧ c.toNat < 0x7f := by
  obtain ⟨d, hd, -⟩ := isDigitIn_iff.mp h
  exact visible_of_digitOf? hd

theorem visible_toString {n : Int} {c : Char} (h : c ∈ (toString n).toList) :
    0x20 < c.toNat ∧ c.toNat < 0x7f := by
  rcases mem_toString h with rfl | h
  · decide
  · exact visible_of_isDigitIn h

theorem signed_natAbs (n : Int) : Binary64.signed (decide (n < 0)) n.natAbs = n := by
  by_cases h : n < 0
  · rw [decide_eq_true h, Binary64.signed, if_pos rfl]
    omega
  · rw [decide_eq_false h, Binary64.signed, if_neg Bool.false_ne_true]
    omega

theorem read?_toString {n : Int} (h : (Nat.toDigits 10 n.natAbs).length ≤ digitLimit) :
    read? (toString n) = some (.int n) := by
  have hsign : sign (plain (toString n)) = (decide (n < 0), Nat.toDigits 10 n.natAbs) := by
    rw [plain_of_visible fun c hc => visible_toString hc, sign_toString]
  have hread : readInt (toString n) = .value n := by
    rw [readInt_of_digits hsign Nat.toDigits_ne_nil h fun c hc =>
      isDigitIn_of_mem_toDigits (by decide) (by decide) hc,
      valueOf_toDigits (by decide) (by decide), signed_natAbs]
  have hplain : ¬(toString n).toList.contains '_' = true := by
    intro hmem
    rcases mem_toString (List.contains_iff_mem.mp hmem) with h | h
    · exact absurd h (by decide)
    · exact ne_underscore_of_isDigitIn h rfl
  rw [read?, if_neg hplain, hread]

theorem decimal?_eq {n : Int} (h : (Nat.toDigits 10 n.natAbs).length ≤ digitLimit) :
    decimal? n = some (toString n) := by
  have hlt : n.natAbs < 10 ^ digitLimit :=
    (Nat.length_toDigits_le_iff (by decide) (by decide)).mp h
  have hbound : writableBound = 10 ^ digitLimit := by
    rw [writableBound, tenTo, Int.toNat_natCast, Nat.pow_eq]
  rw [decimal?, if_pos (hbound ▸ hlt)]

end Decimal

/-! ### Prefixed numerals -/

section Prefixed

def prefixed (p : Char) (base n : Nat) : List Char := '0' :: p :: Nat.toDigits base n

def prefixes : List (Char × Nat) := [('x', 16), ('o', 8), ('b', 2)]

variable {p : Char} {base n : Nat}

private theorem letter_of_mem (h : (p, base) ∈ prefixes) :
    prefixBase? p = some base ∧ 1 < base ∧ base ≤ 16 ∧ (isDigitIn 10 p || p = '_') = false ∧
      (0x20 < p.toNat ∧ p.toNat < 0x7f) ∧ p ≠ '.' ∧ p ≠ 'e' ∧ p ≠ 'E' ∧ p ≠ '_' := by
  have hletters : ∀ e ∈ prefixes,
      prefixBase? e.1 = some e.2 ∧ 1 < e.2 ∧ e.2 ≤ 16 ∧ (isDigitIn 10 e.1 || e.1 = '_') = false ∧
        (0x20 < e.1.toNat ∧ e.1.toNat < 0x7f) ∧ e.1 ≠ '.' ∧ e.1 ≠ 'e' ∧ e.1 ≠ 'E' ∧ e.1 ≠ '_' := by
    decide
  exact hletters _ h

private theorem visible_of_mem_prefixed (h : (p, base) ∈ prefixes) {c : Char}
    (hc : c ∈ prefixed p base n) : (0x20 < c.toNat ∧ c.toNat < 0x7f) ∧ c ≠ '_' := by
  obtain ⟨-, hlower, hupper, -, hp, -, -, -, hplain⟩ := letter_of_mem h
  rcases List.mem_cons.mp hc with rfl | hc
  · decide
  rcases List.mem_cons.mp hc with rfl | hc
  · exact ⟨hp, hplain⟩
  · have hdigit := isDigitIn_of_mem_toDigits hlower hupper hc
    exact ⟨visible_of_isDigitIn hdigit, ne_underscore_of_isDigitIn hdigit⟩

private theorem run_of_prefixed (h : (p, base) ∈ prefixes) :
    (prefixed p base n).takeWhile (fun c => isDigitIn 10 c || c = '_') = ['0'] := by
  obtain ⟨-, -, -, hend, -⟩ := letter_of_mem h
  rw [prefixed, List.takeWhile_cons_of_pos rfl, List.takeWhile_cons_of_neg]
  rw [hend]
  exact Bool.false_ne_true

private theorem readInt_prefixed (h : (p, base) ∈ prefixes) {s : String} {negative : Bool}
    (hsign : sign (plain s) = (negative, prefixed p base n)) : readInt s = .malformed := by
  rw [readInt, hsign]
  simp only [run_of_prefixed h]
  rfl

private theorem readReal?_prefixed (h : (p, base) ∈ prefixes) {s : String} {negative : Bool}
    (hsign : sign (plain s) = (negative, prefixed p base n)) : readReal? s = none := by
  obtain ⟨-, -, -, -, -, hdot, he, hE, -⟩ := letter_of_mem h
  have hnamed (c : Char) (cs : List Char) (hc : c ≠ '0') :
      isNamed (String.ofList (c :: cs)) (prefixed p base n) = false := by
    rw [isNamed, String.toList_ofList, prefixed, List.map_cons, decide_eq_false]
    intro hsame
    exact hc (List.cons.inj hsame).1.symm
  have hrun : digitRun? (prefixed p base n) = some (['0'], p :: Nat.toDigits base n) := by
    rw [digitRun?, run_of_prefixed h]
    rfl
  have hexponent : exponent? (p :: Nat.toDigits base n) = none := by
    have hmark : ¬(decide (p = 'e') || decide (p = 'E')) = true := by simp [he, hE]
    exact if_neg hmark
  have hinf : isNamed "inf" (prefixed p base n) = false := hnamed 'i' _ (by decide)
  have hinfinity : isNamed "infinity" (prefixed p base n) = false := hnamed 'i' _ (by decide)
  have hnan : isNamed "nan" (prefixed p base n) = false := hnamed 'n' _ (by decide)
  rw [readReal?, hsign]
  simp only [hinf, hinfinity, hnan, Bool.or_self, Bool.false_eq_true, if_false, hrun]
  split
  · next hrest => exact absurd (List.cons.inj hrest).1 hdot
  · rw [hexponent]
    rfl

private theorem readPrefixed?_prefixed (h : (p, base) ∈ prefixes) {s : String}
    (hsign : sign (plain s) = (false, prefixed p base n)) : readPrefixed? s = some (n : Int) := by
  obtain ⟨hbase, hlower, hupper, -⟩ := letter_of_mem h
  have hdigits :
      (!(Nat.toDigits base n).isEmpty && (Nat.toDigits base n).all (isDigitIn base)) = true := by
    rw [Bool.and_eq_true, List.all_eq_true]
    exact ⟨by simp [Nat.toDigits_ne_nil], fun c hc => isDigitIn_of_mem_toDigits hlower hupper hc⟩
  rw [readPrefixed?, hsign]
  simp only [prefixed, hbase]
  rw [if_pos hdigits, valueOf_toDigits hlower hupper]
  rfl

theorem read?_prefixed (h : (p, base) ∈ prefixes) (n : Nat) :
    read? (String.ofList (prefixed p base n)) = some (.int n) ∧
      ∀ c ∈ ['-', '+'], read? (String.ofList (c :: prefixed p base n)) = none := by
  have hvisible : ∀ c ∈ prefixed p base n, 0x20 < c.toNat ∧ c.toNat < 0x7f :=
    fun c hc => (visible_of_mem_prefixed h hc).1
  have hplain : '_' ∉ prefixed p base n := fun hc => (visible_of_mem_prefixed h hc).2 rfl
  constructor
  · have hsign : sign (plain (String.ofList (prefixed p base n))) = (false, prefixed p base n) := by
      rw [plain_of_visible (by rwa [String.toList_ofList]), String.toList_ofList]
      rfl
    have hhead : (decide ((prefixed p base n).head? = some '-') ||
        decide ((prefixed p base n).head? = some '+')) = false := rfl
    rw [read?, String.toList_ofList, if_neg (by simpa using hplain), readInt_prefixed h hsign]
    simp only [hhead, Bool.false_eq_true, if_false, readPrefixed?_prefixed h hsign]
  · intro c hc
    have hmark : c = '-' ∨ c = '+' := by simpa using hc
    have hsigned : c ≠ '_' ∧ (0x20 < c.toNat ∧ c.toNat < 0x7f) := by
      rcases hmark with rfl | rfl
      · decide
      · decide
    have hsign : sign (plain (String.ofList (c :: prefixed p base n))) =
        (decide (c = '-'), prefixed p base n) := by
      rw [plain_of_visible, String.toList_ofList]
      · rcases hmark with rfl | rfl
        · rfl
        · rfl
      · rw [String.toList_ofList]
        exact List.forall_mem_cons.mpr ⟨hsigned.2, hvisible⟩
    have hhead : (decide ((c :: prefixed p base n).head? = some '-') ||
        decide ((c :: prefixed p base n).head? = some '+')) = true := by
      rcases hmark with rfl | rfl
      · rfl
      · rfl
    rw [read?, String.toList_ofList, if_neg (by simpa using ⟨hsigned.1.symm, hplain⟩),
      readInt_prefixed h hsign]
    simp only [hhead, if_true, readReal?_prefixed h hsign]

end Prefixed

end Numeral

theorem Value.display_int {n : Int}
    (h : (Nat.toDigits 10 n.natAbs).length ≤ Numeral.digitLimit) :
    (Value.int n).display = .ok (toString n) := by
  change Value.integerText n = _
  unfold Value.integerText
  rw [Numeral.decimal?_eq h]

end Forthline
