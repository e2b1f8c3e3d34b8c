import Forthline.Proofs.Library

/-!
# Division

The quotient of integers is rounded down, and the remainder has the sign of the dividend. So they
fit together only if the division is exact or the signs agree; otherwise quotient and remainder
give the dividend but for one divisor.
-/

namespace Forthline

private theorem floor_div_of_nonneg (b : Int) {a : Int} (ha : 0 ≤ a) :
    ⌊(b : ℚ) / a⌋ = b.fdiv a := by
  obtain ⟨d, rfl⟩ := Int.eq_ofNat_of_zero_le ha
  rw [Int.fdiv_eq_ediv_of_nonneg b ha]
  exact Rat.floor_intCast_div_natCast b d

theorem floor_div_eq_fdiv (b a : Int) : ⌊(b : ℚ) / a⌋ = b.fdiv a := by
  rcases Int.le_total 0 a with ha | ha
  · exact floor_div_of_nonneg b ha
  · rw [← neg_div_neg_eq, ← Int.cast_neg, ← Int.cast_neg,
      floor_div_of_nonneg (-b) (Int.neg_nonneg_of_nonpos ha), Int.neg_fdiv_neg]

section Remainder

variable {b a : Int}

theorem abs_tmod_lt (b : Int) (ha : a ≠ 0) : |b.tmod a| < |a| := by
  have hlt := Nat.mod_lt b.natAbs (Int.natAbs_pos.mpr ha)
  rw [Int.abs_eq_natAbs, Int.abs_eq_natAbs, Int.natAbs_tmod]
  exact Int.ofNat_lt.mpr hlt

theorem tmod_eq_zero_or_sign (b a : Int) : b.tmod a = 0 ∨ (b.tmod a).sign = b.sign := by
  rw [Int.sign_tmod, ← Int.dvd_iff_tmod_eq_zero]
  by_cases h : a ∣ b
  · exact .inl h
  · exact .inr (if_neg h)

/-- Rounding down differs from rounding to zero where the division is not exact and the signs do
not agree. -/
theorem fdiv_eq_tdiv_sub (ha : a ≠ 0) :
    b.fdiv a = b.tdiv a - if b.tmod a = 0 ∨ b.sign = a.sign then 0 else 1 := by
  have hexact : b.tmod a = 0 ↔ a ∣ b := Int.dvd_iff_tmod_eq_zero.symm
  rw [Int.fdiv_eq_tdiv]
  by_cases hdvd : a ∣ b
  · rw [if_pos hdvd, if_pos (.inl (hexact.mpr hdvd))]
  have hb : b ≠ 0 := by
    rintro rfl
    exact hdvd (Int.dvd_zero a)
  simp only [hdvd, if_false, hexact, false_or]
  rcases Int.lt_or_gt_of_ne ha with ha | ha
  · rcases Int.lt_or_gt_of_ne hb with hb | hb
    · simp [Int.sign_eq_neg_one_of_neg ha, Int.sign_eq_neg_one_of_neg hb, Int.not_le.mpr ha,
        Int.not_le.mpr hb]
    · simp [Int.sign_eq_neg_one_of_neg ha, Int.sign_eq_one_of_pos hb, ha, Int.le_of_lt hb]
  · rcases Int.lt_or_gt_of_ne hb with hb | hb
    · simp [Int.sign_eq_one_of_pos ha, Int.sign_eq_neg_one_of_neg hb, Int.le_of_lt ha, hb]
    · simp [Int.sign_eq_one_of_pos ha, Int.sign_eq_one_of_pos hb, Int.le_of_lt ha, Int.le_of_lt hb]

/-- The quotient and the remainder give the dividend, or what is one divisor below it. -/
theorem fdiv_mul_add_tmod (ha : a ≠ 0) :
    b.fdiv a * a + b.tmod a = if b.tmod a = 0 ∨ b.sign = a.sign then b else b - a := by
  have hrest := Int.tdiv_mul_add_tmod b a
  rw [fdiv_eq_tdiv_sub ha, Int.sub_mul]
  split
  · omega
  · omega

end Remainder

namespace Value

variable {b a : Int}

theorem quotient_int (ha : a ≠ 0) : (int b).quotient (.int a) = .ok (.int (b.fdiv a)) := if_neg ha

theorem remainder_int (ha : a ≠ 0) : (int b).remainder (.int a) = .ok (.int (b.tmod a)) := if_neg ha

end Value

namespace Run

section Words

variable {m : Machine} {below : Stack} {x y : Value} {rs : List Value} {c : Cause}
  {apply : List Value → Except Cause (List Value)}

private theorem word_of_ok (name : String) (hstack : m.stack = below.pushAll [x, y])
    (happly : apply [x, y] = .ok rs) :
    (word (.native name (.function 2 .values apply))).on m =
      (.ok (), { m with stack := below.pushAll rs }) :=
  native_of_ok name (code_of_ok hstack happly)

private theorem word_of_error (name : String) (hstack : m.stack = below.pushAll [x, y])
    (happly : apply [x, y] = .error c) :
    ∃ f, (word (.native name (.function 2 .values apply))).on m =
      (.error (.failed f), { m with stack := below }) ∧ f.cause = c := by
  refine ⟨_, native_of_error name (code_of_error hstack happly), ?_⟩
  unfold Failure.during
  split
  · rfl
  · rfl

end Words

private theorem standard_divisions :
    Session.standard.dictionary.lookup "/mod" =
      .ok (some (.native "/mod" (.function 2 .values Builtin.divide))) ∧
    Session.standard.dictionary.lookup "/" =
      .ok (some (.native "/" (.function 2 .values (Builtin.binary Value.quotient)))) ∧
    Session.standard.dictionary.lookup "mod" =
      .ok (some (.native "mod" (.function 2 .values (Builtin.binary Value.remainder)))) := by
  have hat (i : Nat) {b : Builtin} (h : Builtin.all[i]? = some b) :=
    Session.standard_builtin (List.mem_of_getElem? h)
  -- The session is not to be computed.
  generalize Session.standard = m at hat ⊢
  exact ⟨hat 4 rfl, hat 3 rfl, hat 17 rfl⟩

/-- `/mod` leaves the remainder that `mod` leaves and the quotient that `/` leaves. The quotient is
rounded down, the remainder has the sign of the dividend, and both fit together if the division is
exact or the signs agree. By zero none of the words divides. -/
theorem division_words_agree {m : Machine} {below : Stack} {b a : Int}
    (hwords : ∀ t ∈ ["/mod", "/", "mod"],
      m.dictionary.lookup t = Session.standard.dictionary.lookup t)
    (hstack : m.stack = below.pushAll [.int b, .int a]) :
    ∃ both quotient remainder,
      m.dictionary.lookup "/mod" = .ok (some both) ∧
      m.dictionary.lookup "/" = .ok (some quotient) ∧
      m.dictionary.lookup "mod" = .ok (some remainder) ∧
      (a ≠ 0 → ∃ q r : Int,
        (word both).on m = (.ok (), { m with stack := below.pushAll [.int r, .int q] }) ∧
        (word quotient).on m = (.ok (), { m with stack := below.pushAll [.int q] }) ∧
        (word remainder).on m = (.ok (), { m with stack := below.pushAll [.int r] }) ∧
        q = ⌊(b : ℚ) / a⌋ ∧ |r| < |a| ∧ (r = 0 ∨ r.sign = b.sign) ∧ a ∣ b - r ∧
        q * a + r = if r = 0 ∨ b.sign = a.sign then b else b - a) ∧
      (a = 0 → ∀ w ∈ [both, quotient, remainder], ∃ f,
        (word w).on m = (.error (.failed f), { m with stack := below }) ∧
        f.cause.kind = "ZeroDivisionError") := by
  obtain ⟨hboth, hquotient, hremainder⟩ := standard_divisions
  simp only [List.forall_mem_cons, List.not_mem_nil, false_implies, implies_true, and_true]
    at hwords
  refine ⟨_, _, _, hwords.1.trans hboth, hwords.2.1.trans hquotient, hwords.2.2.trans hremainder,
    fun ha => ?_, fun ha => ?_⟩
  · have hq : Builtin.binary Value.quotient [.int b, .int a] = .ok [.int (b.fdiv a)] := by
      rw [Builtin.binary, Value.quotient_int ha]
      rfl
    have hr : Builtin.binary Value.remainder [.int b, .int a] = .ok [.int (b.tmod a)] := by
      rw [Builtin.binary, Value.remainder_int ha]
      rfl
    have hqr : Builtin.divide [.int b, .int a] = .ok [.int (b.tmod a), .int (b.fdiv a)] := by
      rw [Builtin.divide, Value.remainder_int ha, Value.quotient_int ha]
      rfl
    exact ⟨_, _, word_of_ok _ hstack hqr, word_of_ok _ hstack hq, word_of_ok _ hstack hr,
      (floor_div_eq_fdiv b a).symm, abs_tmod_lt b ha, tmod_eq_zero_or_sign b a,
      Int.dvd_self_sub_tmod, fdiv_mul_add_tmod ha⟩
  · subst ha
    have hfails (name : String) {apply : List Value → Except Cause (List Value)}
        {fault : ValueFault} (happly : apply [.int b, .int 0] = .error (.value fault))
        (hkind : fault.kind = "ZeroDivisionError") :
        ∃ f, (word (.native name (.function 2 .values apply))).on m =
          (.error (.failed f), { m with stack := below }) ∧
          f.cause.kind = "ZeroDivisionError" := by
      obtain ⟨f, hword, hcause⟩ := word_of_error name hstack happly
      exact ⟨f, hword, by rw [hcause]; exact hkind⟩
    simp only [List.forall_mem_cons, List.not_mem_nil, false_implies, implies_true, and_true]
    exact ⟨hfails _ rfl rfl, hfails _ rfl rfl, hfails _ rfl rfl⟩

/-- A negative dividend shows that the words round in different directions. -/
theorem minus_seven_by_two :
    ∃ both, Session.standard.dictionary.lookup "/mod" = .ok (some both) ∧
      (word both).on { Session.standard with
          stack := Session.standard.stack.pushAll [.int (-7), .int 2] } =
        (.ok (), { Session.standard with
          stack := Session.standard.stack.pushAll [.int (-1), .int (-4)] }) := by
  -- Said of any machine, so that the session is not computed.
  have hany (m : Machine) (hm : Session.standard = m) :
      ∃ both, m.dictionary.lookup "/mod" = .ok (some both) ∧
        (word both).on { m with stack := m.stack.pushAll [.int (-7), .int 2] } =
          (.ok (), { m with stack := m.stack.pushAll [.int (-1), .int (-4)] }) := by
    obtain ⟨both, quotient, remainder, hboth, -, -, hdivides, -⟩ :=
      division_words_agree (b := -7) (a := 2)
        (m := { m with stack := m.stack.pushAll [.int (-7), .int 2] })
        (fun _ _ => by rw [hm]) rfl
    obtain ⟨q, r, hword, -, -, hq, -, -, -, hlaw⟩ := hdivides (by decide)
    obtain rfl : q = -4 := by
      rw [hq, floor_div_eq_fdiv]
      rfl
    obtain rfl : r = -1 := by
      split at hlaw
      · rename_i hfits
        rcases hfits with hzero | hsigns
        · omega
        · exact absurd hsigns (by decide)
      · omega
    exact ⟨both, hboth, hword⟩
  exact hany Session.standard rfl

end Run

end Forthline
