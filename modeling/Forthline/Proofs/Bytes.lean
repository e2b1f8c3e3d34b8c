import Forthline.Proofs.Fences
import Forthline.Proofs.Outcomes
import Mathlib.Algebra.Ring.Int.Defs

/-!
# Bytes in memory

An integer in several cells is split into bytes. What is read back is the integer as far as the
bytes reach, and what is read of other cells does not change.
-/

namespace Forthline

theorem bitOr_shifted {b x : Int} (hb : 0 ≤ b) (hlt : b < 256) (hx : 0 ≤ x) :
    bitOr b (x * 256) = b + x * 256 := by
  obtain ⟨k, rfl⟩ := Int.eq_ofNat_of_zero_le hb
  obtain ⟨j, rfl⟩ := Int.eq_ofNat_of_zero_le hx
  have hadd := Nat.two_pow_add_eq_or_of_lt (i := 8) (b := k) (by omega) j
  have hor : k ||| j * 256 = k + j * 256 := by
    rw [Nat.or_comm, Nat.mul_comm j 256, ← hadd]
    omega
  change ((k ||| j * 256 : Nat) : Int) = _
  rw [hor]
  omega

namespace Memory

variable {σ : Type}

theorem emod_byte_mul (n : Int) {k : Int} (hk : 0 < k) :
    n % (256 * k) = n % 256 + n / 256 % k * 256 := by
  have hrest := Int.emod_add_mul_ediv (n / 256) k
  have hnonneg := Int.emod_nonneg (n / 256) (Int.ne_of_gt hk)
  have hlt := Int.emod_lt_of_pos (n / 256) hk
  have hsplit : n = n % 256 + n / 256 % k * 256 + 256 * k * (n / 256 / k) := by
    rw [Int.mul_assoc]
    omega
  rw [hsplit, Int.add_mul_emod_self_left, ← hsplit]
  exact Int.emod_eq_of_lt (by omega) (by omega)

theorem joinBytes_splitBytes (n : Int) (count : Nat) :
    joinBytes (splitBytes n count) = n % 256 ^ count := by
  induction count generalizing n with
  | zero => simp [splitBytes, joinBytes]
  | succ count ih =>
    have hpow : (0 : Int) < 256 ^ count := Int.pow_pos (by decide)
    rw [splitBytes, joinBytes, ih, Int.pow_succ', emod_byte_mul n hpow]
    exact bitOr_shifted (by omega) (by omega) (Int.emod_nonneg _ (Int.ne_of_gt hpow))

theorem cell_of_setCells {m : Memory σ} {a i : Nat} {ns : List Int} (h : i < ns.length) :
    (m.setCells a ns).cell (a + i) = .int ns[i] := by
  induction ns generalizing m a i with
  | nil => cases h
  | cons n ns ih =>
    cases i with
    | zero =>
      rw [setCells, cell_setCells (by omega)]
      simp
    | succ i =>
      rw [setCells, show a + (i + 1) = a + 1 + i by omega, ih (Nat.lt_of_succ_lt_succ h)]
      rfl

theorem peek_of_int {m : Memory σ} {a : Nat} {n : Int} (h : m.cell a = .int n) :
    m.peek a = .int n := by
  by_cases hzero : n = 0
  · simp [peek, h, Value.isVoid, hzero]
  · simp [peek, h, Value.isVoid, hzero]

theorem integers_of_cells {m : Memory σ} {a : Nat} {ns : List Int}
    (h : ∀ (i : Nat) (hi : i < ns.length), m.cell (a + i) = .int ns[i]) :
    m.integers a ns.length = .ok ns := by
  have hcell (i : Nat) (hi : i ∈ List.range ns.length) :
      (m.peek (a + i)).toInteger = pure (ns.getD i 0) := by
    have hlt := List.mem_range.mp hi
    rw [peek_of_int (h i hlt), List.getD_eq_getElem?_getD, List.getElem?_eq_getElem hlt]
    rfl
  have hall : (List.range ns.length).map (fun i => ns.getD i 0) = ns := by
    apply List.ext_getElem
    · simp
    · intro i hi hi'
      simp [List.getElem?_eq_getElem hi']
  rw [integers, mapM_congr hcell, List.mapM_pure, hall]
  rfl

/-- What is left of an integer that was written to some cells: one cell holds it as it is. -/
def held (size : Nat) (n : Int) : Int := if size = 1 then n else n % 256 ^ size

section Reading

variable {m m' : Memory σ} {a : Int} {size : Nat} {n : Int} {w : Written σ}

theorem exists_write (hsize : 0 < size) (hlower : 0 ≤ a) (hupper : a + size ≤ m.size) (n : Int) :
    ∃ w, m.write (.int a) (.int n) size = .ok w := by
  have hlocate : m.locate (.int a) size = .ok a.toNat :=
    (locate_eq_ok_iff m a size _).mpr ⟨hlower, hupper, rfl⟩
  have hplace : a.toNat < m.extent := by
    unfold extent
    omega
  simp only [write, hlocate, except_bind_eq_ok, Except.ok.injEq, exists_eq_left', if_pos hplace]
  split
  · exact ⟨_, rfl⟩
  · exact ⟨_, rfl⟩

theorem read_of_write (hsize : 0 < size) (h : m.write (.int a) (.int n) size = .ok w) :
    w.memory.read (.int a) size = .ok (.int (held size n)) := by
  have hsame := (evolves_write h).size
  obtain ⟨place, hlocate, h⟩ := except_bind_eq_ok.mp h
  refine except_bind_eq_ok.mpr ⟨place, (locate_congr hsame a size).trans hlocate, ?_⟩
  by_cases hwide : (1 : Int) < size
  · rw [if_pos hwide] at h ⊢
    cases h
    have hcell (i : Nat) (hi : i < (splitBytes n size).length) :
        (m.setCells place (splitBytes n size)).cell (place + i) = .int (splitBytes n size)[i] :=
      cell_of_setCells hi
    have hintegers := integers_of_cells hcell
    rw [length_splitBytes] at hintegers
    refine except_bind_eq_ok.mpr ⟨splitBytes n size, hintegers, ?_⟩
    rw [joinBytes_splitBytes, held, if_neg (by omega)]
    rfl
  · rw [if_neg hwide] at h ⊢
    by_cases hplace : place < m.extent
    · rw [if_pos hplace] at h
      cases h
      have hpeek : (m.setCell place (.int n)).peek place = .int n := peek_of_int (by simp)
      rw [if_pos (show place < (m.setCell place (.int n)).extent from hplace), hpeek, held,
        if_pos (by omega)]
      rfl
    · rw [if_neg hplace] at h
      cases h

theorem read_congr {size : Int} (hsame : m'.size = m.size)
    (hcells : ∀ i : Nat, a ≤ i → i < a + max size 1 → m'.cell i = m.cell i) :
    m'.read (.int a) size = m.read (.int a) size := by
  unfold read
  rw [locate_congr hsame]
  cases hlocate : m.locate (.int a) size with
  | error c => rfl
  | ok place =>
    have hplace := locate_int hlocate
    have hpeek (i : Nat) (hi : i < max size 1) : m'.peek (place + i) = m.peek (place + i) := by
      simp only [peek, hcells (place + i) (by omega) (by omega)]
    have hintegers : m'.integers place size.toNat = m.integers place size.toNat := by
      apply mapM_congr
      intro i hi
      have hlt := List.mem_range.mp hi
      rw [hpeek i (by omega)]
    have hfirst : m'.peek place = m.peek place := hpeek 0 (by omega)
    have hextent : m'.extent = m.extent := by rw [extent, extent, hsame]
    change (if 1 < size then _ else _) = (if 1 < size then _ else _)
    rw [hintegers, hfirst, hextent]

end Reading

end Memory

end Forthline
