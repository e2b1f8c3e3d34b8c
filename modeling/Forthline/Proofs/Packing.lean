import Forthline.Proofs.Addresses
import Forthline.Proofs.Isolation

/-!
# Packed integers

An integer that is stored in several cells leaves one byte in each of them, the lowest first, in
two's complement. Any two or more of these cells read as the part of the integer that is theirs.
Cells that are all bytes read as an integer that is stored as these bytes again.
-/

namespace Forthline

namespace Memory

variable {σ : Type} {m m' : Memory σ} {a size : Nat} {v : Int}

theorem getElem_splitBytes (n : Int) {count i : Nat} (h : i < (splitBytes n count).length) :
    (splitBytes n count)[i] = n / 256 ^ i % 256 := by
  induction count generalizing n i with
  | zero => cases h
  | succ count ih =>
    cases i with
    | zero => simp [splitBytes]
    | succ i =>
      have hi : i < (splitBytes (n / 256) count).length := Nat.lt_of_succ_lt_succ h
      change (splitBytes (n / 256) count)[i] = _
      rw [ih (n / 256) hi, Int.ediv_ediv_of_nonneg (by decide), ← Int.pow_succ']

theorem splitBytes_emod (n : Int) (count : Nat) :
    splitBytes (n % 256 ^ count) count = splitBytes n count := by
  induction count generalizing n with
  | zero => rfl
  | succ count ih =>
    have hpow : (0 : Int) < 256 ^ count := Int.pow_pos (by decide)
    have hsplit := emod_byte_mul n hpow
    rw [← Int.pow_succ'] at hsplit
    have hlow : n % 256 ^ (count + 1) % 256 = n % 256 := by omega
    have hrest : n % 256 ^ (count + 1) / 256 = n / 256 % 256 ^ count := by omega
    rw [splitBytes, splitBytes, hlow, hrest, ih]

def Packed (m : Memory σ) (a size : Nat) (v : Int) : Prop :=
  ∀ i < size, m.cell (a + i) = .int (v / 256 ^ i % 256)

def HoldsBytes (m : Memory σ) (a size : Nat) : Prop :=
  ∀ i < size, ∃ b : Int, m.cell (a + i) = .int b ∧ 0 ≤ b ∧ b < 256

namespace Packed

theorem holdsBytes (h : m.Packed a size v) : m.HoldsBytes a size := by
  intro i hi
  exact ⟨_, h i hi, Int.emod_nonneg _ (by decide), Int.emod_lt_of_pos _ (by decide)⟩

theorem part (h : m.Packed a size v) {offset k : Nat} (hfit : offset + k ≤ size) :
    m.Packed (a + offset) k (v / 256 ^ offset) := by
  intro i hi
  have hcell := h (offset + i) (by omega)
  rw [Nat.add_assoc, hcell, Int.ediv_ediv_of_nonneg (Int.pow_nonneg (by decide)), ← Int.pow_add]

theorem read_eq (h : m.Packed a size v) {address : Value}
    (haddress : address.address? = some (a : Int)) (hsize : 2 ≤ size)
    (hupper : (a : Int) + size ≤ m.size) :
    m.read address size = .ok (.int (v % 256 ^ size)) := by
  have hlocate : m.locate address size = .ok a :=
    locate_eq_ok_iff_address?.mpr ⟨haddress, hupper⟩
  have hintegers : m.integers a size = .ok (splitBytes v size) := by
    have hlength := length_splitBytes v size
    have hcell (i : Nat) (hi : i < (splitBytes v size).length) :
        m.cell (a + i) = .int (splitBytes v size)[i] := by
      rw [getElem_splitBytes]
      exact h i (hlength ▸ hi)
    have hcells := integers_of_cells hcell
    rwa [hlength] at hcells
  refine except_bind_eq_ok.mpr ⟨a, hlocate, ?_⟩
  rw [if_pos (by omega)]
  refine except_bind_eq_ok.mpr ⟨splitBytes v size, hintegers, ?_⟩
  rw [joinBytes_splitBytes]
  rfl

end Packed

theorem HoldsBytes.exists_packed (h : m.HoldsBytes a size) : ∃ v, m.Packed a size v := by
  induction size generalizing a with
  | zero => exact ⟨0, nofun⟩
  | succ size ih =>
    obtain ⟨b, hb, hlower, hupper⟩ := h 0 (by omega)
    obtain ⟨v, hv⟩ : ∃ v, m.Packed (a + 1) size v := by
      apply ih
      intro i hi
      rw [Nat.add_right_comm]
      exact h (i + 1) (by omega)
    have hlow : (b + 256 * v) % 256 = b := by omega
    have hrest : (b + 256 * v) / 256 = v := by omega
    refine ⟨b + 256 * v, ?_⟩
    intro i hi
    cases i with
    | zero => simpa [hlow] using hb
    | succ i =>
      have hcell := hv i (by omega)
      rw [← Nat.add_assoc, Nat.add_right_comm, hcell, Int.pow_succ',
        ← Int.ediv_ediv_of_nonneg (by decide), hrest]

/-- Another byte in one of the cells makes another integer of them. -/
theorem HoldsBytes.read_setCell_ne (h : m.HoldsBytes a size) (hsize : 2 ≤ size)
    (hupper : (a : Int) + size ≤ m.size) {k : Nat} (hk : k < size) {b : Int} (hb : 0 ≤ b)
    (hlt : b < 256) (hne : m.cell (a + k) ≠ .int b) :
    (m.setCell (a + k) (.int b)).read (.int a) size ≠ m.read (.int a) size := by
  have hbytes : (m.setCell (a + k) (.int b)).HoldsBytes a size := by
    intro i hi
    by_cases hsame : i = k
    · exact ⟨b, by simp [hsame], hb, hlt⟩
    · simpa [hsame] using h i hi
  obtain ⟨v, hv⟩ := h.exists_packed
  obtain ⟨w, hw⟩ := hbytes.exists_packed
  rw [hv.read_eq rfl hsize hupper, hw.read_eq rfl hsize hupper]
  intro heq
  have hemod : w % 256 ^ size = v % 256 ^ size := Value.int.inj (Except.ok.inj heq)
  have hsplit : splitBytes w size = splitBytes v size := by
    rw [← splitBytes_emod w, hemod, splitBytes_emod]
  have hbyte : w / 256 ^ k % 256 = v / 256 ^ k % 256 := by
    have hlength (n : Int) : k < (splitBytes n size).length := by rwa [length_splitBytes]
    rw [← getElem_splitBytes w (hlength w), ← getElem_splitBytes v (hlength v)]
    simp only [hsplit]
  have hcell : (m.setCell (a + k) (.int b)).cell (a + k) = .int b := by simp
  rw [hw k hk, hbyte, ← hv k hk] at hcell
  exact hne hcell

theorem write_wide {address : Value} (hlocate : m.locate address size = .ok a) (hsize : 2 ≤ size)
    (v : Int) :
    m.write address (.int v) size = .ok
      { memory := m.setCells a (splitBytes v size)
        value := .int v
        watchers := m.watchersAt a } := by
  refine except_bind_eq_ok.mpr ⟨a, hlocate, ?_⟩
  rw [if_pos (by omega)]
  rfl

theorem packed_setCells (m : Memory σ) (a size : Nat) (v : Int) :
    (m.setCells a (splitBytes v size)).Packed a size v := by
  intro i hi
  have hlt : i < (splitBytes v size).length := by rwa [length_splitBytes]
  rw [cell_of_setCells hlt, getElem_splitBytes]

theorem Packed.cell_setCells_self (h : m.Packed a size v) (i : Nat) :
    (m.setCells a (splitBytes (v % 256 ^ size) size)).cell i = m.cell i := by
  rw [splitBytes_emod]
  by_cases hin : a ≤ i ∧ i < a + size
  · obtain ⟨k, rfl⟩ : ∃ k, i = a + k := ⟨i - a, by omega⟩
    rw [m.packed_setCells a size v k (by omega), h k (by omega)]
  · apply cell_setCells
    rwa [length_splitBytes]

/-- What an integer leaves in some cells of a memory: they hold its bytes, they read as the integer
and any two or more of them as their part of it, and all other cells are as they were. -/
structure Packs (m m' : Memory σ) (a size : Nat) (v : Int) : Prop where
  packed : m'.Packed a size v
  bytes : m'.HoldsBytes a size
  whole : ∀ address : Value, address.address? = some (a : Int) →
    m'.read address size = .ok (.int (v % 256 ^ size))
  part : ∀ (address : Value) (offset k : Nat), address.address? = some ((a + offset : Nat) : Int) →
    2 ≤ k → offset + k ≤ size → m'.read address k = .ok (.int (v / 256 ^ offset % 256 ^ k))
  elsewhere : ∀ i, ¬(a ≤ i ∧ i < a + size) → m'.cell i = m.cell i

theorem Packed.packs (h : m'.Packed a size v) (hsize : 2 ≤ size)
    (hupper : (a : Int) + size ≤ m'.size)
    (helsewhere : ∀ i, ¬(a ≤ i ∧ i < a + size) → m'.cell i = m.cell i) : m.Packs m' a size v where
  packed := h
  bytes := h.holdsBytes
  whole := fun address haddress => h.read_eq haddress hsize hupper
  part := by
    intro address offset k haddress hk hfit
    exact (h.part hfit).read_eq haddress hk (by omega)
  elsewhere := helsewhere

theorem packs_setCells (m : Memory σ) (hsize : 2 ≤ size) (hupper : (a : Int) + size ≤ m.size)
    (v : Int) : m.Packs (m.setCells a (splitBytes v size)) a size v := by
  obtain ⟨cells, hcells⟩ := exists_setCells_eq (splitBytes v size) m a
  apply (m.packed_setCells a size v).packs hsize
  · rw [hcells]
    exact hupper
  · intro i hi
    apply cell_setCells
    rwa [length_splitBytes]

end Memory

namespace Run

section Storing

variable {act : Nat → PortAction → Run PortAnswer} {m : Machine} {address : Value} {a size : Nat}

theorem cell_of_store (hlocate : m.memory.locate address size = .ok a)
    (hsize : 2 ≤ size) (hspares : ∀ s ∈ m.memory.watchersAt a, s.SparesCells act) (v : Int)
    (i : Nat) :
    ((store act address (.int v) size).on m).2.memory.cell i =
      (m.memory.setCells a (Memory.splitBytes v size)).cell i := by
  exact Memory.cell_congr (store_cells (Memory.write_wide hlocate hsize v) hspares) i

end Storing

/-- An integer that is stored in two or more cells is packed there, byte by byte, be it negative or
too large for them; and if cells are all bytes, what they read as can be stored there without a
change. The subscribers that are told may do what they like but write to the memory; the store
fails only if one of them does. -/
theorem stored_integers_are_packed :
    (∀ {σ : Type} (m : Memory σ) {address : Value} {a size : Nat},
      address.address? = some (a : Int) → 2 ≤ size → (a : Int) + size ≤ m.size →
        (∀ v : Int, ∃ w, m.write address (.int v) size = .ok w ∧ m.Packs w.memory a size v) ∧
        (m.HoldsBytes a size → ∃ (n : Int) (w : Written σ),
          m.read address size = .ok (.int n) ∧ m.write address (.int n) size = .ok w ∧
          (∃ cells, w.memory = { m with cells }) ∧ ∀ i, w.memory.cell i = m.cell i)) ∧
    ∀ {act : Nat → PortAction → Run PortAnswer}, Acts act →
      ∀ (m : Machine) {address : Value} {a size : Nat},
      address.address? = some (a : Int) → 2 ≤ size → (a : Int) + size ≤ m.memory.size →
      (∀ s ∈ m.memory.watchersAt a, s.SparesCells act) →
        (∀ v : Int,
          m.memory.Packs ((store act address (.int v) size).on m).2.memory a size v ∧
          ∀ stop, ((store act address (.int v) size).on m).1 = .error stop →
            ∃ s ∈ m.memory.watchersAt a, ∃ action ∈ s.actions, ∃ n : Machine, n.rack = m.rack ∧
              ((act s.binding action).on n).1 = .error stop) ∧
        (m.memory.HoldsBytes a size → ∃ n : Int, m.memory.read address size = .ok (.int n) ∧
          ∀ i, ((store act address (.int n) size).on m).2.memory.cell i = m.memory.cell i) := by
  constructor
  · intro σ m address a size haddress hsize hupper
    have hlocate := Memory.locate_eq_ok_iff_address?.mpr ⟨haddress, hupper⟩
    constructor
    · intro v
      exact ⟨_, Memory.write_wide hlocate hsize v, m.packs_setCells hsize hupper v⟩
    · intro hbytes
      obtain ⟨v, hpacked⟩ := hbytes.exists_packed
      exact ⟨v % 256 ^ size, _, hpacked.read_eq haddress hsize hupper,
        Memory.write_wide hlocate hsize _, Memory.exists_setCells_eq _ m a,
        hpacked.cell_setCells_self⟩
  · intro act hact m address a size haddress hsize hupper hspares
    have hlocate := Memory.locate_eq_ok_iff_address?.mpr ⟨haddress, hupper⟩
    constructor
    · intro v
      have hcell := cell_of_store hlocate hsize hspares v
      have hsame := (store_steady (m := m) hact address (.int v) size).2
      have hpacks := m.memory.packs_setCells hsize hupper v
      constructor
      · apply Memory.Packed.packs _ hsize
        · rwa [hsame]
        · intro i hi
          rw [hcell]
          exact hpacks.elsewhere i hi
        · intro i hi
          rw [hcell]
          exact hpacks.packed i hi
      · intro stop hstop
        exact store_fails hact (Memory.write_wide hlocate hsize v) hstop
    · intro hbytes
      obtain ⟨v, hpacked⟩ := hbytes.exists_packed
      refine ⟨v % 256 ^ size, hpacked.read_eq haddress hsize hupper, ?_⟩
      intro i
      rw [cell_of_store hlocate hsize hspares]
      exact hpacked.cell_setCells_self i

private def gauge : Offer :=
  { name := some "gauge"
    ports := some [.port "low" 1 "readwrite" "", .port "wide" 4 "readwrite" ""]
    onAttach := some [.port (.subscribe "wide" "seen" [.get "low"])] }

private def gauged : Machine := ((attach 100 gauge).on Session.builtin).2

private def measured : Machine :=
  ((store (betweenLines 100) (.int 4097) (.int (-3)) (4 : Nat)).on gauged).2

/-- A negative integer has its two's complement in the cells. -/
theorem gauge_holds_negative_integer :
    (∃ w, ({} : Memory Unit).write (.int 10) (.int (-3)) 3 = .ok w ∧
      w.memory.read (.int 10) 3 = .ok (.int 16777213) ∧ w.memory.cell 11 = .int 255) ∧
    gauged.memory.watchersAt 4097 ≠ [] ∧
    measured.memory.read (.int 4097) 4 = .ok (.int 4294967293) ∧
    measured.memory.read (.int 4098) 2 = .ok (.int 65535) ∧ measured.memory.HoldsBytes 4097 4 := by
  have hacts : Acts (betweenLines 100) := .betweenLines 100 nestingLimit
  have hwatched : gauged.memory.watchersAt 4097 ≠ [] := by decide +kernel
  have hlooks : (gauged.memory.watchersAt 4097).all (·.actions.all PortAction.looks) = true := by
    decide +kernel
  have hten : (Value.int 10).address? = some ((10 : Nat) : Int) := rfl
  have hwide : (Value.int 4097).address? = some ((4097 : Nat) : Int) := rfl
  have hblank : ((10 : Nat) : Int) + (3 : Nat) ≤ ({} : Memory Unit).size := by decide
  have hupper : ((4097 : Nat) : Int) + (4 : Nat) ≤ gauged.memory.size := by decide +kernel
  obtain ⟨w, hw, hpacks⟩ :=
    (stored_integers_are_packed.1 ({} : Memory Unit) hten (by decide) hblank).1 (-3)
  have hmeasured : gauged.memory.Packs measured.memory 4097 4 (-3) := by
    unfold measured
    exact ((stored_integers_are_packed.2 hacts gauged hwide (by decide) hupper fun s hs =>
      sparesCells_of_looks hacts (List.all_eq_true.mp hlooks s hs)).1 (-3)).1
  refine ⟨⟨w, ?_, ?_, ?_⟩, hwatched, ?_, ?_, ?_⟩
  · exact hw
  · exact hpacks.whole (.int 10) hten
  · exact hpacks.packed 1 (by decide)
  · exact hmeasured.whole (.int 4097) hwide
  · exact hmeasured.part (.int 4098) 1 2 rfl (by decide) (by decide)
  · exact hmeasured.bytes

end Run

end Forthline
