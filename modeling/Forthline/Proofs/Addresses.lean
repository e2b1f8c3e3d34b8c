import Forthline.Proofs.Fences

/-!
# Addresses

An address is an integer, or a real that is worth one. Both lead to the same cells: to those of the
integer, if they all lie inside the memory.
-/

namespace Forthline

def Value.address? : Value → Option Int
  | int a => some a
  | real x => x.toInt?
  | _ => none

theorem Value.toInt?_of_address? {v : Value} {a : Int} (h : v.address? = some a) :
    v.toInt? = some a := by
  cases v with
  | int n => exact h
  | real x => exact h
  | _ => cases h

namespace Memory

variable {σ : Type} {m : Memory σ} {address : Value} {size : Int} {place : Nat}

theorem locate_of_address? {a : Int} (h : address.address? = some a) :
    m.locate address size = m.locate (.int a) size := by
  cases address with
  | int n =>
    cases h
    rfl
  | real x =>
    have hx : x.toInt? = some a := h
    simp only [locate, hx]
  | _ => cases h

theorem address?_of_locate (h : m.locate address size = .ok place) :
    address.address? = some (place : Int) := by
  have hint := toInt?_of_locate h
  cases address with
  | int n => exact hint
  | real x => exact hint
  | text s => cases hint
  | truth b => cases b <;> cases h
  | nothing => cases hint

theorem locate_eq_ok_iff_address? :
    m.locate address size = .ok place ↔
      address.address? = some (place : Int) ∧ (place : Int) + size ≤ m.size := by
  constructor
  · intro h
    have haddress := address?_of_locate h
    rw [locate_of_address? haddress] at h
    exact ⟨haddress, ((locate_eq_ok_iff m _ _ _).mp h).2.1⟩
  · rintro ⟨haddress, hupper⟩
    rw [locate_of_address? haddress]
    exact (locate_eq_ok_iff m _ _ _).mpr ⟨by omega, hupper, by simp⟩

theorem lt_extent_of_locate (h : m.locate address 1 = .ok place) : place < m.extent := by
  have hupper := (locate_eq_ok_iff_address?.mp h).2
  unfold extent
  omega

theorem read_single (h : m.locate address 1 = .ok place) :
    m.read address 1 = .ok (m.peek place) := by
  simp only [read, h, except_bind_eq_ok, Except.ok.injEq, exists_eq_left',
    if_pos (lt_extent_of_locate h)]
  rfl

theorem write_single (h : m.locate address 1 = .ok place) (value : Value) :
    m.write address value 1 =
      .ok { memory := m.setCell place value, value, watchers := m.watchersAt place } := by
  simp only [write, h, except_bind_eq_ok, Except.ok.injEq, exists_eq_left',
    if_pos (lt_extent_of_locate h)]
  rfl

end Memory

end Forthline
