import Forthline.Proofs.Addresses
import Forthline.Proofs.Keys
import Forthline.Proofs.Outcomes

/-!
# Accesses that fail

An access is checked before it is made: its address must be a whole number, and its cells must lie
inside the memory. The check counts the cells by the size that it is given, but at least one cell is
always read or written: with a size of zero or less an access can pass the check and miss the
memory. Whatever goes wrong, a write that fails leaves all as it was.
-/

namespace Forthline

theorem Value.fault_of_toInteger {v : Value} {c : Cause} (h : v.toInteger = .error c) :
    ∃ fault, c = .value fault := by
  cases v with
  | int n => cases h
  | real x =>
    simp only [Value.toInteger] at h
    split at h
    · cases h
    · cases h
      exact ⟨_, rfl⟩
    · cases h
      exact ⟨_, rfl⟩
  | text s =>
    simp only [Value.toInteger] at h
    split at h
    · cases h
    · cases h
      exact ⟨_, rfl⟩
    · cases h
      exact ⟨_, rfl⟩
  | truth b => cases h
  | nothing =>
    cases h
    exact ⟨_, rfl⟩

theorem ValueFault.kind_ne (fault : ValueFault) :
    fault.kind ≠ "InvalidAddress" ∧ fault.kind ≠ "IndexError" := by
  cases fault <;> simp [ValueFault.kind]

namespace Memory

variable {σ : Type} {m : Memory σ} {address value : Value} {a size : Int}

def Reaches (m : Memory σ) (a size : Int) : Prop := 0 ≤ a ∧ a + max size 1 ≤ m.size

def Refuses (m : Memory σ) (a size : Int) : Prop := a < 0 ∨ m.size < a + size

def Slips (m : Memory σ) (a size : Int) : Prop := 0 ≤ a ∧ a + size ≤ m.size ∧ m.size ≤ a

/-- The cause with which the check refuses an access: it shows the address and the size, unless one
of them is too long for that. -/
def refusal (m : Memory σ) (a size : Int) : Cause :=
  match Numeral.decimal? a, Numeral.decimal? size with
  | some _, some _ => .addressRange a size m.size
  | _, _ => .value .integerUnwritable

theorem kind_faultAt (a : Nat) {fault : HostFault}
    (h : fault = .listIndex ∨ fault = .listAssignment) :
    (faultAt a fault).kind = "IndexError" := by
  unfold faultAt
  split
  · rcases h with rfl | rfl <;> rfl
  · rfl

theorem locate_of_strange (m : Memory σ) (size : Int) (h : address.address? = none) :
    ∃ shown, address.plain = .ok shown ∧ m.locate address size = .error (.addressKind shown) := by
  cases address with
  | int n => cases h
  | real x =>
    have hx : x.toInt? = none := h
    refine ⟨x.text, rfl, ?_⟩
    simp only [locate, hx]
    rfl
  | text s => exact ⟨s, rfl, rfl⟩
  | truth b => exact ⟨_, rfl, rfl⟩
  | nothing => exact ⟨_, rfl, rfl⟩

theorem locate_of_outside (h : address.address? = some a) (hout : m.Refuses a size) :
    m.locate address size = .error (m.refusal a size) := by
  rw [locate_of_address? h]
  change m.inRange a size = _
  have hrange : (a < 0 || m.size < a + size) = true := by
    simpa [Refuses] using hout
  unfold inRange refusal
  rw [if_pos hrange]
  cases Numeral.decimal? a <;> cases Numeral.decimal? size <;> rfl

theorem locate_of_inside (h : address.address? = some a) (hlower : 0 ≤ a)
    (hupper : a + size ≤ m.size) : m.locate address size = .ok a.toNat := by
  rw [locate_of_address? h]
  exact (locate_eq_ok_iff m a size _).mpr ⟨hlower, hupper, rfl⟩

theorem refused_of_locate {c : Cause} (h : m.locate address size = .error c) (value : Value) :
    m.read address size = .error c ∧ m.write address value size = .error c := by
  constructor
  · rw [read, h]
    rfl
  · rw [write, h]
    rfl

theorem slips_size (h : m.Slips a size) : size ≤ 0 := by
  unfold Slips at h
  omega

theorem missed_of_slips (h : address.address? = some a) (hslips : m.Slips a size)
    (value : Value) :
    m.read address size = .error (.host (faultAt a.toNat .listIndex)) ∧
      m.write address value size = .error (.host (faultAt a.toNat .listAssignment)) := by
  obtain ⟨hlower, hupper, hbehind⟩ := hslips
  have hlocate := locate_of_inside h hlower hupper
  have hsize : ¬1 < size := by omega
  have hplace : ¬a.toNat < m.extent := by
    unfold extent
    omega
  constructor
  · rw [read, hlocate]
    show (if 1 < size then _ else if a.toNat < m.extent then _ else _) = _
    rw [if_neg hsize, if_neg hplace]
  · rw [write, hlocate]
    show (if 1 < size then _ else if a.toNat < m.extent then _ else _) = _
    rw [if_neg hsize, if_neg hplace]

theorem read_of_reaches (h : address.address? = some a) (hreaches : m.Reaches a size) {c : Cause}
    (hc : m.read address size = .error c) :
    1 < size ∧ ∃ i < size.toNat, (m.peek (a.toNat + i)).toInteger = .error c := by
  obtain ⟨hlower, hupper⟩ := hreaches
  have hlocate : m.locate address size = .ok a.toNat :=
    locate_of_inside h hlower (by omega)
  have hplace : a.toNat < m.extent := by
    unfold extent
    omega
  rw [read, hlocate] at hc
  change (if 1 < size then _ else if a.toNat < m.extent then _ else _) = _ at hc
  by_cases hsize : 1 < size
  · rw [if_pos hsize] at hc
    cases hns : m.integers a.toNat size.toNat with
    | error d =>
      rw [hns] at hc
      cases hc
      obtain ⟨i, hi, hconvert⟩ := exists_of_mapM_error hns
      exact ⟨hsize, i, List.mem_range.mp hi, hconvert⟩
    | ok ns =>
      rw [hns] at hc
      cases hc
  · rw [if_neg hsize, if_pos hplace] at hc
    cases hc

theorem write_of_reaches (h : address.address? = some a) (hreaches : m.Reaches a size) {c : Cause}
    (hc : m.write address value size = .error c) : 1 < size ∧ value.toInteger = .error c := by
  obtain ⟨hlower, hupper⟩ := hreaches
  have hlocate : m.locate address size = .ok a.toNat :=
    locate_of_inside h hlower (by omega)
  have hplace : a.toNat < m.extent := by
    unfold extent
    omega
  rw [write, hlocate] at hc
  change (if 1 < size then _ else if a.toNat < m.extent then _ else _) = _ at hc
  by_cases hsize : 1 < size
  · rw [if_pos hsize] at hc
    cases hn : value.toInteger with
    | error d =>
      rw [hn] at hc
      cases hc
      exact ⟨hsize, rfl⟩
    | ok n =>
      rw [hn] at hc
      cases hc
  · rw [if_neg hsize, if_pos hplace] at hc
    cases hc

theorem refuses_or (m : Memory σ) (a size : Int) :
    m.Refuses a size ∨ m.Slips a size ∨ m.Reaches a size := by
  unfold Refuses Slips Reaches
  omega

/-- What an access can come to: its address is no whole number, the check refuses it, it passes the
check and misses the memory, or all its cells are there. -/
theorem access_cases (m : Memory σ) (address : Value) (size : Int) :
    address.address? = none ∨ ∃ a, address.address? = some a ∧
      (m.Refuses a size ∨ m.Slips a size ∨ m.Reaches a size) := by
  cases address.address? with
  | none => exact .inl rfl
  | some a => exact .inr ⟨a, rfl, m.refuses_or a size⟩

theorem fault_of_reaches (h : address.address? = some a) (hreaches : m.Reaches a size) {c : Cause}
    (hc : m.read address size = .error c ∨ m.write address value size = .error c) :
    ∃ fault, c = .value fault := by
  rcases hc with hread | hwrite
  · obtain ⟨-, i, -, hconvert⟩ := read_of_reaches h hreaches hread
    exact Value.fault_of_toInteger hconvert
  · exact Value.fault_of_toInteger (write_of_reaches h hreaches hwrite).2

theorem refusal_cases (m : Memory σ) (a size : Int) :
    m.refusal a size = .addressRange a size m.size ∨
      m.refusal a size = .value .integerUnwritable := by
  unfold refusal
  cases Numeral.decimal? a <;> cases Numeral.decimal? size <;> simp

/-- Each of the ways in which an access can fail has causes of its own. -/
theorem fault_cases {c : Cause}
    (hc : m.read address size = .error c ∨ m.write address value size = .error c) :
    (address.address? = none ∧ ∃ shown, c = .addressKind shown) ∨
    ∃ a, address.address? = some a ∧
      ((m.Refuses a size ∧ c = m.refusal a size) ∨
        (m.Slips a size ∧ ∃ fault, c = .host fault ∧ fault.kind = "IndexError") ∨
        m.Reaches a size ∧ ∃ fault, c = .value fault) := by
  -- An access that is known to fail in some way fails with the cause of that way.
  have hcause {d e : Cause} (hread : m.read address size = .error d)
      (hwrite : m.write address value size = .error e) : c = d ∨ c = e := by
    rcases hc with h | h
    · rw [hread] at h
      exact .inl (Except.error.inj h).symm
    · rw [hwrite] at h
      exact .inr (Except.error.inj h).symm
  rcases m.access_cases address size with hnone | ⟨a, ha, hrefuses | hslips | hreaches⟩
  · obtain ⟨shown, -, hlocate⟩ := locate_of_strange m size hnone
    obtain ⟨hread, hwrite⟩ := refused_of_locate hlocate value
    exact .inl ⟨hnone, shown, or_self_iff.mp (hcause hread hwrite)⟩
  · obtain ⟨hread, hwrite⟩ := refused_of_locate (locate_of_outside ha hrefuses) value
    exact .inr ⟨a, ha, .inl ⟨hrefuses, or_self_iff.mp (hcause hread hwrite)⟩⟩
  · obtain ⟨hread, hwrite⟩ := missed_of_slips ha hslips value
    refine .inr ⟨a, ha, .inr (.inl ⟨hslips, ?_⟩)⟩
    rcases hcause hread hwrite with h | h
    · exact ⟨_, h, kind_faultAt _ (.inl rfl)⟩
    · exact ⟨_, h, kind_faultAt _ (.inr rfl)⟩
  · exact .inr ⟨a, ha, .inr (.inr ⟨hreaches, fault_of_reaches ha hreaches hc⟩)⟩

theorem kind_index_iff {c : Cause}
    (hc : m.read address size = .error c ∨ m.write address value size = .error c) :
    c.kind = "IndexError" ↔ ∃ a, address.address? = some a ∧ m.Slips a size := by
  rcases fault_cases hc with ⟨hnone, shown, rfl⟩ |
    ⟨a, ha, ⟨hrefuses, hcause⟩ | ⟨hslips, fault, rfl, hkind⟩ | ⟨hreaches, fault, rfl⟩⟩
  · simp [hnone, Cause.kind]
  · have hslips : ¬m.Slips a size := by
      unfold Refuses at hrefuses
      unfold Slips
      omega
    rcases m.refusal_cases a size with h | h
    · simp [hcause, h, Cause.kind, ha, hslips]
    · simp [hcause, h, Cause.kind, ValueFault.kind, ha, hslips]
  · simp [Cause.kind, hkind, ha, hslips]
  · have hslips : ¬m.Slips a size := by
      unfold Reaches at hreaches
      unfold Slips
      omega
    simp [Cause.kind, fault.kind_ne.2, ha, hslips]

theorem kind_invalid_iff {c : Cause}
    (hc : m.read address size = .error c ∨ m.write address value size = .error c) :
    c.kind = "InvalidAddress" ↔ address.address? = none ∨
      ∃ a, address.address? = some a ∧ m.Refuses a size ∧
        m.refusal a size = .addressRange a size m.size := by
  rcases fault_cases hc with ⟨hnone, shown, rfl⟩ |
    ⟨a, ha, ⟨hrefuses, hcause⟩ | ⟨hslips, fault, rfl, hkind⟩ | ⟨hreaches, fault, rfl⟩⟩
  · simp [hnone, Cause.kind]
  · rcases m.refusal_cases a size with h | h
    · simp [hcause, h, Cause.kind, ha, hrefuses]
    · simp [hcause, h, Cause.kind, ValueFault.kind, ha]
  · have hrefuses : ¬m.Refuses a size := by
      unfold Slips at hslips
      unfold Refuses
      omega
    simp [Cause.kind, hkind, ha, hrefuses]
  · have hrefuses : ¬m.Refuses a size := by
      unfold Reaches at hreaches
      unfold Refuses
      omega
    simp [Cause.kind, fault.kind_ne.1, ha, hrefuses]

end Memory

namespace Run

theorem store_of_error {act : Nat → PortAction → Run PortAnswer} {m : Machine}
    {address value : Value} {size : Int} {c : Cause}
    (h : m.memory.write address value size = .error c) :
    (store act address value size).on m = (.error (.failed { cause := c }), m) := by
  rw [store, on_get_bind, h]
  rfl

/-- Bad accesses are refused, and change nothing. An address is refused that is no whole number, or
if its cells do not all lie inside the memory. Only an access of size zero or less can pass and miss
the memory with its single cell: just these fail with an index error. Where all cells are there,
only a value or a cell that is no integer can be at fault. -/
theorem bad_accesses_are_refused (act : Nat → PortAction → Run PortAnswer) (m : Machine)
    (address value : Value) (size : Int) :
    let memory := m.memory
    let read := memory.read address size
    let write := memory.write address value size
    (address.address? = none → ∃ shown, address.plain = .ok shown ∧
      read = .error (.addressKind shown) ∧ write = .error (.addressKind shown)) ∧
    (∀ a, address.address? = some a →
      (memory.Refuses a size ∨ memory.Slips a size ∨ memory.Reaches a size) ∧
      (memory.Refuses a size →
        read = .error (memory.refusal a size) ∧ write = .error (memory.refusal a size)) ∧
      (memory.Slips a size → size ≤ 0 ∧
        read = .error (.host (Memory.faultAt a.toNat .listIndex)) ∧
        write = .error (.host (Memory.faultAt a.toNat .listAssignment))) ∧
      (memory.Reaches a size →
        (∀ c, read = .error c →
          1 < size ∧ ∃ i < size.toNat, (memory.peek (a.toNat + i)).toInteger = .error c) ∧
        ∀ c, write = .error c → 1 < size ∧ value.toInteger = .error c)) ∧
    (∀ c, read = .error c ∨ write = .error c →
      (c.kind = "InvalidAddress" ↔ address.address? = none ∨ ∃ a, address.address? = some a ∧
        memory.Refuses a size ∧ memory.refusal a size = .addressRange a size memory.size) ∧
      (c.kind = "IndexError" ↔ ∃ a, address.address? = some a ∧ memory.Slips a size)) ∧
    (∀ c, write = .error c →
      (store act address value size).on m = (.error (.failed { cause := c }), m)) ∧
    (m.Unwatched → ∀ w, write = .ok w →
      (store act address value size).on m = (.ok (), { m with memory := w.memory })) := by
  intro memory read write
  refine ⟨?_, ?_, ?_, fun c => store_of_error, fun hm w => store_of_unwatched hm⟩
  · intro hnone
    obtain ⟨shown, hplain, hlocate⟩ := Memory.locate_of_strange memory size hnone
    exact ⟨shown, hplain, Memory.refused_of_locate hlocate value⟩
  · intro a ha
    refine ⟨?_, ?_, ?_, ?_⟩
    · exact memory.refuses_or a size
    · intro hrefuses
      exact Memory.refused_of_locate (Memory.locate_of_outside ha hrefuses) value
    · intro hslips
      exact ⟨Memory.slips_size hslips, Memory.missed_of_slips ha hslips value⟩
    · intro hreaches
      exact ⟨fun c => Memory.read_of_reaches ha hreaches,
        fun c => Memory.write_of_reaches ha hreaches⟩
  · intro c hc
    exact ⟨Memory.kind_invalid_iff hc, Memory.kind_index_iff hc⟩

private def tiny : Machine := { memory := { size := 10 } }

/-- In ten cells, an access by a text is refused, and so is one to the last cell and one more; an
access of no cells behind the last one fails for its index; a text cannot be stored in two cells,
and the last cell can be written. -/
theorem tiny_accesses :
    tiny.memory.read (.text "x") 1 = .error (.addressKind "x") ∧
    tiny.memory.write (.int 9) (.int 5) 2 = .error (.addressRange 9 2 10) ∧
    tiny.memory.read (.int 10) 0 = .error (.host .listIndex) ∧
    (store withinLine (.int 8) (.text "y") 2).on tiny =
      (.error (.failed { cause := .value (.integerSyntax "y") }), tiny) ∧
    ∃ memory, (store withinLine (.int 9) (.int 5) 1).on tiny = (.ok (), { tiny with memory }) := by
  refine ⟨?_, ?_, ?_, ?_, ?_⟩
  · obtain ⟨shown, hshown, hread, -⟩ :=
      (bad_accesses_are_refused withinLine tiny (.text "x") (.int 5) 1).1 rfl
    cases hshown
    exact hread
  · have hrefuses : tiny.memory.Refuses 9 2 := .inr (by decide)
    obtain ⟨-, hrefused, -⟩ :=
      (bad_accesses_are_refused withinLine tiny (.int 9) (.int 5) 2).2.1 9 rfl
    have hrefusal : tiny.memory.refusal 9 2 = .addressRange 9 2 10 := by decide +kernel
    rw [(hrefused hrefuses).2, hrefusal]
  · have hslips : tiny.memory.Slips 10 0 := by
      unfold Memory.Slips
      decide
    obtain ⟨-, -, hmissed, -⟩ :=
      (bad_accesses_are_refused withinLine tiny (.int 10) (.int 5) 0).2.1 10 rfl
    exact (hmissed hslips).2.1
  · have hwrite :
        tiny.memory.write (.int 8) (.text "y") 2 = .error (.value (.integerSyntax "y")) := rfl
    exact (bad_accesses_are_refused withinLine tiny (.int 8) (.text "y") 2).2.2.2.1 _ hwrite
  · have hwrite : ∃ w, tiny.memory.write (.int 9) (.int 5) 1 = .ok w := ⟨_, rfl⟩
    obtain ⟨w, hw⟩ := hwrite
    obtain ⟨-, -, -, -, hstored⟩ :=
      bad_accesses_are_refused withinLine tiny (.int 9) (.int 5) 1
    exact ⟨w.memory, hstored rfl w hw⟩

/-- An access of no cells right behind the memory passes the check and fails with an index error,
when it is read and when it is written. -/
theorem empty_access_misses_memory :
    let memory : Memory Unit := { size := 10 }
    (∃ c, memory.read (.int 10) 0 = .error c ∧ c.kind = "IndexError") ∧
      ∃ c, memory.write (.int 10) (.int 5) 0 = .error c ∧ c.kind = "IndexError" :=
  ⟨⟨_, rfl, rfl⟩, ⟨_, rfl, rfl⟩⟩

end Run

end Forthline
