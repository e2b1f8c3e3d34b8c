import Forthline.Proofs.Addresses
import Forthline.Proofs.Territory

/-!
# Cells that exist

The allocator goes by the end of the heap, and reading and writing go by the number of cells. All
cells that are handed out exist exactly if the heap ends inside the memory, or is full from the
start. A block that is put at an address always lies in cells that exist.
-/

namespace Forthline

namespace Memory

def Request.asks : Request → Option Int
  | allot size => some size
  | addVariable _ size => some size
  | addBlock _ size _ => some size
  | _ => none

variable {σ : Type} {m : Memory σ} {r : Range}

def Returns (m : Memory σ) (q : Request) (r : Range) : Prop :=
  q.asks = some r.size ∧ (m.serve q).1 = .ok (some r.start)

/-- The cells exist: each of them can be read, and written with any value. -/
structure Backs (m : Memory σ) (r : Range) : Prop where
  lower : 0 ≤ r.start
  upper : r.stop ≤ m.size
  readable : ∀ a ∈ r, ∃ v, m.read (.int a) 1 = .ok v
  writable : ∀ a ∈ r, ∀ v, ∃ w, m.write (.int a) v 1 = .ok w

theorem backs_of_bounds (hlower : 0 ≤ r.start) (hupper : r.stop ≤ m.size) : m.Backs r := by
  have hlocate {a : Int} (ha : a ∈ r) : m.locate (.int a) 1 = .ok a.toNat := by
    rw [Range.mem_iff] at ha
    exact (locate_eq_ok_iff m a 1 _).mpr ⟨by omega, by omega, rfl⟩
  exact
    { lower := hlower
      upper := hupper
      readable := fun _ ha => ⟨_, read_single (hlocate ha)⟩
      writable := fun _ ha v => ⟨_, write_single (hlocate ha) v⟩ }

theorem Request.asks_cases {q : Request} {size : Int} (h : q.asks = some size) :
    q.reserves = some size ∨ ∃ name address, q = .addBlock name size (some address) := by
  cases q with
  | allot => exact .inl h
  | addVariable => exact .inl h
  | addBlock name size' start =>
    cases start with
    | none => exact .inl h
    | some address =>
      cases h
      exact .inr ⟨name, address, rfl⟩
  | _ => cases h

theorem Returns.cases {q : Request} (h : m.Returns q r) :
    m.Room r.size ∧ r.start = m.next ∨ 0 ≤ r.start ∧ r.stop ≤ m.size := by
  obtain ⟨hasks, hanswer⟩ := h
  rcases Request.asks_cases hasks with hreserves | ⟨name, address, rfl⟩
  · rcases m.serve_next q with ⟨size, hsize, hroom, hgiven, -⟩ | ⟨hidle, -, -⟩
    · rw [hanswer, Request.given_of_some hreserves] at hgiven
      rw [hreserves] at hsize
      cases hsize
      simp only [List.cons.injEq, Range.mk.injEq, and_true] at hgiven
      exact .inl ⟨hroom, hgiven⟩
    · simp [hreserves, hanswer] at hidle
  · rcases m.addBlock_placed name r.size address with ⟨a, hlocate, hadd⟩ | ⟨c, hadd⟩
    · rw [serve, hadd] at hanswer
      simp only [allocated, Except.ok.injEq, Option.some.injEq] at hanswer
      have hupper := (locate_eq_ok_iff_address?.mp hlocate).2
      unfold Range.stop
      exact .inr ⟨by omega, by omega⟩
    · rw [serve, hadd] at hanswer
      cases hanswer

theorem Served.size {q : Request} {answer : Except Cause (Option Int)} {m' : Memory Unit}
    (h : m.Served q answer m') : m'.size = m.size := by
  cases h <;> rfl

theorem serveAll_size (m : Memory σ) (qs : List Request) : (m.serveAll qs).2.size = m.size := by
  induction qs generalizing m with
  | nil => rfl
  | cons q qs ih => exact (ih _).trans (m.served q).size

theorem serveAll_heapLimit (m : Memory σ) (qs : List Request) :
    (m.serveAll qs).2.heapLimit = m.heapLimit := by
  induction qs generalizing m with
  | nil => rfl
  | cons q qs ih => exact (ih _).trans (m.serve_heapLimit q)

/-- The heap ends inside the memory, or it is full. -/
def Founded (m : Memory σ) : Prop := m.heapLimit ≤ m.size ∨ m.heapLimit ≤ m.next

theorem Founded.bounds (h : m.Founded) (hnext : 0 ≤ m.next) {q : Request} (hq : m.Returns q r)
    (hsize : 0 < r.size) : 0 ≤ r.start ∧ r.stop ≤ m.size := by
  rcases hq.cases with ⟨hroom, hstart⟩ | hbounds
  · have hstop := hroom.2
    unfold Range.stop
    rcases h with hinside | hfull
    · omega
    · omega
  · exact hbounds

theorem founded_of_backs (h : ∀ q r, m.Returns q r → 0 < r.size → m.Backs r) : m.Founded := by
  by_cases hfull : m.heapLimit ≤ m.next
  · exact .inr hfull
  · let r : Range := ⟨m.next, m.heapLimit - m.next⟩
    have hreturns : m.Returns (.allot r.size) r := by
      rcases m.allot_cases r.size with ⟨-, hallot⟩ | ⟨hnone, -⟩
      · exact ⟨rfl, by rw [serve, hallot]; rfl⟩
      · exact absurd ⟨by simp only [r]; omega, by simp only [r]; omega⟩ hnone
    have hupper := (h _ r hreturns (by simp only [r]; omega)).upper
    simp only [r, Range.stop] at hupper
    exact .inl (by omega)

theorem Founded.serveAll (h : m.Founded) (qs : List Request) : (m.serveAll qs).2.Founded := by
  have hnext := m.next_le_serveAll qs
  unfold Founded
  rw [serveAll_size, serveAll_heapLimit]
  rcases h with hinside | hfull
  · exact .inl hinside
  · exact .inr (by omega)

theorem Founded.backs (h : m.Founded) (hnext : 0 ≤ m.next) {qs qs' : List Request} {q : Request}
    (hq : (m.serveAll qs).2.Returns q r) (hsize : 0 < r.size) :
    (m.serveAll (qs ++ qs')).2.Backs r := by
  have hlater := m.next_le_serveAll qs
  obtain ⟨hlower, hupper⟩ := (h.serveAll qs).bounds (by omega) hq hsize
  rw [serveAll_size] at hupper
  apply backs_of_bounds hlower
  rwa [serveAll_size]

private theorem binding_of_bind {name name' : String} {b b' : Binding}
    (h : (m.bind name' b').bindings.get? name = some b) :
    m.bindings.get? name = some b ∨ b = b' := by
  rw [bind, Table.get?_insert] at h
  split at h
  · cases h
    exact .inr rfl
  · exact .inl h

theorem binding_of_serve {q : Request} {name : String} {b : Binding}
    (h : (m.serve q).2.bindings.get? name = some b) :
    m.bindings.get? name = some b ∨ m.Returns q b.range := by
  unfold Returns
  cases q with
  | allot size =>
    rcases m.allot_cases size with ⟨-, hallot⟩ | ⟨-, c, hallot⟩
    · rw [serve, hallot] at h
      exact .inl h
    · rw [serve, hallot] at h
      exact .inl h
  | addVariable name' size =>
    rw [serve] at h ⊢
    rcases m.addVariable_cases name' size with ⟨-, hadd⟩ | ⟨-, c, hadd⟩
    · rw [hadd] at h ⊢
      rcases binding_of_bind h with hold | rfl
      · exact .inl hold
      · exact .inr ⟨rfl, rfl⟩
    · rw [hadd] at h
      exact .inl h
  | addBlock name' size start =>
    rw [serve] at h ⊢
    cases start with
    | none =>
      rcases m.addBlock_cases name' size with ⟨-, hadd⟩ | ⟨-, c, hadd⟩
      · rw [hadd] at h ⊢
        rcases binding_of_bind h with hold | rfl
        · exact .inl hold
        · exact .inr ⟨rfl, rfl⟩
      · rw [hadd] at h
        exact .inl h
    | some address =>
      rcases m.addBlock_placed name' size address with ⟨a, -, hadd⟩ | ⟨c, hadd⟩
      · rw [hadd] at h ⊢
        rcases binding_of_bind h with hold | rfl
        · exact .inl hold
        · exact .inr ⟨rfl, rfl⟩
      · rw [hadd] at h
        exact .inl h
  | release name' =>
    rw [serve, Memory.release, Table.get?_erase] at h
    split at h
    · cases h
    · exact .inl h
  | write address value size =>
    rw [serve] at h
    cases hw : m.write address value size with
    | error c =>
      rw [hw] at h
      exact .inl h
    | ok w =>
      rw [hw] at h
      dsimp only at h
      rw [(evolves_write hw).bindings] at h
      exact .inl h
  | read address size => exact .inl h

theorem Founded.bounds_of_binding (h : m.Founded) (hnext : 0 ≤ m.next)
    (hold : ∀ name b, m.bindings.get? name = some b → 0 < b.size →
      0 ≤ b.address ∧ b.range.stop ≤ m.size) {qs : List Request} {name : String} {b : Binding}
    (hb : (m.serveAll qs).2.bindings.get? name = some b) (hsize : 0 < b.size) :
    0 ≤ b.address ∧ b.range.stop ≤ m.size := by
  induction qs generalizing m with
  | nil => exact hold name b hb hsize
  | cons q qs ih =>
    have hsame : (m.serve q).2.size = m.size := (m.served q).size
    have hfounded : (m.serve q).2.Founded := h.serveAll [q]
    rw [← hsame]
    apply ih hfounded (Int.le_trans hnext (m.next_le_serve q)) _ hb
    intro name' b' hb' hsize'
    rw [hsame]
    rcases binding_of_serve hb' with hb' | hreturns
    · exact hold name' b' hb' hsize'
    · exact h.bounds hnext hreturns hsize'

private theorem bounds_of_outline {base : Memory Unit} {qs : List Request}
    (h : (base.serveAll qs).2 = m.outline) :
    m.size = base.size ∧ m.heapLimit = base.heapLimit ∧ base.next ≤ m.next := by
  have hsize : (base.serveAll qs).2.size = m.size := congrArg Memory.size h
  have hlimit : (base.serveAll qs).2.heapLimit = m.heapLimit := congrArg Memory.heapLimit h
  have hnext : (base.serveAll qs).2.next = m.next := congrArg Memory.next h
  rw [serveAll_size] at hsize
  rw [serveAll_heapLimit] at hlimit
  exact ⟨hsize.symm, hlimit.symm, hnext ▸ base.next_le_serveAll qs⟩

end Memory

namespace Session

variable {c : Config} {m₀ m : Machine}

structure Sized (c : Config) (m : Machine) : Prop where
  size : m.memory.size = c.memorySize
  heapLimit : m.memory.heapLimit = c.deviceBase
  next : c.heapStart ≤ m.memory.next

theorem sized_of_parted (h : m.Parted (freeHeap c) c.deviceBase) : Sized c m := by
  obtain ⟨qs, -, hserved⟩ := h.memory
  obtain ⟨hsize, hlimit, hnext⟩ := Memory.bounds_of_outline hserved
  exact ⟨hsize, hlimit, hnext⟩

theorem Leads.next_le (h : Leads m₀ m) (hm₀ : m₀.Parted (freeHeap c) c.deviceBase) :
    m₀.memory.next ≤ m.memory.next := by
  obtain ⟨qs, -, hserved⟩ := (h.parted ⟨.refl m₀.memory c.deviceBase, hm₀.rack⟩).memory
  exact (Memory.bounds_of_outline hserved).2.2

/-- Where the heap ends inside the memory, all cells exist that were handed out or have a name. -/
theorem backs_of_parted (h : m.Parted (freeHeap c) c.deviceBase) (hheap : 0 ≤ c.heapStart)
    (hinside : c.deviceBase ≤ c.memorySize) :
    ∃ qs, ((freeHeap c).serveAll qs).2 = m.memory.outline ∧
      (∀ r ∈ ((freeHeap c).serveAll qs).1, 0 < r.size → m.memory.Backs r) ∧
      ∀ name b, m.memory.bindings.get? name = some b → 0 < b.size →
        m.memory.Backs b.range := by
  have hsize := (sized_of_parted h).size
  obtain ⟨qs, -, hserved⟩ := h.memory
  have hbindings : ((freeHeap c).serveAll qs).2.bindings = m.memory.bindings :=
    congrArg Memory.bindings hserved
  have hfounded : (freeHeap c).Founded := .inl hinside
  refine ⟨qs, hserved, ?_, ?_⟩
  · intro r hr hpos
    have hhanded := Memory.handed_of_serveAll hr
    have hstart : c.heapStart ≤ r.start := hhanded.start
    have hstop : r.stop ≤ c.deviceBase := hhanded.limit
    exact Memory.backs_of_bounds (by omega) (by omega)
  · intro name b hb hpos
    rw [← hbindings] at hb
    have hbounds := hfounded.bounds_of_binding hheap nofun hb hpos
    apply Memory.backs_of_bounds hbounds.1
    rw [hsize]
    exact hbounds.2

/-- The cells that are handed out exist exactly if the heap ends inside the memory, or is full from
the start. Then the cells of every range that is returned can be read and written ever after. In a
session the heap ends where the ports begin, so the two numbers come from different settings. -/
theorem handed_out_cells_exist_iff {σ : Type} (m : Memory σ) (hnext : 0 ≤ m.next) :
    ((∀ qs qs' q r, (m.serveAll qs).2.Returns q r → 0 < r.size →
      (m.serveAll (qs ++ qs')).2.Backs r) ↔ m.Founded) ∧
    ∀ {fuel : Nat} {c : Config} {m₀ : Machine}, start fuel c = .ok m₀ → 0 ≤ c.heapStart →
      ((∀ m, Leads m₀ m → ∀ q r, m.memory.Returns q r → 0 < r.size → m.memory.Backs r) ↔
        c.deviceBase ≤ c.memorySize ∨ c.deviceBase ≤ m₀.memory.next) ∧
      (c.deviceBase ≤ c.memorySize → ∀ m, Leads m₀ m →
        ∃ qs, ((freeHeap c).serveAll qs).2 = m.memory.outline ∧
          (∀ r ∈ ((freeHeap c).serveAll qs).1, 0 < r.size → m.memory.Backs r) ∧
          ∀ name b, m.memory.bindings.get? name = some b → 0 < b.size →
            m.memory.Backs b.range) := by
  constructor
  · constructor
    · intro h
      exact Memory.founded_of_backs fun q r hq hsize => h [] [] q r hq hsize
    · intro h qs qs' q r hq hsize
      exact h.backs hnext hq hsize
  · intro fuel c m₀ hstart hheap
    have hparted := parted_start hstart
    have hsized := sized_of_parted hparted
    refine ⟨⟨?_, ?_⟩, ?_⟩
    · intro h
      have hfounded := Memory.founded_of_backs (h m₀ .refl)
      rwa [Memory.Founded, hsized.heapLimit, hsized.size] at hfounded
    · intro hfounded m hm q r hq hpos
      have hsized' := sized_of_parted (hm.parted hparted)
      have hnext := hm.next_le hparted
      have hstart := hsized'.next
      have hfounded' : m.memory.Founded := by
        unfold Memory.Founded
        rw [hsized'.heapLimit, hsized'.size]
        omega
      obtain ⟨hlower, hupper⟩ := hfounded'.bounds (by omega) hq hpos
      exact Memory.backs_of_bounds hlower hupper
    · intro hinside m hm
      exact backs_of_parted (hm.parted hparted) hheap hinside

private def short : Memory Unit := { size := 10, heapLimit := 100, next := 8 }

/-- The allocator gives out cells that do not exist, and reading one of them fails. -/
theorem short_hands_out_missing_cells :
    short.Returns (.allot 5) ⟨8, 5⟩ ∧
    ((short.serve (.allot 5)).2.serve (.read (.int 12) 1)).1 = .error (.addressRange 12 1 10) ∧
    ¬ (short.serve (.allot 5)).2.Backs ⟨8, 5⟩ := by
  have hserved : short.serve (.allot 5) = (.ok (some 8), { short with next := 13 }) := rfl
  obtain ⟨text, htext⟩ : ∃ text, Numeral.decimal? 12 = some text :=
    Option.isSome_iff_exists.mp (by decide +kernel)
  obtain ⟨one, hone⟩ : ∃ text, Numeral.decimal? 1 = some text :=
    Option.isSome_iff_exists.mp (by decide +kernel)
  rw [hserved]
  refine ⟨⟨rfl, rfl⟩, ?_, ?_⟩
  · simp [Memory.serve, Memory.read, Memory.locate, Memory.inRange, htext, hone, short]
    rfl
  · intro h
    exact absurd h.upper (by decide)

private def stocked : Machine := (((Call.readLine "variable x 3 allot").run 100).on builtin).2

/-- A blank memory ends where its heap does, and the heap of the builtin session ends inside its
memory. -/
theorem stocked_cells_exist :
    0 ≤ ({} : Memory Unit).next ∧ ({} : Memory Unit).Returns (.allot 5) ⟨1000, 5⟩ ∧
    (({} : Memory Unit).serveAll [.allot 5, .addVariable "x" 1]).2.Backs ⟨1000, 5⟩ ∧
    start 100 { loadLibrary := false } = .ok builtin ∧ Leads builtin stocked ∧
    stocked.memory.Returns (.allot 3000) ⟨1004, 3000⟩ ∧ stocked.memory.Backs ⟨1004, 3000⟩ ∧
    stocked.memory.bindings.get? "x" = some ⟨1000, 1, .variable⟩ ∧
    stocked.memory.Backs ⟨1000, 1⟩ := by
  obtain ⟨hmemory, hsession⟩ := handed_out_cells_exist_iff ({} : Memory Unit) (by decide)
  have hblank := hmemory.mpr (.inl (Int.le_refl _))
  have hreturns : ({} : Memory Unit).Returns (.allot 5) ⟨1000, 5⟩ := ⟨rfl, rfl⟩
  have hstocked : Leads builtin stocked := .call 100 (.readLine "variable x 3 allot") .refl
  have hnext : stocked.memory.next = 1004 := by decide +kernel
  have hroom : 0 ≤ (3000 : Int) ∧ stocked.memory.next + 3000 ≤ stocked.memory.heapLimit := by
    decide +kernel
  have hanswer : (stocked.memory.serve (.allot 3000)).1 = .ok (some 1004) :=
    hnext ▸ ((Memory.served _ _).of_room rfl hroom).1
  have hx : stocked.memory.bindings.get? "x" = some ⟨1000, 1, .variable⟩ := by decide +kernel
  obtain ⟨hreturned, hnamed⟩ := hsession builtin_start (by decide)
  obtain ⟨qs, -, -, hbacks⟩ := hnamed (by decide) stocked hstocked
  exact ⟨by decide, hreturns, hblank [] _ _ _ hreturns (by decide), builtin_start, hstocked,
    ⟨rfl, hanswer⟩,
    hreturned.mpr (.inl (by decide)) stocked hstocked _ _ ⟨rfl, hanswer⟩ (by decide), hx,
    hbacks "x" _ hx (by decide)⟩

end Session

end Forthline
