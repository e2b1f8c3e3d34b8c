import Forthline.Proofs.Registration

/-!
# The allocator

A memory hands out cells one after another and never takes any back. Whatever is asked of it, in
whatever order and with whatever success, the ranges that it hands out lie one behind the other,
and a variable shares no cell with anything else that has a name, unless a block was put into the
heap by hand.
-/

namespace Forthline

structure Range where
  start : Int
  size : Int
deriving DecidableEq, Repr

namespace Range

def stop (r : Range) : Int := r.start + r.size

instance : Membership Int Range := ⟨fun r a => r.start ≤ a ∧ a < r.stop⟩

def Before (r s : Range) : Prop := r.stop ≤ s.start

theorem mem_iff {r : Range} {a : Int} : a ∈ r ↔ r.start ≤ a ∧ a < r.stop := Iff.rfl

theorem Before.notMem {r s : Range} (h : r.Before s) {a : Int} (ha : a ∈ r) : a ∉ s := by
  intro hs
  rw [mem_iff] at ha hs
  unfold Before at h
  omega

end Range

def Binding.range (b : Binding) : Range := ⟨b.address, b.size⟩

namespace Memory

inductive Request where
  | allot (size : Int)
  | addVariable (name : String) (size : Int)
  | addBlock (name : String) (size : Int) (start : Option Value)
  | release (name : String)
  | write (address value : Value) (size : Int)
  | read (address : Value) (size : Int)

namespace Request

def reserves : Request → Option Int
  | allot size => some size
  | addVariable _ size => some size
  | addBlock _ size none => some size
  | _ => none

def given (q : Request) : Except Cause (Option Int) → List Range
  | .ok (some start) => (q.reserves.map fun size => ⟨start, size⟩).toList
  | _ => []

theorem given_of_some {q : Request} {size : Int} (h : q.reserves = some size) (start : Int) :
    q.given (.ok (some start)) = [⟨start, size⟩] := by
  simp [given, h]

theorem given_of_none {q : Request} (h : q.reserves = none)
    (answer : Except Cause (Option Int)) : q.given answer = [] := by
  unfold given
  split
  · simp [h]
  · rfl

def Above (floor : Int) : Request → Prop
  | addBlock _ _ (some address) => ∃ a, address = .int a ∧ floor ≤ a
  | _ => True

end Request

variable {σ : Type}

def allocated (m : Memory σ) :
    Except Cause (Int × Memory σ) → Except Cause (Option Int) × Memory σ
  | .ok (address, m') => (.ok (some address), m')
  | .error c => (.error c, m)

/-- Serves a request, with the address if it is for cells. A request that fails leaves the memory as
it is. -/
def serve (m : Memory σ) : Request → Except Cause (Option Int) × Memory σ
  | .allot size => m.allocated (m.allot size)
  | .addVariable name size => m.allocated (m.addVariable name size)
  | .addBlock name size start => m.allocated (m.addBlock name size start)
  | .release name => (.ok none, m.release name)
  | .write address value size =>
    match m.write address value size with
    | .ok w => (.ok none, w.memory)
    | .error c => (.error c, m)
  | .read address size => ((m.read address size).map fun _ => none, m)

def serveAll (m : Memory σ) : List Request → List Range × Memory σ
  | [] => ([], m)
  | q :: qs =>
    let rest := (m.serve q).2.serveAll qs
    (q.given (m.serve q).1 ++ rest.1, rest.2)

theorem serveAll_append (m : Memory σ) (qs qs' : List Request) :
    m.serveAll (qs ++ qs') =
      ((m.serveAll qs).1 ++ ((m.serveAll qs).2.serveAll qs').1,
        ((m.serveAll qs).2.serveAll qs').2) := by
  induction qs generalizing m with
  | nil => rfl
  | cons q qs ih => simp only [List.cons_append, serveAll, ih, List.append_assoc]

def outline (m : Memory σ) : Memory Unit where
  size := m.size
  heapLimit := m.heapLimit
  next := m.next
  bindings := m.bindings

private theorem outline_write {m : Memory σ} {address value : Value} {size : Int} {w : Written σ}
    (h : m.write address value size = .ok w) : w.memory.outline = m.outline := by
  obtain ⟨-, cells, -, hmemory, -⟩ := write_eq h
  rw [hmemory]
  rfl

def Room (m : Memory σ) (size : Int) : Prop := 0 ≤ size ∧ m.next + size ≤ m.heapLimit

def advance (m : Memory σ) (size : Int) : Memory σ := { m with next := m.next + size }

theorem allot_cases (m : Memory σ) (size : Int) :
    m.Room size ∧ m.allot size = .ok (m.next, m.advance size) ∨
      ¬m.Room size ∧ ∃ c, m.allot size = .error c := by
  unfold allot Room
  split
  · rename_i hfull
    simp only [Bool.or_eq_true, decide_eq_true_eq] at hfull
    refine .inr ⟨by omega, ?_⟩
    cases Numeral.decimal? size with
    | none => exact ⟨_, rfl⟩
    | some _ => exact ⟨_, rfl⟩
  · rename_i hroom
    simp only [Bool.or_eq_true, decide_eq_true_eq, not_or, Int.not_lt] at hroom
    exact .inl ⟨hroom, rfl⟩

theorem addVariable_cases (m : Memory σ) (name : String) (size : Int) :
    m.Room size ∧ m.addVariable name size = .ok (m.next,
        (m.advance size).bind (Text.lower name) { address := m.next, size, kind := .variable }) ∨
      ¬m.Room size ∧ ∃ c, m.addVariable name size = .error c := by
  unfold addVariable
  rcases m.allot_cases size with ⟨hroom, h⟩ | ⟨hfull, c, h⟩
  · rw [h]
    exact .inl ⟨hroom, rfl⟩
  · rw [h]
    exact .inr ⟨hfull, c, rfl⟩

theorem addBlock_cases (m : Memory σ) (name : String) (size : Int) :
    m.Room size ∧ m.addBlock name size none = .ok (m.next,
        (m.advance size).bind name { address := m.next, size, kind := .block }) ∨
      ¬m.Room size ∧ ∃ c, m.addBlock name size none = .error c := by
  unfold addBlock
  dsimp only
  rcases m.allot_cases size with ⟨hroom, h⟩ | ⟨hfull, c, h⟩
  · rw [h]
    exact .inl ⟨hroom, rfl⟩
  · rw [h]
    exact .inr ⟨hfull, c, rfl⟩

theorem addBlock_placed (m : Memory σ) (name : String) (size : Int) (address : Value) :
    (∃ a : Nat, m.locate address size = .ok a ∧ m.addBlock name size (some address) =
        .ok ((a : Int), m.bind name { address := a, size, kind := .block })) ∨
      ∃ c, m.addBlock name size (some address) = .error c := by
  unfold addBlock
  dsimp only
  cases h : m.locate address size with
  | error c => exact .inr ⟨c, rfl⟩
  | ok a => exact .inl ⟨a, rfl, rfl⟩

/-- All that a request can do: cells are handed out, with a name or without one, a block is put at
an address, a name is forgotten, or nothing happens to names and allocator. Cells are only refused
if there is no room for them. -/
inductive Served (m : Memory σ) (q : Request) : Except Cause (Option Int) → Memory Unit → Prop where
  | allotted {size : Int} (reserves : q.reserves = some size) (room : m.Room size) :
      Served m q (.ok (some m.next)) (m.outline.advance size)
  | named {size : Int} (name : String) (kind : BlockKind) (reserves : q.reserves = some size)
      (room : m.Room size) :
      Served m q (.ok (some m.next))
        ((m.outline.advance size).bind name { address := m.next, size, kind })
  | placed {a size : Int} (name : String) (reserves : q.reserves = none)
      (above : ∀ floor, q.Above floor → floor ≤ a) :
      Served m q (.ok (some a)) (m.outline.bind name { address := a, size, kind := .block })
  | released (name : String) (reserves : q.reserves = none) :
      Served m q (.ok none) (m.outline.release name)
  | kept (reserves : q.reserves = none) : Served m q (.ok none) m.outline
  | refused (c : Cause) (full : ∀ size, q.reserves = some size → ¬m.Room size) :
      Served m q (.error c) m.outline

theorem served (m : Memory σ) (q : Request) : m.Served q (m.serve q).1 (m.serve q).2.outline := by
  have hrefused {c : Cause} {size : Int} (hsize : q.reserves = some size) (hfull : ¬m.Room size) :
      m.Served q (.error c) m.outline := by
    refine .refused c fun size' hsize' => ?_
    cases hsize.symm.trans hsize'
    exact hfull
  have hfailed {c : Cause} (hnone : q.reserves = none) : m.Served q (.error c) m.outline := by
    refine .refused c fun size hsize => ?_
    cases hnone.symm.trans hsize
  cases q with
  | allot size =>
    rcases m.allot_cases size with ⟨hroom, h⟩ | ⟨hfull, c, h⟩
    · rw [serve, h]
      exact .allotted rfl hroom
    · rw [serve, h]
      exact hrefused rfl hfull
  | addVariable name size =>
    rcases m.addVariable_cases name size with ⟨hroom, h⟩ | ⟨hfull, c, h⟩
    · rw [serve, h]
      exact .named (Text.lower name) .variable rfl hroom
    · rw [serve, h]
      exact hrefused rfl hfull
  | addBlock name size start =>
    cases start with
    | none =>
      rcases m.addBlock_cases name size with ⟨hroom, h⟩ | ⟨hfull, c, h⟩
      · rw [serve, h]
        exact .named name .block rfl hroom
      · rw [serve, h]
        exact hrefused rfl hfull
    | some address =>
      rcases m.addBlock_placed name size address with ⟨a, hlocate, h⟩ | ⟨c, h⟩
      · rw [serve, h]
        refine .placed name rfl ?_
        rintro floor ⟨a', rfl, hfloor⟩
        rwa [locate_int hlocate]
      · rw [serve, h]
        exact hfailed rfl
  | release name => exact .released name rfl
  | write address value size =>
    rw [serve]
    cases h : m.write address value size with
    | error c => exact hfailed rfl
    | ok w =>
      dsimp only
      rw [outline_write h]
      exact .kept rfl
  | read address size =>
    rw [serve]
    cases m.read address size with
    | error c => exact hfailed rfl
    | ok v => exact .kept rfl

section Served

variable {m : Memory σ} {q : Request} {answer : Except Cause (Option Int)} {m' : Memory Unit}

theorem Served.next (h : m.Served q answer m') :
    (∃ size, q.reserves = some size ∧ m.Room size ∧
        q.given answer = [⟨m.next, size⟩] ∧ m'.next = m.next + size) ∨
      (q.reserves = none ∨ ∃ c, answer = .error c) ∧ q.given answer = [] ∧ m'.next = m.next := by
  cases h with
  | @allotted size hsize hroom =>
    exact .inl ⟨size, hsize, hroom, Request.given_of_some hsize _, rfl⟩
  | @named size name kind hsize hroom =>
    exact .inl ⟨size, hsize, hroom, Request.given_of_some hsize _, rfl⟩
  | placed name hnone => exact .inr ⟨.inl hnone, Request.given_of_none hnone _, rfl⟩
  | released name hnone => exact .inr ⟨.inl hnone, Request.given_of_none hnone _, rfl⟩
  | kept hnone => exact .inr ⟨.inl hnone, Request.given_of_none hnone _, rfl⟩
  | refused c hfull => exact .inr ⟨.inr ⟨c, rfl⟩, rfl, rfl⟩

theorem Served.of_room (h : m.Served q answer m') {size : Int} (hsize : q.reserves = some size)
    (hroom : m.Room size) : answer = .ok (some m.next) ∧ m'.next = m.next + size := by
  cases h with
  | allotted hsame =>
    cases hsame.symm.trans hsize
    exact ⟨rfl, rfl⟩
  | named name kind hsame =>
    cases hsame.symm.trans hsize
    exact ⟨rfl, rfl⟩
  | placed name hnone => cases hnone.symm.trans hsize
  | released name hnone => cases hnone.symm.trans hsize
  | kept hnone => cases hnone.symm.trans hsize
  | refused c hfull => exact absurd hroom (hfull size hsize)

theorem Served.heapLimit (h : m.Served q answer m') : m'.heapLimit = m.heapLimit := by
  cases h <;> rfl

end Served

theorem serve_next (m : Memory σ) (q : Request) :
    (∃ size, q.reserves = some size ∧ m.Room size ∧
        q.given (m.serve q).1 = [⟨m.next, size⟩] ∧ (m.serve q).2.next = m.next + size) ∨
      (q.reserves = none ∨ ∃ c, (m.serve q).1 = .error c) ∧
        q.given (m.serve q).1 = [] ∧ (m.serve q).2.next = m.next :=
  (m.served q).next

theorem serve_heapLimit (m : Memory σ) (q : Request) :
    (m.serve q).2.heapLimit = m.heapLimit :=
  (m.served q).heapLimit

theorem serve_next_of_idle {m : Memory σ} {q : Request}
    (h : q.reserves = none ∨ ∃ c, (m.serve q).1 = .error c) : (m.serve q).2.next = m.next := by
  rcases m.serve_next q with ⟨size, hsize, -, hgiven, -⟩ | ⟨-, -, hnext⟩
  · rcases h with hnone | ⟨c, hc⟩
    · rw [hnone] at hsize
      cases hsize
    · rw [hc] at hgiven
      cases hgiven
  · exact hnext

theorem next_le_serve (m : Memory σ) (q : Request) : m.next ≤ (m.serve q).2.next := by
  rcases m.serve_next q with ⟨size, -, hroom, -, hnext⟩ | ⟨-, -, hnext⟩
  · have hsize := hroom.1
    omega
  · omega

theorem next_le_serveAll (m : Memory σ) (qs : List Request) :
    m.next ≤ (m.serveAll qs).2.next := by
  induction qs generalizing m with
  | nil => exact Int.le_refl _
  | cons q qs ih => exact Int.le_trans (m.next_le_serve q) (ih _)

structure Handed (m m' : Memory σ) (r : Range) : Prop where
  size : 0 ≤ r.size
  start : m.next ≤ r.start
  stop : r.stop ≤ m'.next
  limit : r.stop ≤ m.heapLimit

theorem handed_of_given {m : Memory σ} {q : Request} {r : Range}
    (h : r ∈ q.given (m.serve q).1) : m.Handed (m.serve q).2 r := by
  rcases m.serve_next q with ⟨size, -, hroom, hgiven, hnext⟩ | ⟨-, hgiven, -⟩
  · rw [hgiven, List.mem_singleton] at h
    subst h
    exact ⟨hroom.1, Int.le_refl _, Int.le_of_eq hnext.symm, hroom.2⟩
  · rw [hgiven] at h
    cases h

theorem handed_of_serveAll {m : Memory σ} {qs : List Request} {r : Range}
    (h : r ∈ (m.serveAll qs).1) : m.Handed (m.serveAll qs).2 r := by
  induction qs generalizing m with
  | nil => cases h
  | cons q qs ih =>
    rcases List.mem_append.mp h with h | h
    · have hr := handed_of_given h
      exact { hr with stop := Int.le_trans hr.stop (next_le_serveAll _ qs) }
    · have hr := ih h
      have hstart := Int.le_trans (m.next_le_serve q) hr.start
      have hlimit := hr.limit
      rw [serve_heapLimit] at hlimit
      exact ⟨hr.size, hstart, hr.stop, hlimit⟩

theorem pairwise_serveAll (m : Memory σ) (qs : List Request) :
    (m.serveAll qs).1.Pairwise Range.Before := by
  induction qs generalizing m with
  | nil => exact .nil
  | cons q qs ih =>
    refine List.pairwise_append.mpr ⟨?_, ih _, ?_⟩
    · rcases m.serve_next q with ⟨size, -, -, hgiven, -⟩ | ⟨-, hgiven, -⟩
      · rw [hgiven]
        exact List.pairwise_singleton _ _
      · rw [hgiven]
        exact .nil
    · intro r hr s hs
      exact Int.le_trans (handed_of_given hr).stop (handed_of_serveAll hs).start

/-- What has a name lies in cells that were handed out, or it is a block behind the heap. A variable
shares no cell with anything else that has a name. -/
structure Orderly (m : Memory σ) : Prop where
  bounded : ∀ name b, m.bindings.get? name = some b →
    b.range.stop ≤ m.next ∧ b.range.stop ≤ m.heapLimit ∨ b.kind = .block ∧ m.heapLimit ≤ b.address
  apart : ∀ name name' b b', name ≠ name' → m.bindings.get? name = some b → b.kind = .variable →
    m.bindings.get? name' = some b' → b.range.Before b'.range ∨ b'.range.Before b.range

namespace Orderly

variable {m : Memory σ}

theorem advance (h : m.Orderly) {size : Int} (hsize : 0 ≤ size) : (m.advance size).Orderly := by
  refine ⟨fun name b hb => ?_, h.apart⟩
  change b.range.stop ≤ m.next + size ∧ _ ∨ _
  rcases h.bounded name b hb with ⟨hnext, hlimit⟩ | hbehind
  · exact .inl ⟨by omega, hlimit⟩
  · exact .inr hbehind

theorem release (h : m.Orderly) (name : String) : (m.release name).Orderly := by
  have hold : ∀ {name' b}, (m.release name).bindings.get? name' = some b →
      m.bindings.get? name' = some b := by
    intro name' b hb
    rw [Memory.release, Table.get?_erase] at hb
    split at hb
    · cases hb
    · exact hb
  refine ⟨fun name' b hb => h.bounded name' b (hold hb), ?_⟩
  intro name₁ name₂ b₁ b₂ hne h₁ hkind h₂
  exact h.apart name₁ name₂ b₁ b₂ hne (hold h₁) hkind (hold h₂)

/-- A name can be given to cells that no variable has, and to a variable in cells that nothing
has. -/
theorem bind (h : m.Orderly) {name : String} {b : Binding}
    (hbounded : b.range.stop ≤ m.next ∧ b.range.stop ≤ m.heapLimit ∨
      b.kind = .block ∧ m.heapLimit ≤ b.address)
    (hapart : ∀ name' b', m.bindings.get? name' = some b' →
      b.kind = .variable ∨ b'.kind = .variable →
      b.range.Before b'.range ∨ b'.range.Before b.range) : (m.bind name b).Orderly := by
  have hget (name' : String) : (m.bind name b).bindings.get? name' =
      if name' = name then some b else m.bindings.get? name' :=
    Table.get?_insert _ _ _ _
  constructor
  · intro name' b' hb'
    rw [hget] at hb'
    split at hb'
    · cases hb'
      exact hbounded
    · exact h.bounded name' b' hb'
  · intro name₁ name₂ b₁ b₂ hne h₁ hkind h₂
    rw [hget] at h₁ h₂
    split at h₁ <;> split at h₂
    · rename_i heq₁ heq₂
      exact absurd (heq₁.trans heq₂.symm) hne
    · cases h₁
      exact hapart name₂ b₂ h₂ (.inl hkind)
    · cases h₂
      exact (hapart name₁ b₁ h₁ (.inr hkind)).symm
    · exact h.apart name₁ name₂ b₁ b₂ hne h₁ hkind h₂

end Orderly

theorem Served.orderly {m : Memory σ} {q : Request} {answer : Except Cause (Option Int)}
    {m' : Memory Unit} (h : m.Served q answer m') (hm : m.Orderly) (hq : q.Above m.heapLimit) :
    m'.Orderly := by
  have houtline : m.outline.Orderly := ⟨hm.bounded, hm.apart⟩
  cases h with
  | allotted _ hroom => exact houtline.advance hroom.1
  | @named size name kind _ hroom =>
    refine (houtline.advance hroom.1).bind (.inl ⟨Int.le_refl _, hroom.2⟩) ?_
    intro name' b' hb' _
    rcases hm.bounded name' b' hb' with ⟨hnext, -⟩ | ⟨-, hbehind⟩
    · exact .inr hnext
    · exact .inl (Int.le_trans hroom.2 hbehind)
  | placed name _ habove =>
    have hbehind := habove _ hq
    refine houtline.bind (.inr ⟨rfl, hbehind⟩) ?_
    rintro name' b' hb' (hkind | hkind)
    · cases hkind
    · rcases hm.bounded name' b' hb' with ⟨-, hlimit⟩ | ⟨hblock, -⟩
      · exact .inr (Int.le_trans hlimit hbehind)
      · rw [hblock] at hkind
        cases hkind
  | released name => exact houtline.release name
  | kept => exact houtline
  | refused => exact houtline

theorem orderly_serveAll {m : Memory σ} {qs : List Request} (h : m.Orderly)
    (hqs : ∀ q ∈ qs, q.Above m.heapLimit) : (m.serveAll qs).2.Orderly := by
  induction qs generalizing m with
  | nil => exact h
  | cons q qs ih =>
    obtain ⟨hq, hqs⟩ := List.forall_mem_cons.mp hqs
    have hserved := (m.served q).orderly h hq
    refine ih ⟨hserved.bounded, hserved.apart⟩ ?_
    rwa [serve_heapLimit]

theorem Served.variable {m : Memory σ} {q : Request} {answer : Except Cause (Option Int)}
    {m' : Memory Unit} (h : m.Served q answer m') {name : String} {b : Binding}
    (hb : m'.bindings.get? name = some b) (hkind : b.kind = .variable) :
    m.bindings.get? name = some b ∨ b.range ∈ q.given answer := by
  cases h with
  | allotted => exact .inl hb
  | named name' kind hsize =>
    change (m.bindings.insert _ _).get? name = some b at hb
    rw [Table.get?_insert] at hb
    split at hb
    · cases hb
      rw [Request.given_of_some hsize]
      exact .inr (List.mem_singleton.mpr rfl)
    · exact .inl hb
  | placed name' =>
    change (m.bindings.insert _ _).get? name = some b at hb
    rw [Table.get?_insert] at hb
    split at hb
    · cases hb
      cases hkind
    · exact .inl hb
  | released name' =>
    change (m.bindings.erase _).get? name = some b at hb
    rw [Table.get?_erase] at hb
    split at hb
    · cases hb
    · exact .inl hb
  | kept => exact .inl hb
  | refused => exact .inl hb

theorem variable_of_serveAll {m : Memory σ} {qs : List Request} {name : String} {b : Binding}
    (hb : (m.serveAll qs).2.bindings.get? name = some b) (hkind : b.kind = .variable) :
    m.bindings.get? name = some b ∨ b.range ∈ (m.serveAll qs).1 := by
  induction qs generalizing m with
  | nil => exact .inl hb
  | cons q qs ih =>
    rcases ih hb with hb | hb
    · rcases (m.served q).variable hb hkind with hb | hb
      · exact .inl hb
      · exact .inr (List.mem_append_left _ hb)
    · exact .inr (List.mem_append_right _ hb)

end Memory

end Forthline
