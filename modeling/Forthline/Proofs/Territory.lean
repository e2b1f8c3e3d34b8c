import Forthline.Proofs.Allocation
import Forthline.Proofs.Hosting

/-!
# Heap and ports

In a session the heap ends where the ports of devices begin. Whatever lines are read and whatever
devices come, go, or cannot be attached, all that happens to the allocator are requests for cells
below that border, and all ports lie behind it. No variable shares a cell with a port, nor with
anything else that was ever handed out.
-/

namespace Forthline

namespace Memory

variable {σ : Type} {m m' : Memory σ} {base : Memory Unit} {floor : Int}

/-- The memory came about from another one by requests that put no block below the floor. -/
def Grown (m : Memory σ) (base : Memory Unit) (floor : Int) : Prop :=
  ∃ qs, (∀ q ∈ qs, q.Above floor) ∧ (base.serveAll qs).2 = m.outline

namespace Grown

theorem refl (m : Memory σ) (floor : Int) : m.Grown m.outline floor :=
  ⟨[], List.forall_mem_nil _, rfl⟩

theorem more (h : m.Grown base floor) {q : Request} (hq : q.Above floor)
    (hm' : (m.outline.serve q).2 = m'.outline) : m'.Grown base floor := by
  obtain ⟨qs, hqs, hm⟩ := h
  refine ⟨qs ++ [q], ?_, ?_⟩
  · intro q' hq'
    rcases List.mem_append.mp hq' with hq' | hq'
    · exact hqs q' hq'
    · rw [List.mem_singleton.mp hq']
      exact hq
  · rw [serveAll_append, hm]
    exact hm'

/-- Words reserve cells, or leave all to the memory but what its cells hold. -/
theorem evolves (h : m.Grown base floor) (he : m.Evolves m') : m'.Grown base floor := by
  have houtline : m'.outline = { m.outline with next := m'.next } := by
    unfold outline
    rw [he.size, he.heapLimit, he.bindings]
  rcases he.limit with hsame | hlimit
  · rw [hsame] at houtline
    obtain ⟨qs, hqs, hm⟩ := h
    exact ⟨qs, hqs, hm.trans houtline.symm⟩
  · apply h.more (q := .allot (m'.next - m.next)) trivial
    have hnext := he.next
    have hsum : m.next + (m'.next - m.next) = m'.next := by omega
    have hroom : m.outline.Room (m'.next - m.next) :=
      ⟨by omega, by change m.next + _ ≤ m.heapLimit; omega⟩
    rcases m.outline.allot_cases (m'.next - m.next) with ⟨-, hallot⟩ | ⟨hfull, -⟩
    · rw [serve, hallot, houtline]
      change { m.outline with next := m.next + (m'.next - m.next) } = _
      rw [hsum]
    · exact absurd hroom hfull

theorem addVariable (h : m.Grown base floor) {name : String} {size a : Int}
    (hv : m.addVariable name size = .ok (a, m')) : m'.Grown base floor := by
  apply h.more (q := .addVariable name size) trivial
  rcases m.addVariable_cases name size with ⟨hroom, hm⟩ | ⟨-, c, hm⟩
  · rcases m.outline.addVariable_cases name size with ⟨-, ho⟩ | ⟨hfull, -⟩
    · rw [hm] at hv
      cases hv
      rw [serve, ho]
      rfl
    · exact absurd hroom hfull
  · rw [hm] at hv
    cases hv

theorem addBlock (h : m.Grown base floor) {name : String} {size a b : Int} (hfloor : floor ≤ a)
    (hb : m.addBlock name size (some (.int a)) = .ok (b, m')) : m'.Grown base floor := by
  apply h.more (q := .addBlock name size (some (.int a))) ⟨a, rfl, hfloor⟩
  have hlocate : m.outline.locate (.int a) size = m.locate (.int a) size := by
    simp only [locate, inRange, outline]
    cases Numeral.decimal? a <;> cases Numeral.decimal? size <;> rfl
  rcases m.addBlock_placed name size (.int a) with ⟨b', hm, hplaced⟩ | ⟨c, hm⟩
  · rcases m.outline.addBlock_at name size a with ho | ⟨c, hc, -⟩
    · rw [hplaced] at hb
      cases hb
      rw [serve, ho, ← locate_int hm]
      rfl
    · rw [hlocate, hm] at hc
      cases hc
  · rw [hm] at hb
    cases hb

theorem release (h : m.Grown base floor) (name : String) : (m.release name).Grown base floor :=
  h.more (q := .release name) trivial rfl

end Grown

end Memory

namespace Rack

variable {r : Rack} {floor : Int}

structure Above (r : Rack) (floor : Int) : Prop where
  next : floor ≤ r.next
  owners : ∀ a o, r.owners.get? a = some o → floor ≤ a

namespace Above

theorem place (h : r.Above floor) (device : String) (p : Port) {address : Int}
    (haddress : floor ≤ address) : (r.place device p address).Above floor := by
  constructor
  · change floor ≤ r.next + p.size
    have hnext := h.next
    omega
  · intro a o ho
    rw [owners_place] at ho
    split at ho
    · omega
    · exact h.owners a o ho

theorem displace (h : r.Above floor) (p : Port) (address : Int) :
    (r.displace p address).Above floor := by
  refine ⟨h.next, fun a o ho => ?_⟩
  rw [owners_displace] at ho
  split at ho
  · cases ho
  · exact h.owners a o ho

theorem lookup (h : r.Above floor) {device port : String} {a : Int} {p : Port}
    (hfound : r.lookup device port = .ok (a, p)) : floor ≤ a := by
  unfold Rack.lookup at hfound
  split at hfound
  · cases hfound
  · split at hfound
    · rename_i howner
      cases hfound
      exact h.owners _ _ howner
    · cases hfound

end Above

end Rack

structure Machine.Parted (base : Memory Unit) (floor : Int) (m : Machine) : Prop where
  memory : m.memory.Grown base floor
  rack : m.rack.Above floor

namespace Run

variable {base : Memory Unit} {floor : Int}

theorem parted_invariant : Invariant (Machine.Parted base floor) where
  work := fun _ _ h hw => ⟨h.memory.evolves hw.memory, h.rack⟩
  learn := fun _ _ _ _ _ h _ => ⟨h.memory, h.rack⟩
  declare := fun _ _ _ _ h hv => ⟨h.memory.addVariable hv, h.rack⟩
  wake := fun _ _ h _ => ⟨h.memory, h.rack⟩
  pause := fun _ h => ⟨h.memory, h.rack⟩
  hold := fun _ h => ⟨h.memory, h.rack⟩
  await := fun _ h => ⟨h.memory, h.rack⟩
  touch := fun _ h => ⟨h.memory, h.rack⟩
  sleep := fun _ _ h => ⟨h.memory, h.rack⟩
  record := fun _ _ h => ⟨h.memory, h.rack⟩
  rest := fun _ _ _ _ _ _ _ _ h => ⟨h.memory, h.rack⟩

theorem parted_persists : Persists (Machine.Parted base floor) where
  carries := parted_invariant.carries
  heeds := parted_invariant.respects.heeds
  reads := parted_invariant.reads
  aside := by
    intro m n hm h
    have hmemory : n.memory = m.memory := congrArg Estate.memory h
    have hrack : n.rack = m.rack := congrArg Estate.rack h
    constructor
    · rw [hmemory]
      exact hm.memory
    · rw [hrack]
      exact hm.rack
  drop := fun _ hm => ⟨hm.memory, hm.rack⟩
  wake := fun _ _ hm _ => ⟨hm.memory, hm.rack⟩
  fire := fun _ _ _ hm _ => ⟨hm.memory, hm.rack⟩

theorem parted_hosts : Hosts (Machine.Parted base floor) where
  persists := parted_persists
  abides := parted_invariant.respects.toAbides
  place := by
    intro m p a device hm ha
    refine ⟨?_, hm.rack.place device p hm.rack.next⟩
    rcases m.memory.addBlock_at (Rack.blockName device p.name) p.size m.rack.next with
      h | ⟨c, hc, -⟩
    · exact hm.memory.addBlock hm.rack.next h
    · rw [ha] at hc
      cases hc
  displace := fun _ _ p address hm => ⟨hm.memory.release _, hm.rack.displace p address⟩
  enroll := fun _ _ _ _ _ _ hm => ⟨hm.memory, hm.rack.next, hm.rack.owners⟩
  lower := fun _ _ hm hn => ⟨hn.memory, hm.rack.next, hn.rack.owners⟩

end Run

namespace Session

/-- What a host can do to a session: call it, attach and detach devices, and have them act. What
does not come to an end counts as far as it came. -/
inductive Leads (m : Machine) : Machine → Prop where
  | refl : Leads m m
  | call {n : Machine} (fuel : Nat) (call : Call) : Leads m n → Leads m ((call.run fuel).on n).2
  | attach {n : Machine} (fuel : Nat) (o : Offer) : Leads m n →
      Leads m ((Run.attach fuel o).on n).2
  | detach {n : Machine} (fuel : Nat) (device : String) : Leads m n →
      Leads m ((Run.detach fuel device).on n).2
  | act {n : Machine} (fuel : Nat) (device : String) (action : PortAction) : Leads m n →
      Leads m ((Run.actOn fuel device action).on n).2

theorem Leads.parted {m n : Machine} (h : Leads m n) {base : Memory Unit} {floor : Int}
    (hm : m.Parted base floor) : n.Parted base floor := by
  induction h with
  | refl => exact hm
  | call fuel call _ ih => exact (Run.parted_hosts.call fuel call).on ih
  | attach fuel o _ ih => exact (Run.parted_hosts.attach fuel o).on ih
  | detach fuel device _ ih => exact (Run.parted_hosts.detach fuel device).on ih
  | act fuel device action _ ih => exact (Run.parted_hosts.actOn fuel device action).on ih

def freeHeap (c : Config) : Memory Unit where
  size := c.memorySize
  heapLimit := c.deviceBase
  next := c.heapStart

theorem parted_start {fuel : Nat} {c : Config} {m : Machine}
    (h : start fuel c = .ok m) : m.Parted (freeHeap c) c.deviceBase := by
  obtain ⟨threshold, hload⟩ := load_of_start h
  have hblank : (blank c threshold).Parted (freeHeap c) c.deviceBase :=
    ⟨.refl _ _, Int.le_refl _, nofun⟩
  have hloaded := (Run.load_keeps Run.parted_persists fuel c.loadLibrary).on hblank
  rwa [hload] at hloaded

structure Divided (c : Config) (ranges : List Range) (m : Machine) : Prop where
  ordered : ranges.Pairwise Range.Before
  inHeap : ∀ r ∈ ranges, 0 ≤ r.size ∧ c.heapStart ≤ r.start ∧ r.stop ≤ c.deviceBase
  /-- A variable has one of the ranges, and shares no cell with anything else that has a name. -/
  owned : ∀ name b, m.memory.bindings.get? name = some b → b.kind = .variable →
    b.range ∈ ranges
  apart : ∀ name name' b b', name ≠ name' → m.memory.bindings.get? name = some b →
    b.kind = .variable → m.memory.bindings.get? name' = some b' → ∀ a ∈ b.range, a ∉ b'.range
  owners : ∀ a o, m.rack.owners.get? a = some o → c.deviceBase ≤ a
  ports : ∀ device port a p, m.rack.lookup device port = .ok (a, p) → c.deviceBase ≤ a

private theorem divided_of_parted {c : Config} {m : Machine} {qs : List Memory.Request}
    (hqs : ∀ q ∈ qs, q.Above c.deviceBase) (hm : ((freeHeap c).serveAll qs).2 = m.memory.outline)
    (hrack : m.rack.Above c.deviceBase) : Divided c ((freeHeap c).serveAll qs).1 m := by
  have hfree : (freeHeap c).Orderly := ⟨nofun, nofun⟩
  have horderly := Memory.orderly_serveAll hfree hqs
  have hbindings : ((freeHeap c).serveAll qs).2.bindings = m.memory.bindings :=
    congrArg Memory.bindings hm
  refine ⟨Memory.pairwise_serveAll _ _, ?_, ?_, ?_, hrack.owners, fun _ _ _ _ => hrack.lookup⟩
  · intro r hr
    have hhanded := Memory.handed_of_serveAll hr
    exact ⟨hhanded.size, hhanded.start, hhanded.limit⟩
  · intro name b hb hkind
    rw [← hbindings] at hb
    rcases Memory.variable_of_serveAll hb hkind with hold | hnew
    · cases hold
    · exact hnew
  · intro name name' b b' hne hb hkind hb' a ha ha'
    rw [← hbindings] at hb hb'
    rcases horderly.apart name name' b b' hne hb hkind hb' with hbefore | hbehind
    · exact hbefore.notMem ha ha'
    · exact hbehind.notMem ha' ha

/-- The allocator only moves forward: a request for cells gets the next ones if there is room for
them, and nothing else moves it. So the ranges that are handed out lie one behind the other, and no
variable of a session shares a cell with another range that was ever handed out, with anything else
that has a name, or with a port of a device. -/
theorem variables_share_no_cell :
    (∀ {σ : Type} (m : Memory σ) (qs qs' : List Memory.Request),
      (m.serveAll qs).2.next ≤ (m.serveAll (qs ++ qs')).2.next ∧
      (m.serveAll qs).1.Pairwise Range.Before ∧
      (∀ r ∈ (m.serveAll qs).1, 0 ≤ r.size ∧ m.next ≤ r.start ∧ r.stop ≤ m.heapLimit) ∧
      (∀ q size, q.reserves = some size → (m.serveAll qs).2.Room size →
        ((m.serveAll qs).2.serve q).1 = .ok (some (m.serveAll qs).2.next) ∧
        ((m.serveAll qs).2.serve q).2.next = (m.serveAll qs).2.next + size) ∧
      ∀ q, q.reserves = none ∨ (∃ c, ((m.serveAll qs).2.serve q).1 = .error c) →
        ((m.serveAll qs).2.serve q).2.next = (m.serveAll qs).2.next) ∧
    ∀ {fuel : Nat} {c : Config} {m₀ m m' : Machine}, start fuel c = .ok m₀ → Leads m₀ m →
      Leads m m' → ∃ qs qs',
        ((freeHeap c).serveAll qs).2 = m.memory.outline ∧
        (m.memory.outline.serveAll qs').2 = m'.memory.outline ∧
        Divided c ((freeHeap c).serveAll qs).1 m ∧
        Divided c (((freeHeap c).serveAll qs).1 ++ (m.memory.outline.serveAll qs').1) m' ∧
        ∀ name b, m'.memory.bindings.get? name = some b → b.kind = .variable →
          m.memory.bindings.get? name = some b ∨ b.range ∈ (m.memory.outline.serveAll qs').1 := by
  constructor
  · intro σ m qs qs'
    refine ⟨?_, Memory.pairwise_serveAll m qs, ?_, fun q size => (Memory.served _ q).of_room,
      fun q => Memory.serve_next_of_idle⟩
    · rw [Memory.serveAll_append]
      exact Memory.next_le_serveAll _ qs'
    · intro r hr
      have hhanded := Memory.handed_of_serveAll hr
      exact ⟨hhanded.size, hhanded.start, hhanded.limit⟩
  · intro fuel c m₀ m m' hstart hm hm'
    have hparted := hm.parted (parted_start hstart)
    obtain ⟨qs, hqs, hserved⟩ := hparted.memory
    have hparted' := hm'.parted ⟨.refl m.memory c.deviceBase, hparted.rack⟩
    obtain ⟨qs', hqs', hserved'⟩ := hparted'.memory
    have hall := (freeHeap c).serveAll_append qs qs'
    rw [hserved] at hall
    have hdivided : Divided c ((freeHeap c).serveAll (qs ++ qs')).1 m' := by
      refine divided_of_parted ?_ (by rw [hall]; exact hserved') hparted'.rack
      intro q hq
      rcases List.mem_append.mp hq with hq | hq
      · exact hqs q hq
      · exact hqs' q hq
    rw [hall] at hdivided
    refine ⟨qs, qs', hserved, hserved', divided_of_parted hqs hserved hparted.rack, hdivided, ?_⟩
    intro name b hb hkind
    rw [show m'.memory.bindings = m'.memory.outline.bindings from rfl, ← hserved'] at hb
    exact Memory.variable_of_serveAll hb hkind

private def lamp : Offer := { name := some "lamp", ports := some [.port "light" 2 "readwrite" ""] }

private def furnished : Machine :=
  ((Run.attach 100 lamp).on (((Call.readLine "variable x 3 allot").run 100).on builtin).2).2

private def extended : Machine := (((Call.readLine "variable y").run 100).on furnished).2

/-- The cells of a variable and those handed out behind it are not given to the next one. -/
theorem extended_shares_no_cell :
    start 100 { loadLibrary := false } = .ok builtin ∧ Leads builtin furnished ∧
    Leads furnished extended ∧
    (furnished.memory.bindings.get? "x").map Binding.range = some ⟨1000, 1⟩ ∧
    (extended.memory.bindings.get? "y").map Binding.range = some ⟨1004, 1⟩ ∧
    (extended.rack.owners.get? 0x1001).isSome ∧
    ∃ ranges, Divided { loadLibrary := false } ranges extended ∧ ⟨1000, 1⟩ ∈ ranges ∧
      ⟨1004, 1⟩ ∈ ranges := by
  have hfurnished : Leads builtin furnished :=
    .attach 100 lamp (.call 100 (.readLine "variable x 3 allot") .refl)
  have hextended : Leads furnished extended := .call 100 (.readLine "variable y") .refl
  have hx : furnished.memory.bindings.get? "x" = some ⟨1000, 1, .variable⟩ := by decide +kernel
  have hy : extended.memory.bindings.get? "y" = some ⟨1004, 1, .variable⟩ := by decide +kernel
  have howner : (extended.rack.owners.get? 0x1001).isSome = true := by decide +kernel
  obtain ⟨qs, qs', -, -, hbefore, hafter, -⟩ :=
    variables_share_no_cell.2 builtin_start hfurnished hextended
  refine ⟨builtin_start, hfurnished, hextended, by rw [hx]; rfl, by rw [hy]; rfl, howner,
    _, hafter, ?_, hafter.owned "y" _ hy rfl⟩
  exact List.mem_append_left _ (hbefore.owned "x" _ hx rfl)

end Session

end Forthline
