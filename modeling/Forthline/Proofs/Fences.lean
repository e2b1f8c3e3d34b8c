import Forthline.Proofs.Layout

/-!
# Fenced cells

A rack fences off cells if whatever the language writes goes elsewhere: the owner of each of them
refuses a store, no port that can be set reaches one of them, and the allocator ends before them.
As long as no subscriber updates a port on its own account, lines and keys leave such cells as
they are.
-/

namespace Forthline

mutual

/-- Whether an action, or one of a subscriber that it brings in, updates a port without regard to
its access. -/
def PortAction.updates : PortAction → Bool
  | .update .. => true
  | .subscribe _ _ actions => anyUpdates actions
  | _ => false

def anyUpdates : List PortAction → Bool
  | [] => false
  | a :: as => a.updates || anyUpdates as

end

/-- Whether no subscriber that the action brings in updates a port. The action itself may. -/
def PortAction.mild : PortAction → Bool
  | .subscribe _ _ actions => !anyUpdates actions
  | _ => true

theorem updates_of_mem {a : PortAction} {as : List PortAction} (h : anyUpdates as = false)
    (ha : a ∈ as) : a.updates = false := by
  induction as with
  | nil => cases ha
  | cons b as ih =>
    obtain ⟨hb, has⟩ := Bool.or_eq_false_iff.mp h
    rcases List.mem_cons.mp ha with rfl | ha
    · exact hb
    · exact ih has ha

theorem PortAction.mild_of_updates {a : PortAction} (h : a.updates = false) : a.mild = true := by
  cases a with
  | subscribe port label actions =>
    have hactions : anyUpdates actions = false := h
    simp [mild, hactions]
  | _ => rfl

namespace Memory

section Cells

variable {σ : Type}

@[simp] theorem cell_setCell (m : Memory σ) (a : Nat) (v : Value) (i : Nat) :
    (m.setCell a v).cell i = if i = a then v else m.cell i := by
  by_cases h : i = a
  · simp [cell, setCell, h]
  · simp [cell, setCell, h, Std.TreeMap.getD_insert, Ne.symm h]

theorem cell_congr {m m' : Memory σ} (h : m'.cells = m.cells) (i : Nat) :
    m'.cell i = m.cell i := by
  rw [cell, h]
  rfl

theorem cell_setCells {m : Memory σ} {a i : Nat} {ns : List Int}
    (h : ¬(a ≤ i ∧ i < a + ns.length)) : (m.setCells a ns).cell i = m.cell i := by
  induction ns generalizing m a with
  | nil => rfl
  | cons n ns ih =>
    have hlength : (n :: ns).length = ns.length + 1 := rfl
    have hne : i ≠ a := by omega
    rw [setCells, ih (by omega), cell_setCell, if_neg hne]

theorem length_splitBytes (n : Int) (count : Nat) : (splitBytes n count).length = count := by
  induction count generalizing n with
  | zero => rfl
  | succ count ih => simp [splitBytes, ih]

theorem toInt?_of_locate {m : Memory σ} {address : Value} {size : Int} {a : Nat}
    (h : m.locate address size = .ok a) : address.toInt? = some (a : Int) := by
  cases address with
  | int n => exact congrArg some (locate_int h).symm
  | real x =>
    simp only [locate] at h
    split at h
    · next n hn =>
      have hlocate : m.locate (.int n) size = .ok a := h
      change x.toInt? = _
      rw [hn, locate_int hlocate]
    · cases h
  | text s => cases h
  | truth b => cases b <;> cases h
  | nothing => cases h

theorem cell_write {m : Memory σ} {address value : Value} {size : Int} {w : Written σ}
    (h : m.write address value size = .ok w) :
    ∃ a, m.locate address size = .ok a ∧
      ∀ i, ¬(a ≤ i ∧ i < a + max 1 size.toNat) → w.memory.cell i = m.cell i := by
  obtain ⟨a, ha, h⟩ := except_bind_eq_ok.mp h
  refine ⟨a, ha, ?_⟩
  intro i hi
  split at h
  · obtain ⟨n, -, h⟩ := except_bind_eq_ok.mp h
    cases h
    apply cell_setCells
    rw [length_splitBytes]
    omega
  · split at h
    · cases h
      have hne : i ≠ a := by omega
      rw [cell_setCell, if_neg hne]
    · cases h

end Cells

/-- The allocator ends at the floor, keys are stored below it, and no subscriber updates a port. -/
structure Calm (m : Memory Subscription) (floor : Int) : Prop where
  heapLimit : m.heapLimit = floor
  lastKey : ∀ a, m.addressOf? "last-key" = some a → a < floor
  watchers : ∀ w ∈ m.watchers, anyUpdates w.2.actions = false

theorem Calm.evolves {m m' : Memory Subscription} {floor : Int} (h : m.Calm floor)
    (hm : m.Evolves m') (hwatchers : ∀ w ∈ m'.watchers, anyUpdates w.2.actions = false) :
    m'.Calm floor where
  heapLimit := hm.heapLimit.trans h.heapLimit
  lastKey := by
    intro a ha
    rw [addressOf?, hm.bindings] at ha
    exact h.lastKey a ha
  watchers := hwatchers

theorem Calm.bind {m : Memory Subscription} {floor : Int} (h : m.Calm floor) {name : String}
    {b : Binding} (hb : name = Text.lower "last-key" → b.address < floor) :
    (m.bind name b).Calm floor := by
  refine ⟨h.heapLimit, ?_, h.watchers⟩
  intro a ha
  rw [addressOf?, Memory.bind, Table.get?_insert] at ha
  split at ha
  · rename_i hname
    cases ha
    exact hb hname.symm
  · exact h.lastKey a ha

theorem Calm.addVariable {m m' : Memory Subscription} {floor : Int} (h : m.Calm floor)
    {name : String} {a : Int} (hm : m.addVariable name 1 = .ok (a, m')) : m'.Calm floor := by
  obtain ⟨⟨a', m₁⟩, hallot, hbind⟩ := except_bind_eq_ok.mp hm
  cases hbind
  have hspares := spares_allot hallot
  have hcalm : m₁.Calm floor := by
    refine h.evolves (evolves_allot hallot) ?_
    rw [hspares.2]
    exact h.watchers
  have hlimit : a < floor := by
    unfold allot at hallot
    split at hallot
    · split at hallot <;> cases hallot
    · rename_i hfits
      cases hallot
      simp only [Bool.or_eq_true, decide_eq_true_eq, not_or, Int.not_lt] at hfits
      have hfloor := h.heapLimit
      omega
  exact hcalm.bind fun _ => hlimit

end Memory

/-- What the language writes, with this rack, goes around the fence. -/
structure Rack.Fences (r : Rack) (floor : Int) (fence : Nat → Prop) : Prop where
  owned : ∀ i, fence i → ∃ o, r.owners.get? i = some o ∧ o.port.access = .read
  ports : ∀ device name address p, r.lookup device name = .ok (address, p) →
    p.access ≠ .read → ∀ i : Nat, fence i → ¬(address ≤ i ∧ i < address + max 1 p.size)
  above : ∀ i, fence i → floor ≤ i

structure Machine.Fenced (r : Rack) (floor : Int) (fence : Nat → Prop) (held : Nat → Value)
    (m : Machine) : Prop where
  rack : m.rack = r
  calm : m.memory.Calm floor
  cells : ∀ i, fence i → m.memory.cell i = held i

theorem Machine.Fenced.ground {r : Rack} {floor : Int} {fence : Nat → Prop} {held : Nat → Value}
    {m n : Machine} (h : m.Fenced r floor fence held) (hmemory : n.memory = m.memory)
    (hrack : n.rack = m.rack) : n.Fenced r floor fence held where
  rack := hrack.trans h.rack
  calm := by
    rw [hmemory]
    exact h.calm
  cells := by
    rw [hmemory]
    exact h.cells

theorem Machine.Fenced.calmed {r : Rack} {floor : Int} {fence : Nat → Prop} {held : Nat → Value}
    {m n : Machine} (h : m.Fenced r floor fence held) (hrack : n.rack = m.rack)
    (hcalm : n.memory.Calm floor) (hcells : n.memory.cells = m.memory.cells) :
    n.Fenced r floor fence held where
  rack := hrack.trans h.rack
  calm := hcalm
  cells := by
    intro i hi
    rw [← h.cells i hi, Memory.cell_congr hcells]

namespace Run

section Fences

variable {r : Rack} {floor : Int} {fence : Nat → Prop} {held : Nat → Value}

theorem store_fenced {act : Nat → PortAction → Run PortAnswer}
    (hact : ∀ number a, a.updates = false →
      Keeps (Machine.Fenced r floor fence held) (act number a))
    {address value : Value} {size : Int} {m : Machine} (hm : m.Fenced r floor fence held)
    (hout : ∀ a, m.memory.locate address size = .ok a → ∀ i, fence i →
      ¬(a ≤ i ∧ i < a + max 1 size.toNat)) :
    ((store act address value size).on m).2.Fenced r floor fence held := by
  rw [store, on_get_bind]
  cases hw : m.memory.write address value size with
  | error c => exact hm
  | ok w =>
    obtain ⟨hkept, htold⟩ := Memory.watchers_write hw
    obtain ⟨a, ha, hcells⟩ := Memory.cell_write hw
    have hset : Machine.Fenced r floor fence held { m with memory := w.memory } := by
      refine ⟨hm.rack, hm.calm.evolves (Memory.evolves_write hw) ?_, ?_⟩
      · rw [hkept]
        exact hm.calm.watchers
      · intro i hi
        exact (hcells i (hout a ha i hi)).trans (hm.cells i hi)
    have htell : Keeps (Machine.Fenced r floor fence held) (w.watchers.forM fun s => do
        emit (.port s.label w.value size)
        s.actions.forM fun a => discard (act s.binding a)) := by
      apply Matches.forM_of_mem
      intro s hs
      obtain ⟨b, hb⟩ := htold s hs
      have hsilent : anyUpdates s.actions = false := hm.calm.watchers _ hb
      refine (Keeps.modify fun n hn => hn.ground rfl rfl).bind fun _ => ?_
      apply Matches.forM_of_mem
      intro a ha
      exact (hact s.binding a (updates_of_mem hsilent ha)).discard
    exact htell.on hset

theorem setPort_fenced (hr : r.Fences floor fence) {act : Nat → PortAction → Run PortAnswer}
    (hact : ∀ number a, a.updates = false →
      Keeps (Machine.Fenced r floor fence held) (act number a))
    (device port : String) (value : Value) :
    Keeps (Machine.Fenced r floor fence held) (setPort act device port value) := by
  apply Keeps.of_on
  intro m hm
  rw [setPort, on_get_bind]
  cases hlookup : m.rack.lookup device port with
  | error c => exact hm
  | ok found =>
    obtain ⟨address, p⟩ := found
    rw [on_bind_ok (on_lift_ok _ _)]
    dsimp only
    by_cases hread : p.access = .read
    · rw [if_pos hread]
      exact hm
    · rw [if_neg hread]
      apply store_fenced hact hm
      intro a ha i hi hin
      rw [hm.rack] at hlookup
      have hstart := Memory.locate_int ha
      apply hr.ports device port address p hlookup hread i hi
      omega

theorem updatePort_fenced (hempty : ∀ i, ¬fence i) {act : Nat → PortAction → Run PortAnswer}
    (hact : ∀ number a, a.updates = false →
      Keeps (Machine.Fenced r floor fence held) (act number a))
    (device port : String) (value : Value) :
    Keeps (Machine.Fenced r floor fence held) (updatePort act device port value) := by
  apply Keeps.of_on
  intro m hm
  rw [updatePort, on_get_bind]
  cases m.rack.lookup device port with
  | error c => exact hm
  | ok found =>
    apply store_fenced hact hm
    intro a _ i hi
    exact absurd hi (hempty i)

theorem subscribe_fenced (number : Nat) (b : PortBinding) (port label : String)
    {actions : List PortAction} (hactions : anyUpdates actions = false) :
    Keeps (Machine.Fenced r floor fence held) (subscribe number b port label actions) := by
  apply Keeps.of_on
  intro m hm
  rcases subscribe_cases number b port label actions m with ⟨c, hon⟩ | ⟨a, hon⟩
  · rw [hon]
    exact hm
  · rw [hon]
    refine ⟨hm.rack, hm.calm.evolves ⟨rfl, rfl, rfl, Int.le_refl _, .inl rfl⟩ ?_, hm.cells⟩
    intro w hw
    rcases List.mem_append.mp hw with hw | hw
    · exact hm.calm.watchers w hw
    · rw [List.mem_singleton.mp hw]
      exact hactions

theorem cells_unwatch_all [BEq σ] (ws : List (Nat × σ)) (m : Memory σ) :
    (ws.foldl (fun memory (a, s) => memory.unwatch a s) m).cells = m.cells := by
  induction ws generalizing m with
  | nil => rfl
  | cons w ws ih => exact ih (m.unwatch w.1 w.2)

theorem closeBinding_fenced (number : Nat) :
    Keeps (Machine.Fenced r floor fence held) (closeBinding number) := by
  apply Keeps.of_on
  intro m hm
  rw [closeBinding, on_get_bind]
  cases m.bindings[number]? with
  | none => exact hm
  | some b =>
    have hevolves := Memory.evolves_unwatch_all b.subscriptions m.memory
    have hcells := cells_unwatch_all b.subscriptions m.memory
    refine hm.calmed rfl (hm.calm.evolves hevolves ?_) hcells
    intro w hw
    exact hm.calm.watchers w (Memory.mem_of_unwatch_all b.subscriptions m.memory hw)

/-- What a device does through its binding. It may update a port itself only where nothing is
behind the fence. -/
theorem perform_fenced (hr : r.Fences floor fence) {reader : String → Run PortAnswer}
    (hreader : ∀ text, Keeps (Machine.Fenced r floor fence held) (reader text))
    (depth number : Nat) {action : PortAction} (hmild : action.mild = true)
    (hupdate : action.updates = true → ∀ i, ¬fence i) :
    Keeps (Machine.Fenced r floor fence held) (perform reader depth number action) := by
  induction depth generalizing number action with
  | zero => exact Matches.fail _
  | succ depth ih =>
    have hact (number : Nat) (a : PortAction) (ha : a.updates = false) :
        Keeps (Machine.Fenced r floor fence held) (perform reader depth number a) := by
      apply ih
      · exact PortAction.mild_of_updates ha
      · simp [ha]
    refine Keeps.get_bind fun m hm => ?_
    cases m.bindings[number]? with
    | none => exact Matches.pure _
    | some b =>
      cases action with
      | set port value =>
        exact (setPort_fenced hr hact b.device port value).bind fun _ => Matches.pure _
      | update port value =>
        have hempty := hupdate rfl
        exact (updatePort_fenced hempty hact b.device port value).bind fun _ => Matches.pure _
      | get port =>
        refine Matches.map _ (Keeps.get_bind fun m _ => ?_)
        exact (Matches.lift _).bind fun _ => Matches.lift _
      | address port =>
        exact Keeps.get_bind fun m _ => (Matches.lift _).bind fun _ => Matches.pure _
      | subscribe port label actions =>
        have hactions : anyUpdates actions = false := by simpa [PortAction.mild] using hmild
        exact (subscribe_fenced number b port label hactions).bind fun _ => Matches.pure _
      | line text => exact hreader text
      | close => exact (closeBinding_fenced number).bind fun _ => Matches.pure _
      | fail message => exact Matches.fail _

theorem fenced_grounded : Grounded (Machine.Fenced r floor fence held) where
  ground := fun _ _ h hmemory hrack => h.ground hmemory hrack
  spare := by
    intro m w hm hw
    have hwatchers : w.memory.watchers = m.memory.watchers := hw.watchers
    refine hm.calmed rfl (hm.calm.evolves hw.memory ?_) hw.cells
    change ∀ x ∈ w.memory.watchers, anyUpdates x.2.actions = false
    rw [hwatchers]
    exact hm.calm.watchers
  declare := by
    intro m name a memory hm hdeclared
    obtain ⟨⟨a', memory'⟩, hallot, hbind⟩ := except_bind_eq_ok.mp hdeclared
    cases hbind
    exact hm.calmed rfl (hm.calm.addVariable hdeclared) (Memory.spares_allot hallot).1

section Words

variable (hr : r.Fences floor fence)

include hr

private theorem withinLine_fenced (number : Nat) (a : PortAction) (ha : a.updates = false) :
    Keeps (Machine.Fenced r floor fence held) (withinLine number a) := by
  apply perform_fenced hr (fun _ => Matches.fail _)
  · exact PortAction.mild_of_updates ha
  · simp [ha]

private theorem store_checked {address : Value} {m : Machine} (hm : m.Fenced r floor fence held)
    (hcheck : m.rack.checkWrite address = .ok ()) (value : Value) :
    ((store withinLine address value 1).on m).2.Fenced r floor fence held := by
  apply store_fenced (withinLine_fenced hr) hm
  intro a ha i hi hin
  have hsame : i = a := by
    simp at hin
    omega
  subst hsame
  obtain ⟨o, howner, hread⟩ := hr.owned i hi
  rw [hm.rack] at hcheck
  simp only [Rack.checkWrite, Rack.ownerOf?, Memory.toInt?_of_locate ha, Option.bind_some,
    howner, hread, if_true] at hcheck
  cases hcheck

theorem storeKey_fenced {act : Nat → PortAction → Run PortAnswer}
    (hact : ∀ number a, a.updates = false →
      Keeps (Machine.Fenced r floor fence held) (act number a))
    {m : Machine} (hm : m.Fenced r floor fence held) {address : Int}
    (haddress : m.memory.addressOf? "last-key" = some address) (key : Value) :
    ((store act (.int address) key 1).on m).2.Fenced r floor fence held := by
  apply store_fenced hact hm
  intro a ha i hi hin
  have hbelow := hm.calm.lastKey address haddress
  have habove := hr.above i hi
  have hstart := Memory.locate_int ha
  simp at hin
  omega

private theorem writingTask_fenced (t : Task) (ht : t.writes = true) :
    Keeps (Machine.Fenced r floor fence held) (task t) := by
  have hI : Heeds (Itself (Machine.Fenced r floor fence held)) := fenced_grounded.heeds
  cases t with
  | store =>
    refine (pop_matches hI).bind fun address => (pop_matches hI).bind fun value => ?_
    apply Keeps.of_on
    intro m hm
    rw [on_get_bind]
    cases hcheck : m.rack.checkWrite address with
    | error c => exact hm
    | ok _ => exact store_checked hr hm hcheck value
  | bumpPort device port =>
    refine (bound_matches device).bind fun d => (portValue_matches hI d port).bind fun v => ?_
    exact (Matches.lift _).bind fun _ => setPort_fenced hr (withinLine_fenced hr) _ _ _
  | storePort device port =>
    refine (pop_matches hI).bind fun v => (bound_matches device).bind fun d => ?_
    exact setPort_fenced hr (withinLine_fenced hr) _ _ _
  | sendKey =>
    refine (pop_matches hI).bind fun key => ?_
    apply deliverKey_bind_matches hI
    · rintro m _ a ⟨rfl, hm⟩ ha
      exact ⟨rfl, rfl, storeKey_fenced hr (withinLine_fenced hr) hm ha key⟩
    · exact Matches.pure _
    · rintro m _ c ⟨rfl, hm⟩ -
      refine ⟨rfl, rfl, ?_⟩
      have hkeyed : (m.keyed key).Fenced r floor fence held := hm.ground rfl rfl
      cases hs : (m.keyed key).spent.contains c with
      | true =>
        dsimp only
        rw [wake_of_spent hs]
        exact hkeyed
      | false =>
        dsimp only
        rw [wake_of_fresh hs]
        exact hkeyed.ground rfl rfl
  | _ => cases ht

theorem fenced_persists : Persists (Machine.Fenced r floor fence held) :=
  fenced_grounded.persists (writingTask_fenced hr)

theorem betweenLines_fenced (fuel number : Nat) {action : PortAction} (hmild : action.mild = true)
    (hupdate : action.updates = true → ∀ i, ¬fence i) :
    Keeps (Machine.Fenced r floor fence held) (betweenLines fuel number action) :=
  perform_fenced hr (fun text => (readLine_keeps (fenced_persists hr).lasts fuel text).map _)
    nestingLimit number hmild hupdate

private theorem betweenLines_silent (fuel number : Nat) (a : PortAction) (ha : a.updates = false) :
    Keeps (Machine.Fenced r floor fence held) (betweenLines fuel number a) := by
  apply betweenLines_fenced hr fuel number (PortAction.mild_of_updates ha)
  simp [ha]

/-- Whatever the host asks of the session leaves the fence, unless it writes to memory itself. -/
theorem call_fenced (fuel : Nat) {call : Session.Call}
    (hpoke : ∀ address value size, call = .poke address value size → ∀ i, ¬fence i) :
    Keeps (Machine.Fenced r floor fence held) (call.run fuel) := by
  apply Session.Call.keeps_of (fenced_persists hr) fuel
  · intro key m a _ hm ha
    exact storeKey_fenced hr (betweenLines_silent hr fuel) hm ha key
  · intro address value size hcall
    apply Keeps.of_on
    intro m hm
    apply store_fenced (betweenLines_silent hr fuel) hm
    intro a _ i hi
    exact absurd hi (hpoke address value size hcall i)

end Words

end Fences

end Run

end Forthline
