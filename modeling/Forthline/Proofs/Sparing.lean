import Forthline.Proofs.Housing
import Forthline.Proofs.ReadOnly

/-!
# What subscribers spare

Subscribers act when a cell is written, and may write to ports of their device themselves. While a
line runs they cannot do more, so a region in which none of these ports has a cell is left as the
write itself made it.
-/

namespace Forthline

mutual

def PortAction.targets : PortAction → List String
  | .set port _ => [port]
  | .update port _ => [port]
  | .subscribe _ _ actions => allTargets actions
  | _ => []

def allTargets : List PortAction → List String
  | [] => []
  | a :: as => a.targets ++ allTargets as

end

theorem mem_allTargets {a : PortAction} {as : List PortAction} (ha : a ∈ as) {port : String}
    (h : port ∈ a.targets) : port ∈ allTargets as := by
  induction as with
  | nil => cases ha
  | cons b as ih =>
    rcases List.mem_cons.mp ha with rfl | ha
    · exact List.mem_append_left _ h
    · exact List.mem_append_right _ (ih ha)

namespace Machine

variable {m n : Machine} {region : Nat → Prop} {held : Nat → Value}

def Clear (m : Machine) (region : Nat → Prop) (binding : Nat) (ports : List String) : Prop :=
  ∀ b, m.bindings[binding]? = some b → ∀ port ∈ ports, ∀ start p,
    m.rack.lookup b.device port = .ok (start, p) →
      ∀ i : Nat, region i → ¬(start ≤ i ∧ i < start + max 1 p.size)

/-- No subscriber writes to the region, nor has others write there. -/
def Spares (m : Machine) (region : Nat → Prop) : Prop :=
  ∀ w ∈ m.memory.watchers, m.Clear region w.2.binding (allTargets w.2.actions)

/-- A machine that has come from another one by stores, with what the region holds now. -/
structure Holds (m : Machine) (region : Nat → Prop) (held : Nat → Value) (n : Machine) : Prop where
  rack : n.rack = m.rack
  size : n.memory.size = m.memory.size
  devices : ∀ k : Nat,
    (n.bindings[k]?).map PortBinding.device = (m.bindings[k]?).map PortBinding.device
  spares : ∀ w ∈ n.memory.watchers, m.Clear region w.2.binding (allTargets w.2.actions)
  cells : ∀ i, region i → n.memory.cell i = held i

theorem Spares.holds (h : m.Spares region) : m.Holds region m.memory.cell m :=
  ⟨rfl, rfl, fun _ => rfl, h, fun _ _ => rfl⟩

theorem Clear.of_mem {binding : Nat} {as : List PortAction}
    (h : m.Clear region binding (allTargets as)) {a : PortAction} (ha : a ∈ as) :
    m.Clear region binding a.targets :=
  fun b hb port hport => h b hb port (mem_allTargets ha hport)

private theorem devices_set {bs : List PortBinding} {number : Nat} {b : PortBinding}
    (h : (bs[number]?).map PortBinding.device = some b.device) (k : Nat) :
    ((bs.set number b)[k]?).map PortBinding.device = (bs[k]?).map PortBinding.device := by
  by_cases hsame : number = k
  · subst hsame
    obtain ⟨b', hb', -⟩ := Option.map_eq_some_iff.mp h
    obtain ⟨hlt, -⟩ := List.getElem?_eq_some_iff.mp hb'
    rw [h, List.getElem?_set_self hlt]
    rfl
  · rw [List.getElem?_set_ne hsame]

theorem Holds.written (h : m.Holds region held n) {address value : Value} {size : Int}
    {w : Written Subscription} (hw : n.memory.write address value size = .ok w)
    {held' : Nat → Value} (hcells : ∀ i, region i → w.memory.cell i = held' i) :
    m.Holds region held' { n with memory := w.memory } where
  rack := h.rack
  size := (Memory.evolves_write hw).size.trans h.size
  devices := h.devices
  spares := by
    change ∀ x ∈ w.memory.watchers, _
    rw [(Memory.watchers_write hw).1]
    exact h.spares
  cells := hcells

end Machine

namespace Run

open Machine

section Subscribers

variable {m n : Machine} {region : Nat → Prop} {held : Nat → Value}
  {act : Nat → PortAction → Run PortAnswer}

theorem store_holds {held' : Nat → Value}
    (hact : ∀ number a, m.Clear region number a.targets →
      Keeps (m.Holds region held') (act number a))
    (hn : m.Holds region held n) {address value : Value} {size : Int} {w : Written Subscription}
    (hw : n.memory.write address value size = .ok w)
    (hcells : ∀ i, region i → w.memory.cell i = held' i) :
    m.Holds region held' ((store act address value size).on n).2 := by
  have htold := (Memory.watchers_write hw).2
  rw [store, on_get_bind, hw, on_bind_ok (on_lift_ok _ _), on_modify_bind]
  refine Keeps.on (Matches.forM_of_mem ?_) (hn.written hw hcells)
  intro s hs
  obtain ⟨b, hb⟩ := htold s hs
  have hclear : m.Clear region s.binding (allTargets s.actions) := hn.spares _ hb
  have hemit : Keeps (m.Holds region held') (emit (.port s.label w.value size)) :=
    Keeps.modify fun k hk => { hk with }
  refine hemit.bind fun _ => Matches.forM_of_mem fun a ha => ?_
  exact (hact s.binding a (hclear.of_mem ha)).discard

theorem storePort_holds
    (hact : ∀ number a, m.Clear region number a.targets →
      Keeps (m.Holds region held) (act number a))
    (hn : m.Holds region held n) {start : Int} {size : Nat} (value : Value)
    (hclear : ∀ i : Nat, region i → ¬(start ≤ i ∧ i < start + max 1 size)) :
    m.Holds region held ((store act (.int start) value size).on n).2 := by
  cases hw : n.memory.write (.int start) value size with
  | error c =>
    rw [store, on_get_bind, hw]
    exact hn
  | ok w =>
    obtain ⟨a, hlocate, helsewhere⟩ := Memory.cell_write hw
    have hstart := Memory.locate_int hlocate
    apply store_holds hact hn hw
    intro i hi
    have hout := hclear i hi
    rw [helsewhere i (by omega)]
    exact hn.cells i hi

section Writing

variable {device port : String}

theorem updatePort_holds
    (hact : ∀ number a, m.Clear region number a.targets →
      Keeps (m.Holds region held) (act number a))
    (hclear : ∀ start p, m.rack.lookup device port = .ok (start, p) →
      ∀ i : Nat, region i → ¬(start ≤ i ∧ i < start + max 1 p.size)) (value : Value) :
    Keeps (m.Holds region held) (updatePort act device port value) := by
  apply Keeps.of_on
  intro n hn
  rw [updatePort, on_get_bind]
  cases hlookup : n.rack.lookup device port with
  | error c => exact hn
  | ok found =>
    obtain ⟨start, p⟩ := found
    rw [hn.rack] at hlookup
    rw [on_bind_ok (on_lift_ok _ _)]
    exact storePort_holds hact hn value (hclear start p hlookup)

theorem setPort_holds
    (hact : ∀ number a, m.Clear region number a.targets →
      Keeps (m.Holds region held) (act number a))
    (hclear : ∀ start p, m.rack.lookup device port = .ok (start, p) →
      ∀ i : Nat, region i → ¬(start ≤ i ∧ i < start + max 1 p.size)) (value : Value) :
    Keeps (m.Holds region held) (setPort act device port value) := by
  apply Keeps.of_on
  intro n hn
  rw [setPort, on_get_bind]
  cases hlookup : n.rack.lookup device port with
  | error c => exact hn
  | ok found =>
    obtain ⟨start, p⟩ := found
    rw [hn.rack] at hlookup
    rw [on_bind_ok (on_lift_ok _ _)]
    dsimp only
    by_cases hread : p.access = .read
    · rw [if_pos hread]
      exact hn
    · rw [if_neg hread]
      exact storePort_holds hact hn value (hclear start p hlookup)

end Writing

section Binding

variable {number : Nat} {b : PortBinding}

theorem subscribe_holds (hb : (m.bindings[number]?).map PortBinding.device = some b.device)
    {actions : List PortAction} (hclear : m.Clear region number (allTargets actions))
    (port label : String) :
    Keeps (m.Holds region held) (subscribe number b port label actions) := by
  apply Keeps.of_on
  intro n hn
  rcases subscribe_cases number b port label actions n with ⟨c, hon⟩ | ⟨a, hon⟩
  · rw [hon]
    exact hn
  · rw [hon]
    refine ⟨hn.rack, hn.size, fun k => ?_, ?_, hn.cells⟩
    · rw [← hn.devices k]
      apply devices_set
      exact (hn.devices number).trans hb
    · intro w hw
      rcases List.mem_append.mp hw with hw | hw
      · exact hn.spares w hw
      · rw [List.mem_singleton.mp hw]
        exact hclear

theorem closeBinding_holds (number : Nat) :
    Keeps (m.Holds region held) (closeBinding number) := by
  apply Keeps.of_on
  intro n hn
  rw [closeBinding, on_get_bind]
  cases hnumber : n.bindings[number]? with
  | none => exact hn
  | some b =>
    have hevolves := Memory.evolves_unwatch_all b.subscriptions n.memory
    have hcells := cells_unwatch_all b.subscriptions n.memory
    have hdevice : (n.bindings[number]?).map PortBinding.device = some b.device := by
      rw [hnumber]
      rfl
    refine ⟨hn.rack, hevolves.size.trans hn.size, fun k => ?_, ?_, ?_⟩
    · exact (devices_set (b := { b with subscriptions := [] }) hdevice k).trans (hn.devices k)
    · intro w hw
      exact hn.spares w (Memory.mem_of_unwatch_all b.subscriptions n.memory hw)
    · intro i hi
      exact (Memory.cell_congr hcells i).trans (hn.cells i hi)

theorem perform_holds (depth number : Nat) {action : PortAction}
    (hclear : m.Clear region number action.targets) :
    Keeps (m.Holds region held) (perform (fun _ => fail .lineInFlight) depth number action) := by
  induction depth generalizing number action with
  | zero => exact Matches.fail _
  | succ depth ih =>
    refine Keeps.get_bind fun n hn => ?_
    cases hnumber : n.bindings[number]? with
    | none => exact Matches.pure _
    | some b =>
      have hdevice : (m.bindings[number]?).map PortBinding.device = some b.device := by
        rw [← hn.devices number, hnumber]
        rfl
      obtain ⟨b', hb', hsame⟩ := Option.map_eq_some_iff.mp hdevice
      have hports := hclear b' hb'
      rw [hsame] at hports
      cases action with
      | set port value =>
        have hset := setPort_holds ih (hports port List.mem_cons_self) value
        exact hset.bind fun _ => Matches.pure _
      | update port value =>
        have hupdate := updatePort_holds ih (hports port List.mem_cons_self) value
        exact hupdate.bind fun _ => Matches.pure _
      | get port =>
        refine Matches.map _ (Keeps.get_bind fun _ _ => ?_)
        exact (Matches.lift _).bind fun _ => Matches.lift _
      | address port =>
        exact Keeps.get_bind fun _ _ => (Matches.lift _).bind fun _ => Matches.pure _
      | subscribe port label actions =>
        exact (subscribe_holds hdevice hclear port label).bind fun _ => Matches.pure _
      | line text => exact Matches.fail _
      | close => exact (closeBinding_holds number).bind fun _ => Matches.pure _
      | fail message => exact Matches.fail _

end Binding

end Subscribers

end Run

namespace Session

variable {m : Machine}

/-- Subscribers write to ports only, so they spare all cells that belong to none. -/
theorem Furnished.spares (h : Furnished m) : m.Spares fun i => m.rack.owners.get? i = none := by
  obtain ⟨floor, hready, -⟩ := h.housed
  intro w _ b _ port _ start p hlookup i hi hin
  obtain ⟨hsize, hcovers⟩ := hready.rack.covers_of_lookup hlookup
  have howner := hready.rack.indexed _ _ (hcovers i hin.1 (by omega))
  rw [hi] at howner
  cases howner

theorem spares_of_silent (h : ∀ w ∈ m.memory.watchers, allTargets w.2.actions = []) :
    m.Spares fun _ => True := by
  intro w hw b _ port hport
  rw [h w hw] at hport
  cases hport

end Session

end Forthline
