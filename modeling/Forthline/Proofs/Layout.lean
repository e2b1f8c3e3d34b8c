import Forthline.Proofs.Attachment

/-!
# The layout of ports

The ports of a device lie one after another, from the address on that was the next one when the
device was registered. The rack keeps the first address of each by the name of the port, and the
owner of each cell. If the ports of every device have different names, the two agree.
-/

namespace Forthline

section Ports

variable {base a : Int} {ports : List Port}

theorem layOut_bound (addresses : Table Int) (base : Int) {name : String}
    (h : name ∈ ports.map Port.name) :
    ∃ start, (layOut addresses base ports).get? name = some start ∧ base ≤ start := by
  induction ports generalizing addresses base with
  | nil => cases h
  | cons p ports ih =>
    rw [layOut]
    by_cases hlater : name ∈ ports.map Port.name
    · obtain ⟨start, hstart, hle⟩ := ih (addresses.insert p.name base) (base + p.size) hlater
      exact ⟨start, hstart, by omega⟩
    · have hname : name = p.name := by
        rcases List.mem_cons.mp h with h | h
        · exact h
        · exact absurd h hlater
      exact ⟨base, by rw [get?_layOut hlater, hname]; simp, Int.le_refl base⟩

theorem le_of_layOut {addresses : Table Int} {name : String} {start : Int}
    (h : name ∈ ports.map Port.name)
    (hstart : (layOut addresses base ports).get? name = some start) : base ≤ start := by
  obtain ⟨start', hstart', hle⟩ := layOut_bound addresses base h
  rw [hstart] at hstart'
  cases hstart'
  exact hle

theorem portAt?_eq_some_iff (addresses : Table Int) (base : Int)
    (h : (ports.map Port.name).Nodup) {p : Port} :
    portAt? base ports a = some p ↔ p ∈ ports ∧
      ∃ start, (layOut addresses base ports).get? p.name = some start ∧
        start ≤ a ∧ a < start + p.size := by
  induction ports generalizing addresses base with
  | nil => simp [portAt?]
  | cons q ports ih =>
    obtain ⟨hq, hports⟩ := List.nodup_cons.mp h
    have hstart : (layOut addresses base (q :: ports)).get? q.name = some base := by
      rw [layOut, get?_layOut hq]
      simp
    have ih := ih (addresses.insert q.name base) (base + q.size) hports
    have hrange : (portAt? (base + q.size) ports a).isSome ↔ _ := isSome_portAt?_iff
    have hother : p ∈ ports → p ≠ q := by
      rintro hp rfl
      exact hq (List.mem_map_of_mem hp)
    rw [portAt?]
    by_cases hin : base ≤ a ∧ a < base + q.size
    · rw [if_pos hin]
      constructor
      · intro hp
        cases hp
        exact ⟨List.mem_cons_self, base, hstart, hin⟩
      · rintro ⟨hp, start, hget, hbounds⟩
        rcases List.mem_cons.mp hp with rfl | hp
        · rfl
        · have hsome := ih.mpr ⟨hp, start, hget, hbounds⟩
          rw [hsome] at hrange
          have hrange := hrange.mp rfl
          omega
    · rw [if_neg hin, ih]
      constructor
      · rintro ⟨hp, hget⟩
        exact ⟨List.mem_cons_of_mem q hp, hget⟩
      · rintro ⟨hp, start, hget, hbounds⟩
        rcases List.mem_cons.mp hp with rfl | hp
        · rw [hstart] at hget
          cases hget
          exact absurd hbounds hin
        · exact ⟨hp, start, hget, hbounds⟩

/-- If two ports have one name, the address under it is that of the later one, and the first cell
of the earlier one lies in no port by its name. -/
theorem exists_lost_cell (addresses : Table Int) (base : Int) (h : ¬(ports.map Port.name).Nodup)
    (hsize : ∀ p ∈ ports, 0 < p.size) :
    ∃ c, base ≤ c ∧ c < base + cellsOf ports ∧
      ∀ p ∈ ports, ∀ start, (layOut addresses base ports).get? p.name = some start →
        ¬(start ≤ c ∧ c < start + p.size) := by
  induction ports generalizing addresses base with
  | nil => simp at h
  | cons q ports ih =>
    have hqsize := hsize q List.mem_cons_self
    by_cases hq : q.name ∈ ports.map Port.name
    · refine ⟨base, by omega, by rw [cellsOf_cons]; omega, ?_⟩
      intro p hp start hstart hbounds
      have hp' : p.name ∈ ports.map Port.name := by
        rcases List.mem_cons.mp hp with rfl | hp
        · exact hq
        · exact List.mem_map_of_mem hp
      have hle : base + q.size ≤ start := le_of_layOut hp' hstart
      omega
    · have hports : ¬(ports.map Port.name).Nodup := by
        intro hnodup
        exact h (List.nodup_cons.mpr ⟨hq, hnodup⟩)
      obtain ⟨c, hc, hlt, hlost⟩ := ih (addresses.insert q.name base)
        (base + q.size) hports (fun p hp => hsize p (List.mem_cons_of_mem q hp))
      refine ⟨c, by omega, by rw [cellsOf_cons]; omega, ?_⟩
      intro p hp start hstart
      rcases List.mem_cons.mp hp with rfl | hp
      · rw [layOut, get?_layOut hq] at hstart
        simp at hstart
        omega
      · exact hlost p hp start hstart

end Ports

namespace Machine

variable (m : Machine) (device : String) (ports : List Port)

theorem placeAll_rack :
    (m.placeAll device ports).rack =
      { m.rack with
        next := m.rack.next + cellsOf ports
        owners := (m.placeAll device ports).rack.owners } := by
  induction ports generalizing m with
  | nil => simp [placeAll]
  | cons p ports ih =>
    rw [placeAll, ih]
    simp [placePort, Rack.place, Int.add_assoc]

theorem registered_devices (d : Device) :
    (m.registered d).rack.devices = m.rack.devices.insert d.name d := by
  rw [← (m.placeAll_devices d.name d.ports).1]
  rfl

theorem registered_addresses (d : Device) :
    (m.registered d).rack.addresses =
      m.rack.addresses.insert d.name (layOut {} m.rack.next d.ports) := by
  rw [← (m.placeAll_devices d.name d.ports).2.2]
  rfl

end Machine

namespace Rack

/-- The address lies in the owner's port, by the first address that is kept under its name. -/
def Covers (r : Rack) (o : Owner) (a : Int) : Prop :=
  ∃ d start, r.devices.get? o.device = some d ∧ o.port ∈ d.ports ∧
    (r.addresses.get? o.device).bind (·.get? o.port.name) = some start ∧
    start ≤ a ∧ a < start + o.port.size

def without (r : Rack) (name : String) (d : Device) : Rack :=
  (r.displaceAll ((r.addresses.get? name).getD {}) d.ports).forget name

/-- Every device's ports lie one after another, from the floor on and before the next address. -/
structure Seated (r : Rack) (floor : Int) : Prop where
  next : floor ≤ r.next
  devices : ∀ name d, r.devices.get? name = some d → ∃ base, floor ≤ base ∧
    base + cellsOf d.ports ≤ r.next ∧ r.addresses.get? name = some (layOut {} base d.ports)
  bindings : ∀ name d, r.devices.get? name = some d → ∃ number, r.bindings.get? name = some number

/-- The ports of each device have different names, and every cell of theirs is known to be. -/
structure Ordered (r : Rack) (floor : Int) : Prop extends r.Seated floor where
  distinct : ∀ name d, r.devices.get? name = some d → (d.ports.map Port.name).Nodup
  indexed : ∀ o a, r.Covers o a → r.owners.get? a = some o

section Covers

variable {r : Rack} {floor : Int} {o : Owner} {a : Int}

theorem without_eq (r : Rack) (name : String) (d : Device) :
    r.without name d =
      { r with
        devices := r.devices.erase name
        addresses := r.addresses.erase name
        bindings := r.bindings.erase name
        owners := (r.without name d).owners } := by
  rw [without, displaceAll_eq]
  rfl

theorem covers_without {name : String} {d : Device} :
    (r.without name d).Covers o a ↔ o.device ≠ name ∧ r.Covers o a := by
  rw [without_eq]
  by_cases h : o.device = name
  · simp [Covers, h]
  · simp [Covers, h]

theorem covers_registered {m : Machine} {d : Device} (hfree : m.rack.devices.get? d.name = none) :
    (m.registered d).rack.Covers o a ↔
      (o.device = d.name ∧ o.port ∈ d.ports ∧
        ∃ start, (layOut {} m.rack.next d.ports).get? o.port.name = some start ∧
          start ≤ a ∧ a < start + o.port.size) ∨
      m.rack.Covers o a := by
  unfold Covers Machine.registered attach
  rw [Machine.placeAll_rack]
  by_cases h : o.device = d.name
  · simp [h, hfree]
  · simp [h]

private theorem owners_displaceAll_at (addresses : Table Int) (ports : List Port) :
    (r.displaceAll addresses ports).owners.get? a = some o ↔
      r.owners.get? a = some o ∧ ∀ p ∈ ports,
        ¬((addresses.get? p.name).getD 0 ≤ a ∧ a < (addresses.get? p.name).getD 0 + p.size) := by
  induction ports generalizing r with
  | nil => simp [displaceAll]
  | cons p ports ih =>
    rw [displaceAll, ih, owners_displace, List.forall_mem_cons]
    by_cases hin : (addresses.get? p.name).getD 0 ≤ a ∧ a < (addresses.get? p.name).getD 0 + p.size
    · simp [hin]
    · simp [hin]

theorem owners_without (h : r.Seated floor) {name : String} {d : Device}
    (hd : r.devices.get? name = some d) :
    (r.without name d).owners.get? a = some o ↔
      r.owners.get? a = some o ∧ ∀ p, ¬r.Covers ⟨name, p⟩ a := by
  obtain ⟨base, -, -, haddresses⟩ := h.devices name d hd
  have hrange (p : Port) (hp : p ∈ d.ports) :
      ((layOut {} base d.ports).get? p.name).getD 0 ≤ a ∧
        a < ((layOut {} base d.ports).get? p.name).getD 0 + p.size ↔ r.Covers ⟨name, p⟩ a := by
    obtain ⟨start, hstart, -⟩ :=
      layOut_bound {} base (List.mem_map_of_mem hp)
    simp [Covers, hd, hp, haddresses, hstart]
  have hdisplaced := owners_displaceAll_at (r := r) (o := o) (a := a)
    (layOut {} base d.ports) d.ports
  have howners : (r.without name d).owners.get? a =
      (r.displaceAll (layOut {} base d.ports) d.ports).owners.get? a := by
    rw [without, haddresses]
    rfl
  rw [howners, hdisplaced]
  constructor
  · intro ⟨howned, hout⟩
    refine ⟨howned, ?_⟩
    intro p hcovers
    have hp : p ∈ d.ports := by
      obtain ⟨d', _, hd', hp, -⟩ := hcovers
      rw [hd] at hd'
      cases hd'
      exact hp
    exact hout p hp ((hrange p hp).mpr hcovers)
  · intro ⟨howned, hout⟩
    exact ⟨howned, fun p hp hin => hout p ((hrange p hp).mp hin)⟩

end Covers

section Changes

variable {floor : Int}

theorem not_covers_of_no_devices {r : Rack} (h : ∀ name, r.devices.get? name = none) (o : Owner)
    (a : Int) : ¬r.Covers o a := by
  intro ⟨d, _, hd, _⟩
  rw [h] at hd
  cases hd

theorem ordered_of_no_devices {r : Rack} (h : ∀ name, r.devices.get? name = none)
    (hnext : floor ≤ r.next) : r.Ordered floor where
  next := hnext
  devices := by simp [h]
  bindings := by simp [h]
  distinct := by simp [h]
  indexed := fun o a hcovers => absurd hcovers (not_covers_of_no_devices h o a)

theorem Seated.registered {m : Machine} (h : m.rack.Seated floor) (d : Device) :
    (m.registered d).rack.Seated floor := by
  have hrack : (m.registered d).rack = (m.placeAll d.name d.ports).rack.attach d
    (layOut {} m.rack.next d.ports) m.bindings.length := rfl
  rw [hrack, Machine.placeAll_rack]
  have hnext := h.next
  constructor
  · simp only [attach]
    omega
  · intro name d' hd'
    simp only [attach, Table.get?_insert] at hd' ⊢
    by_cases hname : name = d.name
    · simp only [hname, if_true, Option.some.injEq] at hd' ⊢
      subst hd'
      exact ⟨m.rack.next, hnext, Int.le_refl _, rfl⟩
    · simp only [hname, if_false] at hd' ⊢
      obtain ⟨base, hfloor, hle, haddresses⟩ := h.devices name d' hd'
      exact ⟨base, hfloor, by omega, haddresses⟩
  · intro name d' hd'
    simp only [attach, Table.get?_insert] at hd' ⊢
    by_cases hname : name = d.name
    · simp [hname]
    · simp only [hname, if_false] at hd' ⊢
      exact h.bindings name d' hd'

theorem Seated.without {r : Rack} (h : r.Seated floor) (name : String) (d : Device) :
    (r.without name d).Seated floor := by
  rw [without_eq]
  refine ⟨h.next, ?_, ?_⟩
  · intro name' d' hd'
    simp only [Table.get?_erase] at hd' ⊢
    by_cases hname : name' = name
    · simp [hname] at hd'
    · simp only [hname, if_false] at hd' ⊢
      exact h.devices name' d' hd'
  · intro name' d' hd'
    simp only [Table.get?_erase] at hd' ⊢
    by_cases hname : name' = name
    · simp [hname] at hd'
    · simp only [hname, if_false] at hd' ⊢
      exact h.bindings name' d' hd'

theorem Ordered.bounds_of_covers {r : Rack} (h : r.Ordered floor) {o : Owner} {a : Int}
    (ha : r.Covers o a) : floor ≤ a ∧ a < r.next := by
  obtain ⟨d, start, hd, hp, hstart, hbounds⟩ := ha
  obtain ⟨base, hfloor, hle, haddresses⟩ := h.devices o.device d hd
  rw [haddresses, Option.bind_some] at hstart
  have hport := (portAt?_eq_some_iff {} base (h.distinct o.device d hd)).mpr
    ⟨hp, start, hstart, hbounds⟩
  have hrange := isSome_portAt?_iff.mp (Option.isSome_of_eq_some hport)
  omega

theorem Ordered.registered {m : Machine} (h : m.rack.Ordered floor) {d : Device}
    (hfree : m.rack.devices.get? d.name = none) (hnames : (d.ports.map Port.name).Nodup) :
    (m.registered d).rack.Ordered floor := by
  refine ⟨h.toSeated.registered d, ?_, ?_⟩
  · intro name d' hd'
    rw [m.registered_devices d, Table.get?_insert] at hd'
    by_cases hname : name = d.name
    · simp only [hname, if_true, Option.some.injEq] at hd'
      rw [← hd']
      exact hnames
    · simp only [hname, if_false] at hd'
      exact h.distinct name d' hd'
  · intro o a hcovers
    have howners : (m.registered d).rack.owners.get? a =
        ((portAt? m.rack.next d.ports a).map (Owner.mk d.name)).or (m.rack.owners.get? a) :=
      m.owners_placeAll d.name d.ports a
    rw [howners]
    rcases (covers_registered hfree).mp hcovers with ⟨hdevice, hp, hport⟩ | hcovers
    · rw [(portAt?_eq_some_iff {} _ hnames).mpr ⟨hp, hport⟩, ← hdevice]
      rfl
    · have hbefore := (h.bounds_of_covers hcovers).2
      have hnone : portAt? m.rack.next d.ports a = none := by
        rw [← Option.not_isSome_iff_eq_none, isSome_portAt?_iff]
        omega
      rw [hnone]
      exact h.indexed o a hcovers

theorem Ordered.without {r : Rack} (h : r.Ordered floor) {name : String} {d : Device}
    (hd : r.devices.get? name = some d) : (r.without name d).Ordered floor := by
  refine ⟨h.toSeated.without name d, ?_, ?_⟩
  · intro name' d' hd'
    rw [without_eq, Table.get?_erase] at hd'
    by_cases hname : name' = name
    · simp [hname] at hd'
    · simp only [hname, if_false] at hd'
      exact h.distinct name' d' hd'
  · intro o a hcovers
    obtain ⟨hother, hcovers⟩ := covers_without.mp hcovers
    have howned := h.indexed o a hcovers
    refine (owners_without h.toSeated hd).mpr ⟨howned, ?_⟩
    intro p hp
    rw [h.indexed _ a hp] at howned
    cases howned
    exact hother rfl

end Changes

end Rack

namespace Run

variable {m : Machine} {name : String}

theorem unregister_of_missing (h : m.rack.devices.get? name = none) :
    (unregister name).on m = (.error (.failed { cause := .deviceMissing name }), m) := by
  rw [unregister, on_get_bind]
  dsimp only
  rw [h]
  rfl

theorem unregister_of_bound {d : Device} (hd : m.rack.devices.get? name = some d)
    (hbound : ∃ number, m.rack.bindings.get? name = some number) :
    ∃ n, (unregister name).on m = (.ok (), n) ∧ n.rack = m.rack.without name d := by
  obtain ⟨number, hnumber⟩ := hbound
  obtain ⟨_, _, n, -, hn, hon⟩ := unregister_on hd hnumber
  refine ⟨n, hon, ?_⟩
  obtain ⟨_, _, rfl⟩ := hn
  rfl

end Run

end Forthline
