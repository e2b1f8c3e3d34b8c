import Forthline.Proofs.Layout

/-!
# The index of port cells

The rack knows the owner of each cell of a port. When devices come and go, this index is exact as
long as every device had different names for its ports: a device is taken off by the names of its
ports, and if two share one, the cells of the first stay behind.
-/

namespace Forthline

namespace Rack

/-- The cells with an owner are those of the ports of attached devices, and the owner is right. -/
def Exact (r : Rack) : Prop := ∀ a o, r.owners.get? a = some o ↔ r.Covers o a

/-- A cell before the next address has an owner, but lies in no port of an attached device. -/
def Leaks (r : Rack) : Prop :=
  ∃ c, c < r.next ∧ (r.owners.get? c).isSome ∧ ∀ o, ¬r.Covers o c

end Rack

namespace Run

/-- What registering and unregistering devices leads to from an empty rack, with the devices that
were registered. Meanwhile anything can happen that leaves the rack alone. -/
inductive Registry : List Device → Machine → Prop where
  | start {m : Machine} {next : Int} (hrack : m.rack = { next }) : Registry [] m
  | register {regs : List Device} {m m' : Machine} {o : Offer} {d : Device} {number : Nat}
      (h : Registry regs m) (hregister : (register o).on m = (.ok (d, number), m')) :
      Registry (d :: regs) m'
  | unregister {regs : List Device} {m m' : Machine} {name : String} (h : Registry regs m)
      (hunregister : (unregister name).on m = (.ok (), m')) : Registry regs m'
  | work {regs : List Device} {m m' : Machine} (h : Registry regs m)
      (hrack : m'.rack = m.rack) : Registry regs m'

private structure Kept (regs : List Device) (r : Rack) : Prop where
  seated : ∃ floor, r.Seated floor
  state : (∀ d ∈ regs, (d.ports.map Port.name).Nodup) ∧ (∃ floor, r.Ordered floor) ∧ r.Exact ∨
    (∃ d ∈ regs, ¬(d.ports.map Port.name).Nodup) ∧ r.Leaks

section Registering

variable {m : Machine} {d : Device} {floor : Int}

private theorem registered_next : (m.registered d).rack.next = m.rack.next + cellsOf d.ports := by
  change (m.placeAll d.name d.ports).rack.next = _
  rw [Machine.placeAll_next]

private theorem registered_owners (a : Int) :
    (m.registered d).rack.owners.get? a =
      ((portAt? m.rack.next d.ports a).map (Owner.mk d.name)).or (m.rack.owners.get? a) :=
  m.owners_placeAll d.name d.ports a

private theorem exact_registered (h : m.rack.Ordered floor) (hexact : m.rack.Exact)
    (hfree : m.rack.devices.get? d.name = none) (hnames : (d.ports.map Port.name).Nodup) :
    (m.registered d).rack.Exact := by
  intro a o
  constructor
  · intro howned
    rw [registered_owners] at howned
    rw [Rack.covers_registered hfree]
    cases hport : portAt? m.rack.next d.ports a with
    | some p =>
      rw [hport] at howned
      cases howned
      exact .inl ⟨rfl, (portAt?_eq_some_iff {} _ hnames).mp hport⟩
    | none =>
      rw [hport] at howned
      exact .inr ((hexact a o).mp howned)
  · intro hcovers
    exact (h.registered hfree hnames).indexed o a hcovers

private theorem leaks_registered (h : m.rack.Ordered floor)
    (hfree : m.rack.devices.get? d.name = none) (hsize : ∀ p ∈ d.ports, 0 < p.size)
    (hnames : ¬(d.ports.map Port.name).Nodup) : (m.registered d).rack.Leaks := by
  obtain ⟨c, hle, hlt, hlost⟩ := exists_lost_cell {} m.rack.next hnames hsize
  refine ⟨c, by rw [registered_next]; exact hlt, ?_, ?_⟩
  · obtain ⟨p, hp⟩ := Option.isSome_iff_exists.mp (isSome_portAt?_iff.mpr ⟨hle, hlt⟩)
    rw [registered_owners, hp]
    rfl
  · intro o hcovers
    rcases (Rack.covers_registered hfree).mp hcovers with ⟨-, hp, start, hstart, hin⟩ | hcovers
    · exact hlost o.port hp start hstart hin
    · have hbefore := (h.bounds_of_covers hcovers).2
      omega

private theorem leaks_stay_registered (h : m.rack.Leaks)
    (hfree : m.rack.devices.get? d.name = none) : (m.registered d).rack.Leaks := by
  obtain ⟨c, hlt, howned, hout⟩ := h
  refine ⟨c, by rw [registered_next]; omega, ?_, ?_⟩
  · -- The new ports lie further on.
    have hnone : portAt? m.rack.next d.ports c = none := by
      rw [← Option.not_isSome_iff_eq_none, isSome_portAt?_iff]
      omega
    rw [registered_owners, hnone]
    exact howned
  · intro o hcovers
    rcases (Rack.covers_registered hfree).mp hcovers with ⟨-, hp, start, hstart, hin⟩ | hcovers
    · have hle := le_of_layOut (List.mem_map_of_mem hp) hstart
      omega
    · exact hout o hcovers

private theorem Kept.registered {regs : List Device} (h : Kept regs m.rack)
    (haccepts : m.rack.Accepts d) : Kept (d :: regs) (m.registered d).rack := by
  obtain ⟨⟨floor, hseated⟩, hstate⟩ := h
  refine ⟨⟨floor, hseated.registered d⟩, ?_⟩
  rcases hstate with ⟨hdistinct, ⟨floor, hordered⟩, hexact⟩ | ⟨⟨d', hd', hdouble⟩, hleaks⟩
  · by_cases hnames : (d.ports.map Port.name).Nodup
    · left
      refine ⟨List.forall_mem_cons.mpr ⟨hnames, hdistinct⟩, ?_, ?_⟩
      · exact ⟨floor, hordered.registered haccepts.free hnames⟩
      · exact exact_registered hordered hexact haccepts.free hnames
    · right
      refine ⟨⟨d, List.mem_cons_self, hnames⟩, ?_⟩
      exact leaks_registered hordered haccepts.free haccepts.size_pos hnames
  · right
    refine ⟨⟨d', List.mem_cons_of_mem d hd', hdouble⟩, ?_⟩
    exact leaks_stay_registered hleaks haccepts.free

end Registering

section Unregistering

variable {r : Rack} {name : String} {d : Device} {floor : Int}

private theorem exact_without (h : r.Ordered floor) (hexact : r.Exact)
    (hd : r.devices.get? name = some d) : (r.without name d).Exact := by
  intro a o
  constructor
  · intro howned
    obtain ⟨howned, hout⟩ := (Rack.owners_without h.toSeated hd).mp howned
    have hcovers := (hexact a o).mp howned
    refine Rack.covers_without.mpr ⟨?_, hcovers⟩
    intro hname
    subst hname
    exact hout o.port hcovers
  · intro hcovers
    exact (h.without hd).indexed o a hcovers

private theorem leaks_stay_without (hseated : r.Seated floor) (h : r.Leaks)
    (hd : r.devices.get? name = some d) : (r.without name d).Leaks := by
  obtain ⟨c, hlt, howned, hout⟩ := h
  obtain ⟨o, ho⟩ := Option.isSome_iff_exists.mp howned
  refine ⟨c, ?_, ?_, ?_⟩
  · rw [Rack.without_eq]
    exact hlt
  · rw [(Rack.owners_without hseated hd).mpr ⟨ho, fun p => hout _⟩]
    rfl
  · intro o' hcovers
    exact hout o' (Rack.covers_without.mp hcovers).2

private theorem Kept.without {regs : List Device} (h : Kept regs r)
    (hd : r.devices.get? name = some d) : Kept regs (r.without name d) := by
  obtain ⟨⟨floor, hseated⟩, hstate⟩ := h
  refine ⟨⟨floor, hseated.without name d⟩, ?_⟩
  rcases hstate with ⟨hdistinct, ⟨floor, hordered⟩, hexact⟩ | ⟨hdouble, hleaks⟩
  · exact .inl ⟨hdistinct, ⟨floor, hordered.without hd⟩, exact_without hordered hexact hd⟩
  · exact .inr ⟨hdouble, leaks_stay_without hseated hleaks hd⟩

private theorem rack_of_unregister {m m' : Machine} (hseated : m.rack.Seated floor)
    (h : (unregister name).on m = (.ok (), m')) :
    ∃ d, m.rack.devices.get? name = some d ∧ m'.rack = m.rack.without name d := by
  cases hd : m.rack.devices.get? name with
  | none =>
    rw [unregister_of_missing hd] at h
    cases h
  | some d =>
    obtain ⟨n, hon, hrack⟩ := unregister_of_bound hd (hseated.bindings _ d hd)
    rw [hon] at h
    cases h
    exact ⟨d, rfl, hrack⟩

end Unregistering

private theorem Registry.kept {regs : List Device} {m : Machine} (h : Registry regs m) :
    Kept regs m.rack := by
  induction h with
  | @start m next hrack =>
    have hdevices (name : String) : m.rack.devices.get? name = none := by
      rw [hrack]
      rfl
    have hnext : m.rack.next = next := congrArg Rack.next hrack
    have hordered : m.rack.Ordered next :=
      Rack.ordered_of_no_devices hdevices (Int.le_of_eq hnext.symm)
    refine ⟨⟨next, hordered.toSeated⟩, .inl ⟨by simp, ⟨next, hordered⟩, ?_⟩⟩
    intro a o
    have howner : m.rack.owners.get? a = none := by
      rw [hrack]
      rfl
    rw [howner]
    exact ⟨nofun, fun hcovers => absurd hcovers (Rack.not_covers_of_no_devices hdevices o a)⟩
  | register _ hregister ih =>
    obtain ⟨haccept, -, hm'⟩ := registered_of_ok hregister
    have hkept := ih.registered (Rack.accepts_of_accept haccept)
    obtain ⟨_, _, rfl⟩ := hm'
    exact hkept
  | unregister _ hunregister ih =>
    obtain ⟨floor, hseated⟩ := ih.seated
    obtain ⟨d, hd, hrack⟩ := rack_of_unregister hseated hunregister
    rw [hrack]
    exact ih.without hd
  | work _ hrack ih =>
    rw [hrack]
    exact ih

/-- The index of cells is exact exactly as long as no device was registered that has two ports of
one name; then no cell belongs to a device that is not attached. -/
theorem index_exact_iff_distinct_names {regs : List Device} {m : Machine}
    (h : Registry regs m) :
    (m.rack.Exact ↔ ∀ d ∈ regs, (d.ports.map Port.name).Nodup) ∧
    ((∀ d ∈ regs, (d.ports.map Port.name).Nodup) →
      ∀ a o, m.rack.owners.get? a = some o → (m.rack.devices.get? o.device).isSome) := by
  rcases h.kept.state with ⟨hdistinct, -, hexact⟩ | ⟨⟨d, hd, hdouble⟩, c, -, howned, hout⟩
  · refine ⟨⟨fun _ => hdistinct, fun _ => hexact⟩, ?_⟩
    intro _ a o howned
    obtain ⟨d, _, hd, -⟩ := (hexact a o).mp howned
    exact Option.isSome_of_eq_some hd
  · refine ⟨⟨?_, ?_⟩, ?_⟩
    · intro hexact
      obtain ⟨o, ho⟩ := Option.isSome_iff_exists.mp howned
      exact absurd ((hexact c o).mp ho) (hout o)
    · intro hdistinct
      exact absurd (hdistinct d hd) hdouble
    · intro hdistinct
      exact absurd (hdistinct d hd) hdouble

private def twins : Offer :=
  { name := some "d"
    ports := some [.port "p" 1 "readwrite" "", .port "p" 1 "readwrite" ""] }

private def bench : Machine := { Session.builtin with rack := {} }

private def withTwins : Machine := ((register twins).on bench).2

private def twinsGone : Machine := ((unregister "d").on withTwins).2

private theorem twins_registered :
    ∃ d number, (register twins).on bench = (.ok (d, number), withTwins) ∧
      d.ports.map Port.name = ["p", "p"] := by
  have hports : ((register twins).on bench).1.toOption.any
      (fun r => r.1.ports.map Port.name == ["p", "p"]) = true := by
    decide +kernel
  obtain ⟨⟨d, number⟩, hnames, hresult⟩ := result_of_any hports
  exact ⟨d, number, hresult, beq_iff_eq.mp hnames⟩

private theorem twins_unregistered : (unregister "d").on withTwins = (.ok (), twinsGone) := by
  have hok : ((unregister "d").on withTwins).1.isOk = true := by decide +kernel
  obtain ⟨_, hresult⟩ := eq_of_isOk hok
  exact hresult

theorem twins_index_inexact :
    ∃ d, Registry [d] twinsGone ∧ ¬(d.ports.map Port.name).Nodup ∧ ¬twinsGone.rack.Exact := by
  obtain ⟨d, number, hregister, hports⟩ := twins_registered
  have hregistry : Registry [d] twinsGone :=
    .unregister (.register (.start rfl) hregister) twins_unregistered
  have hdouble : ¬(d.ports.map Port.name).Nodup := by
    rw [hports]
    decide
  refine ⟨d, hregistry, hdouble, ?_⟩
  intro hexact
  have hdistinct := (index_exact_iff_distinct_names hregistry).1.mp hexact
  exact hdouble (hdistinct d List.mem_cons_self)

/-- A cell can belong to a device that was unregistered. -/
theorem unregistered_device_can_keep_cell :
    ∃ regs m, Registry regs m ∧ m.rack.devices.get? "d" = none ∧
      m.rack.owners.get? 0x1000 = some ⟨"d", ⟨"p", 1, .readWrite, ""⟩⟩ := by
  obtain ⟨d, number, hregister, -⟩ := twins_registered
  refine ⟨[d], twinsGone, .unregister (.register (.start rfl) hregister) twins_unregistered, ?_, ?_⟩
  · exact Option.isNone_iff_eq_none.mp (by decide +kernel)
  · decide +kernel

end Run

end Forthline
