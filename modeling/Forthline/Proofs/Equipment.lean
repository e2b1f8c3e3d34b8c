import Forthline.Proofs.Fences

/-!
# Sessions with devices

Devices come and go, and some cannot be attached. As long as each has different names for its
ports, the rack stays in order, and as long as no subscriber updates a port, the memory stays calm.
-/

namespace Forthline

def Declaration.name? : Declaration → Option String
  | .port name .. => some name
  | .other => none

mutual

/-- No subscriber that the hook brings in updates a port, and what it attaches is decent. -/
inductive HookAction.Decent : HookAction → Prop where
  | port {a : PortAction} : a.mild = true → HookAction.Decent (.port a)
  | attach {o : Offer} : Offer.Decent o → HookAction.Decent (.attach o)
  | detach (device : String) : HookAction.Decent (.detach device)

inductive Offer.Decent : Offer → Prop where
  | intro {o : Offer} : ((o.ports.getD []).filterMap Declaration.name?).Nodup →
      (∀ actions, o.onAttach = some actions → ∀ a ∈ actions, HookAction.Decent a) →
      (∀ actions, o.onDetach = some actions → ∀ a ∈ actions, HookAction.Decent a) →
      Offer.Decent o

end

structure Device.Decent (d : Device) : Prop where
  names : (d.ports.map Port.name).Nodup
  sized : ∀ p ∈ d.ports, 0 < p.size
  onAttach : ∀ actions, d.onAttach = some actions → ∀ a ∈ actions, a.Decent
  onDetach : ∀ actions, d.onDetach = some actions → ∀ a ∈ actions, a.Decent

/-- The hook, if there is one, leaves other devices alone. -/
def StaysHome (hook : Option (List HookAction)) : Prop :=
  ∀ actions, hook = some actions → ∀ a ∈ actions, ∃ action, a = .port action

section Single

variable {a : PortAction}

theorem decent_of_single (h : a.mild = true) (actions : List HookAction)
    (hactions : some [.port a] = some actions) : ∀ b ∈ actions, b.Decent := by
  cases hactions
  intro b hb
  rw [List.mem_singleton.mp hb]
  exact .port h

theorem staysHome_of_single : StaysHome (some [.port a]) := by
  intro actions hactions b hb
  cases hactions
  exact ⟨a, List.mem_singleton.mp hb⟩

end Single

private theorem name_of_port? {declared : Declaration} {p : Port} (h : declared.port? = some p) :
    declared.name? = some p.name := by
  cases declared with
  | other => cases h
  | port name size access description =>
    simp only [Declaration.port?] at h
    split at h
    · obtain ⟨a, -, rfl⟩ := Option.map_eq_some_iff.mp h
      rfl
    · cases h

private theorem names_of_ports {ds : List Declaration} {ports : List Port}
    (h : List.Forall₂ (fun declared p => declared.port? = some p) ds ports) :
    ds.filterMap Declaration.name? = ports.map Port.name := by
  induction h with
  | nil => rfl
  | cons hp _ ih => rw [List.filterMap_cons_some (name_of_port? hp), ih, List.map_cons]

private theorem Rack.offered_of_accept {r : Rack} {o : Offer} {d : Device}
    (h : r.accept o = .ok d) :
    (o.ports.getD []).mapM Declaration.port? = some d.ports ∧ d.onAttach = o.onAttach ∧
      d.onDetach = o.onDetach := by
  unfold Rack.accept at h
  split at h
  · rename_i hports
    split at h
    · cases h
    · split at h
      · cases h
      · split at h
        · cases h
        · rename_i hdeclared
          cases h
          rw [hports]
          exact ⟨hdeclared, rfl, rfl⟩
  · cases h

theorem Offer.Decent.device {r : Rack} {o : Offer} {d : Device} (ho : o.Decent)
    (h : r.accept o = .ok d) : d.Decent := by
  obtain ⟨hnames, honAttach, honDetach⟩ := ho
  obtain ⟨hports, hattach, hdetach⟩ := Rack.offered_of_accept h
  rw [names_of_ports (mapM_eq_some_iff.mp hports)] at hnames
  exact ⟨hnames, (Rack.accepts_of_accept h).size_pos, hattach ▸ honAttach, hdetach ▸ honDetach⟩

namespace Rack

structure Fit (r : Rack) (floor : Int) : Prop extends r.Ordered floor where
  addresses : ∀ name, r.devices.get? name = none → r.addresses.get? name = none
  decent : ∀ name d, r.devices.get? name = some d → d.Decent

section Fit

variable {r : Rack} {floor : Int}

theorem Fit.handed (h : r.Fit floor) (handed : Table Nat) : { r with handed }.Fit floor :=
  { h with }

theorem Fit.registered {m : Machine} (h : m.rack.Fit floor) {d : Device}
    (hfree : m.rack.devices.get? d.name = none) (hd : d.Decent) :
    (m.registered d).rack.Fit floor := by
  refine ⟨h.toOrdered.registered hfree hd.names, ?_, ?_⟩
  · intro name hname
    rw [m.registered_devices, Table.get?_insert] at hname
    rw [m.registered_addresses, Table.get?_insert]
    split at hname
    · cases hname
    · rename_i hother
      rw [if_neg hother]
      exact h.addresses name hname
  · intro name d' hd'
    rw [m.registered_devices, Table.get?_insert] at hd'
    split at hd'
    · cases hd'
      exact hd
    · exact h.decent name d' hd'

theorem Fit.without (h : r.Fit floor) {name : String} {d : Device}
    (hd : r.devices.get? name = some d) : (r.without name d).Fit floor := by
  refine ⟨h.toOrdered.without hd, ?_, ?_⟩
  · intro name' hname
    rw [without_eq, Table.get?_erase] at hname ⊢
    split
    · rfl
    · rename_i hother
      rw [if_neg hother] at hname
      exact h.addresses name' hname
  · intro name' d' hd'
    rw [without_eq, Table.get?_erase] at hd'
    split at hd'
    · cases hd'
    · exact h.decent name' d' hd'

theorem Fit.placeAll {m : Machine} (h : m.rack.Fit floor) (device : String) (ports : List Port) :
    (m.placeAll device ports).rack.Fit floor := by
  have hcovers {o : Owner} {a : Int} :
      (m.placeAll device ports).rack.Covers o a ↔ m.rack.Covers o a := by
    rw [Machine.placeAll_rack]
    rfl
  have hindexed (o : Owner) (a : Int) (ha : (m.placeAll device ports).rack.Covers o a) :
      (m.placeAll device ports).rack.owners.get? a = some o := by
    have hbefore := (h.bounds_of_covers (hcovers.mp ha)).2
    have hnone : portAt? m.rack.next ports a = none := by
      rw [← Option.not_isSome_iff_eq_none, isSome_portAt?_iff]
      omega
    rw [m.owners_placeAll, hnone]
    exact h.indexed o a (hcovers.mp ha)
  have hnext := m.placeAll_next device ports
  obtain ⟨hdevices, hbindings, haddresses⟩ := m.placeAll_devices device ports
  refine ⟨⟨⟨?_, ?_, ?_⟩, ?_, hindexed⟩, ?_, ?_⟩
  · have hfloor := h.next
    omega
  · intro name d hd
    rw [hdevices] at hd
    obtain ⟨base, hfloor, hle, hbase⟩ := h.devices name d hd
    exact ⟨base, hfloor, by omega, by rw [haddresses, hbase]⟩
  · rw [hdevices, hbindings]
    exact h.bindings
  · rw [hdevices]
    exact h.distinct
  · rw [hdevices, haddresses]
    exact h.addresses
  · rw [hdevices]
    exact h.decent

theorem Fit.lowered {r₀ : Rack} (h : r.Fit floor) (h₀ : r₀.Fit floor)
    (hdevices : ∀ name d, r.devices.get? name = some d →
      r₀.devices.get? name = some d ∧ r.addresses.get? name = r₀.addresses.get? name) :
    { r with next := r₀.next }.Fit floor := by
  refine { h with next := h₀.next, devices := ?_ }
  intro name d hd
  obtain ⟨hd₀, haddresses⟩ := hdevices name d hd
  obtain ⟨base, hfloor, hle, hbase⟩ := h₀.devices name d hd₀
  exact ⟨base, hfloor, hle, haddresses.trans hbase⟩

/-- A device that cannot be set up leaves the addresses that it was given to the next one. -/
theorem Fit.restored {m : Machine} {handed : Table Nat} {d : Device} (h : m.rack.Fit floor)
    (hfree : m.rack.devices.get? d.name = none) (hd : d.Decent)
    (hr : r = { (m.registered d).rack with handed }) :
    { r.without d.name d with next := m.rack.next }.Fit floor := by
  have hdevices : r.devices = m.rack.devices.insert d.name d := by
    rw [hr]
    exact m.registered_devices d
  have haddresses : r.addresses =
      m.rack.addresses.insert d.name (layOut {} m.rack.next d.ports) := by
    rw [hr]
    exact m.registered_addresses d
  have hregistered : r.Fit floor := by
    rw [hr]
    exact (h.registered hfree hd).handed handed
  have hfound : r.devices.get? d.name = some d := by
    rw [hdevices, Table.get?_insert, if_pos rfl]
  apply (hregistered.without hfound).lowered h
  intro name d' hd'
  rw [without_eq] at hd' ⊢
  simp only [Table.get?_erase, hdevices, haddresses, Table.get?_insert] at hd' ⊢
  split at hd'
  · cases hd'
  · rename_i hother
    simp only [hother, if_false, and_true] at hd' ⊢
    exact hd'

end Fit

end Rack

theorem Memory.Calm.release {m : Memory Subscription} {floor : Int} (h : m.Calm floor)
    (name : String) : (m.release name).Calm floor := by
  refine ⟨h.heapLimit, ?_, h.watchers⟩
  intro a ha
  apply h.lastKey a
  rw [addressOf?, Memory.release, Table.get?_erase] at ha
  split at ha
  · cases ha
  · exact ha

private theorem blockName_ne_lastKey (device port : String) :
    Rack.blockName device port ≠ Text.lower "last-key" := by
  have hlower : '.' ∉ (Text.lower "last-key").toList := by decide +kernel
  intro h
  apply hlower
  rw [← h]
  change '.' ∈ (device ++ "." ++ port).toList
  simp

structure Machine.Ready (floor : Int) (m : Machine) : Prop where
  rack : m.rack.Fit floor
  memory : m.memory.Calm floor

abbrev Machine.Unfenced (r : Rack) (floor : Int) : Machine → Prop :=
  Machine.Fenced r floor (fun _ => False) fun _ => .int 0

section Ready

variable {m n : Machine} {floor : Int}

theorem Machine.unfenced (h : m.memory.Calm floor) : m.Unfenced m.rack floor := ⟨rfl, h, nofun⟩

theorem Machine.Ready.logged (h : m.Ready floor) (hn : m.Logged n) : n.Ready floor := by
  obtain ⟨_, _, rfl⟩ := hn
  exact ⟨h.rack, h.memory⟩

theorem Machine.Ready.of_unfenced (h : m.Ready floor) (hn : n.Unfenced m.rack floor) :
    n.Ready floor := by
  refine ⟨?_, hn.calm⟩
  rw [hn.rack]
  exact h.rack

private theorem calm_placeAll (h : m.memory.Calm floor) (device : String) (ports : List Port) :
    (m.placeAll device ports).memory.Calm floor := by
  induction ports generalizing m with
  | nil => exact h
  | cons p ports ih =>
    exact ih (h.bind fun hname => absurd hname (blockName_ne_lastKey device p.name))

theorem Machine.Ready.placeAll (h : m.Ready floor) (device : String) (ports : List Port) :
    (m.placeAll device ports).Ready floor where
  rack := h.rack.placeAll device ports
  memory := calm_placeAll h.memory device ports

theorem Machine.Ready.registered (h : m.Ready floor) {d : Device}
    (hfree : m.rack.devices.get? d.name = none) (hd : d.Decent) :
    (m.registered d).Ready floor where
  rack := h.rack.registered hfree hd
  memory := calm_placeAll h.memory d.name d.ports

end Ready

namespace Run

section Hosts

variable {I : Machine → Prop} (hI : Persists I)

include hI

private theorem registerWordsOf_keeps (d : Device) : Keeps I (registerWordsOf d) := by
  refine (Matches.forM _ fun p => addWord_matches hI.heeds hI.reads _ _ _).bind fun _ => ?_
  exact Matches.forM _ fun w => (addHostWord_keeps hI w.1 w.2 false).discard

theorem registerWords_keeps (device : Option String) : Keeps I (registerWords device) := by
  have hall (devices : Table Device) :
      Keeps I (devices.entries.forM fun e => registerWordsOf e.2) :=
    Matches.forM _ fun e => registerWordsOf_keeps hI e.2
  refine Keeps.get_bind fun m _ => ?_
  cases device with
  | none => exact hall _
  | some name =>
    refine Matches.ite _ (hall _) ?_
    cases m.rack.devices.get? name with
    | none => exact Matches.fail _
    | some d => exact registerWordsOf_keeps hI d

end Hosts

section Devices

variable {r : Rack} {floor : Int}

private theorem fences_nothing (r : Rack) (floor : Int) : r.Fences floor fun _ => False where
  owned := nofun
  ports := fun _ _ _ _ _ _ _ h => h.elim
  above := nofun

theorem unfenced_persists : Persists (Machine.Unfenced r floor) :=
  fenced_persists (fences_nothing r floor)

theorem keeps_ready {α : Type} {p : Run α} (hp : ∀ r, Keeps (Machine.Unfenced r floor) p) :
    Keeps (Machine.Ready floor) p :=
  Keeps.of_on fun m hm => hm.of_unfenced ((hp m.rack).on (Machine.unfenced hm.memory))

private theorem betweenLines_unfenced (fuel number : Nat) {action : PortAction}
    (hmild : action.mild = true) :
    Keeps (Machine.Unfenced r floor) (betweenLines fuel number action) :=
  betweenLines_fenced (fences_nothing r floor) fuel number hmild fun _ _ => id

theorem actFor_unfenced (fuel : Nat) (binding : Option Nat) {action : PortAction}
    (hmild : action.mild = true) :
    Keeps (Machine.Unfenced r floor) (actFor fuel binding action) := by
  cases binding with
  | some number => exact betweenLines_unfenced fuel number hmild
  | none =>
    cases action with
    | line text => exact (readLine_keeps unfenced_persists.lasts fuel text).map _
    | _ => exact Matches.fail _

private theorem hook_unfenced (fuel depth : Nat) {hook : Option (List HookAction)}
    (hhome : StaysHome hook) (hdecent : ∀ actions, hook = some actions → ∀ a ∈ actions, a.Decent)
    {actions : List HookAction} (hactions : hook = some actions) (binding : Option Nat) :
    Keeps (Machine.Unfenced r floor) (actions.forM (runHook fuel depth binding)) := by
  apply Matches.forM_of_mem
  intro a ha
  obtain ⟨action, rfl⟩ := hhome actions hactions a ha
  obtain ⟨hmild⟩ := hdecent actions hactions _ ha
  rw [runHook_port]
  exact (actFor_unfenced fuel binding hmild).discard

private theorem setUp_unfenced (fuel depth number : Nat) {d : Device} (hd : d.Decent)
    (hhome : StaysHome d.onAttach) {m : Machine} (hm : m.memory.Calm floor) :
    ∃ handed, ((setUp (runHook fuel depth) d number).on m).2.Unfenced
      { m.rack with handed } floor := by
  have hwords (r : Rack) : Keeps (Machine.Unfenced r floor) (registerWords (some d.name)) :=
    registerWords_keeps unfenced_persists _
  rw [setUp_eq, greet]
  cases hhook : d.onAttach with
  | none => exact ⟨m.rack.handed, (hwords m.rack).on (Machine.unfenced hm)⟩
  | some actions =>
    refine ⟨m.rack.handed.insert d.name number, ?_⟩
    dsimp only
    rw [bind_assoc, on_modify_bind]
    have hacts (r : Rack) : Keeps (Machine.Unfenced r floor)
        (actions.forM (runHook fuel depth (some number))) :=
      hook_unfenced fuel depth hhome hd.onAttach hhook _
    exact Keeps.on ((hacts _).bind fun _ => hwords _) ⟨rfl, hm, fun _ h => h.elim⟩

private theorem displacePorts_calm (device : String) (addresses : Table Int) (ports : List Port) :
    Keeps (fun m => m.memory.Calm floor) (displacePorts device addresses ports) := by
  induction ports with
  | nil => exact Matches.pure _
  | cons p ports ih => exact (Keeps.modify fun m hm => hm.release _).bind fun _ => ih

theorem unregister_calm (device : String) :
    Keeps (fun m => m.memory.Calm floor) (unregister device) := by
  have hclose (number : Nat) : Keeps (fun m => m.memory.Calm floor) (closeBinding number) :=
    Keeps.of_on fun m hm => ((closeBinding_fenced number).on (Machine.unfenced hm)).calm
  have hreport (message : String) :
      Keeps (fun m => m.memory.Calm floor) (report .info "Device" message) := by
    apply Keeps.of_on
    intro m hm
    obtain ⟨_, ⟨_, _, rfl⟩, h⟩ := report_logged .info "Device" message m
    rw [h]
    exact hm
  refine Keeps.get_bind fun m _ => ?_
  dsimp only
  cases m.rack.devices.get? device with
  | none => exact Matches.fail _
  | some d =>
    refine (displacePorts_calm device _ d.ports).bind fun _ => ?_
    cases m.rack.bindings.get? device with
    | none => exact (hreport _).bind fun _ => Keeps.modify fun _ hm => hm
    | some number =>
      exact (hclose number).bind fun _ => (hreport _).bind fun _ => Keeps.modify fun _ hm => hm

theorem unregister_of_ready {m : Machine} (h : m.Ready floor) {device : String} {d : Device}
    (hd : m.rack.devices.get? device = some d) :
    ∃ n, (unregister device).on m = (.ok (), n) ∧ n.rack = m.rack.without device d ∧
      n.memory.Calm floor := by
  obtain ⟨n, hon, hrack⟩ := unregister_of_bound hd (h.rack.bindings device d hd)
  have hcalm := (unregister_calm device).on h.memory
  rw [hon] at hcalm
  exact ⟨n, hon, hrack, hcalm⟩

theorem unregister_ready (device : String) {m : Machine} (h : m.Ready floor) :
    ((unregister device).on m).2.Ready floor := by
  cases hd : m.rack.devices.get? device with
  | none =>
    rw [unregister_of_missing hd]
    exact h
  | some d =>
    obtain ⟨n, hon, hrack, hcalm⟩ := unregister_of_ready h hd
    rw [hon]
    refine ⟨?_, hcalm⟩
    rw [hrack]
    exact h.rack.without hd

theorem register_ready {o : Offer} (ho : o.Decent) {m : Machine} (h : m.Ready floor) :
    ((register o).on m).2.Ready floor := by
  rcases register_cases o m with ⟨c, -, hr⟩ | ⟨d, before, _, _, c, n, -, -, -, hn, hr⟩ |
    ⟨d, n, haccept, hn, hr⟩
  · rw [hr]
    exact h
  · rw [hr]
    exact (h.placeAll d.name before).logged hn
  · rw [hr]
    exact (h.registered (Rack.accepts_of_accept haccept).free (ho.device haccept)).logged hn

-- A device that was registered, and whose hook left other devices alone, can be withdrawn.
private theorem setUp_ready {fuel depth number : Nat} {o : Offer} {d : Device} (ho : o.Decent)
    (hhome : StaysHome o.onAttach) {m n n₁ : Machine} {outcome : Except Stop Unit}
    (h : m.Ready floor) (hr : (register o).on m = (.ok (d, number), n))
    (hs : (setUp (runHook fuel depth) d number).on n = (outcome, n₁)) :
    n₁.Ready floor ∧ ∀ n₂, n₁.Logged n₂ → ∃ n', (unregister d.name).on n₂ = (.ok (), n') ∧
      Machine.Ready floor { n' with rack := { n'.rack with next := m.rack.next } } := by
  obtain ⟨haccept, -, hn⟩ := registered_of_ok hr
  have hfree := (Rack.accepts_of_accept haccept).free
  have hd := ho.device haccept
  have hready : n.Ready floor := (h.registered hfree hd).logged hn
  have hrack : n.rack = (m.registered d).rack := by
    obtain ⟨_, _, rfl⟩ := hn
    rfl
  rw [← (Rack.offered_of_accept haccept).2.1] at hhome
  obtain ⟨handed, hset⟩ := setUp_unfenced fuel depth number hd hhome hready.memory
  rw [hs, hrack] at hset
  have hset₁ : n₁.Ready floor := by
    refine ⟨?_, hset.calm⟩
    rw [hset.rack, ← hrack]
    exact hready.rack.handed handed
  refine ⟨hset₁, fun n₂ hn₂ => ?_⟩
  have hrack₂ : n₂.rack = { (m.registered d).rack with handed } := by
    rw [← hset.rack]
    obtain ⟨_, _, rfl⟩ := hn₂
    rfl
  have hfound : n₂.rack.devices.get? d.name = some d := by
    rw [hrack₂, m.registered_devices, Table.get?_insert, if_pos rfl]
  obtain ⟨n', hunregister, hrack', hcalm⟩ := unregister_of_ready (hset₁.logged hn₂) hfound
  refine ⟨n', hunregister, ?_, hcalm⟩
  change Rack.Fit { n'.rack with next := m.rack.next } floor
  rw [hrack']
  exact h.rack.restored hfree hd hrack₂

/-- Whether a device can be attached or not, the session is as ready as before, if the hook of the
device leaves other devices alone. -/
theorem attachBy_ready (fuel depth : Nat) {o : Offer} (ho : o.Decent)
    (hhome : StaysHome o.onAttach) {m : Machine} (h : m.Ready floor) :
    ((attachBy (runHook fuel depth) o).on m).2.Ready floor := by
  have hcases := attachBy_cases (runHook fuel depth) o m
  rcases hattach : (attachBy (runHook fuel depth) o).on m with ⟨outcome, m'⟩
  rw [hattach] at hcases
  cases hcases with
  | refused hr =>
    have hregistered := register_ready ho h
    rw [hr] at hregistered
    exact hregistered
  | done hr hs => exact (setUp_ready ho hhome h hr hs).1
  | exhausted hr hs => exact (setUp_ready ho hhome h hr hs).1
  | gone hr hs hn hu =>
    obtain ⟨_, hunregister, -⟩ := (setUp_ready ho hhome h hr hs).2 _ hn
    rw [hu] at hunregister
    cases hunregister
  | withdrawn hr hs hn hu =>
    obtain ⟨_, hunregister, hready⟩ := (setUp_ready ho hhome h hr hs).2 _ hn
    rw [hu] at hunregister
    cases hunregister
    exact hready

/-- What survives that a device is unregistered, and all that leaves the rack alone and the memory
calm, survives that a device is detached whose hook leaves other devices alone. -/
theorem detachBy_of_home {J : Machine → Prop} (fuel depth : Nat) {device : String} {m : Machine}
    (hunregister : ∀ ⦃n⦄, J n → J ((unregister device).on n).2)
    (hunfenced : ∀ ⦃n⦄, n.Unfenced m.rack floor → J n) (hcalm : m.memory.Calm floor)
    (hdecent : ∀ d, m.rack.devices.get? device = some d → d.Decent)
    (hhome : StaysHome ((m.rack.devices.get? device).bind Device.onDetach)) :
    J ((detachBy (runHook fuel depth) device).on m).2 := by
  have hgone {n : Machine} (hn : n.Unfenced m.rack floor) :
      J ((unregister device >>= fun _ => pure device : Run String).on n).2 := by
    rw [on_bind_pure_snd]
    exact hunregister (hunfenced hn)
  rw [detachBy, on_get_bind]
  dsimp only
  cases hd : m.rack.devices.get? device with
  | none => exact hgone (Machine.unfenced hcalm)
  | some d =>
    rw [hd, Option.bind_some] at hhome
    dsimp only
    cases hhook : d.onDetach with
    | none => exact hgone (Machine.unfenced hcalm)
    | some actions =>
      have hemitted : Machine.Unfenced m.rack floor { m with events := .cleanup :: m.events } :=
        ⟨rfl, hcalm, nofun⟩
      let binding := if d.onAttach.isSome then m.rack.handed.get? device else none
      have hacted := (hook_unfenced fuel depth hhome (hdecent d hd).onDetach hhook binding).on
        hemitted
      dsimp only
      rw [emit, on_modify_bind, on_bind]
      rcases hrun : (actions.forM (runHook fuel depth binding)).on
        { m with events := .cleanup :: m.events } with ⟨stop | _, n⟩ <;> rw [hrun] at hacted
      · exact hunfenced hacted
      · exact hgone hacted

theorem actOn_unfenced (fuel : Nat) (device : String) {action : PortAction}
    (hmild : action.mild = true) {m : Machine} (h : m.memory.Calm floor) :
    ((actOn fuel device action).on m).2.Unfenced m.rack floor := by
  rw [actOn, on_get_bind]
  cases m.rack.handed.get? device with
  | none => exact Machine.unfenced h
  | some number => exact (betweenLines_unfenced fuel number hmild).on (Machine.unfenced h)

theorem call_unfenced (fuel : Nat) (call : Session.Call) {m : Machine} (h : m.memory.Calm floor) :
    ((call.run fuel).on m).2.Unfenced m.rack floor :=
  (call_fenced (fences_nothing m.rack floor) fuel fun _ _ _ _ _ => id).on (Machine.unfenced h)

end Devices

end Run

namespace Session

theorem ready_start {fuel : Nat} {c : Config} {m : Machine}
    (h : Session.start fuel c = .ok m) : m.Ready c.deviceBase := by
  obtain ⟨threshold, hload⟩ := load_of_start h
  have hblank : (blank c threshold).Ready c.deviceBase := by
    refine ⟨⟨Rack.ordered_of_no_devices (fun _ => rfl) (Int.le_refl _), fun _ _ => rfl, nofun⟩, ?_⟩
    exact ⟨rfl, nofun, nofun⟩
  have hloaded := (Run.load_keeps Run.unfenced_persists fuel c.loadLibrary).on
    (Machine.unfenced hblank.memory)
  rw [hload] at hloaded
  exact hblank.of_unfenced hloaded

end Session

end Forthline
