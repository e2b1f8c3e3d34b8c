import Forthline.Proofs.Outcomes
import Forthline.Proofs.Reachable

/-!
# Registering devices

The ports of a device are placed one after another. If one of them does not fit, those before it
stay placed, although the device is not attached.
-/

namespace Forthline

namespace Memory

variable {σ : Type}

theorem locate_int {m : Memory σ} {address : Int} {size : Int} {a : Nat}
    (h : m.locate (.int address) size = .ok a) : (a : Int) = address := by
  simp only [locate, inRange] at h
  split at h
  · split at h <;> cases h
  · rename_i hrange
    cases h
    simp only [Bool.or_eq_true, decide_eq_true_eq, not_or, Int.not_lt] at hrange
    omega

theorem locate_of_addBlock {m m' : Memory σ} {name : String} {size b : Int} {a : Value}
    (h : m.addBlock name size (some a) = .ok (b, m')) : ∃ place, m.locate a size = .ok place := by
  cases hlocate : m.locate a size with
  | error c =>
    simp only [addBlock, hlocate] at h
    cases h
  | ok place => exact ⟨place, rfl⟩

theorem addBlock_at (m : Memory σ) (name : String) (size a : Int) :
    m.addBlock name size (some (.int a)) =
        .ok (a, m.bind name { address := a, size, kind := .block }) ∨
    ∃ c, m.locate (.int a) size = .error c ∧
      m.addBlock name size (some (.int a)) = .error c := by
  unfold addBlock
  cases h : m.locate (.int a) size with
  | error c =>
    refine .inr ⟨c, rfl, ?_⟩
    dsimp only
    rw [h]
    rfl
  | ok b =>
    refine .inl ?_
    have hb := locate_int h
    dsimp only
    rw [h]
    change Except.ok ((b : Int), m.bind name { address := b, size, kind := .block }) = _
    rw [hb]

end Memory

def cellsOf : List Port → Nat
  | [] => 0
  | p :: ports => p.size + cellsOf ports

@[simp] theorem cellsOf_nil : cellsOf [] = 0 := rfl

@[simp] theorem cellsOf_cons (p : Port) (ports : List Port) :
    cellsOf (p :: ports) = p.size + cellsOf ports := rfl

def portAt? (base : Int) : List Port → Int → Option Port
  | [], _ => none
  | p :: ports, a =>
    if base ≤ a ∧ a < base + p.size then some p else portAt? (base + p.size) ports a

theorem isSome_portAt?_iff {base a : Int} {ports : List Port} :
    (portAt? base ports a).isSome ↔ base ≤ a ∧ a < base + cellsOf ports := by
  induction ports generalizing base with
  | nil =>
    simp only [portAt?, Option.isSome_none, Bool.false_eq_true, cellsOf_nil, false_iff]
    omega
  | cons p ports ih =>
    rw [portAt?, cellsOf_cons]
    split
    · simp
      omega
    · rw [ih]
      omega

namespace Rack

private theorem get?_insertRange (owners : Std.TreeMap Int Owner) (o : Owner) (first : Int)
    (count : Nat) (a : Int) :
    ((List.range count).foldl
        (fun owners (i : Nat) => owners.insert (first + i) o) owners).get? a =
      if first ≤ a ∧ a < first + count then some o else owners.get? a := by
  induction count with
  | zero =>
    have hout : ¬(first ≤ a ∧ a < first + (0 : Nat)) := by omega
    rw [if_neg hout]
    rfl
  | succ count ih =>
    rw [List.range_succ, List.foldl_append]
    simp only [Std.TreeMap.get?_eq_getElem?] at ih ⊢
    simp only [List.foldl_cons, List.foldl_nil, Std.TreeMap.getElem?_insert,
      Std.compare_eq_iff_eq, ih]
    grind

private theorem get?_eraseRange (owners : Std.TreeMap Int Owner) (first : Int) (count : Nat)
    (a : Int) :
    ((List.range count).foldl (fun owners (i : Nat) => owners.erase (first + i)) owners).get? a =
      if first ≤ a ∧ a < first + count then none else owners.get? a := by
  induction count with
  | zero =>
    have hout : ¬(first ≤ a ∧ a < first + (0 : Nat)) := by omega
    rw [if_neg hout]
    rfl
  | succ count ih =>
    rw [List.range_succ, List.foldl_append]
    simp only [Std.TreeMap.get?_eq_getElem?] at ih ⊢
    simp only [List.foldl_cons, List.foldl_nil, Std.TreeMap.getElem?_erase,
      Std.compare_eq_iff_eq, ih]
    grind

theorem owners_place (r : Rack) (device : String) (p : Port) (address a : Int) :
    (r.place device p address).owners.get? a =
      if address ≤ a ∧ a < address + p.size then some ⟨device, p⟩ else r.owners.get? a :=
  get?_insertRange r.owners ⟨device, p⟩ address p.size a

theorem owners_displace (r : Rack) (p : Port) (address a : Int) :
    (r.displace p address).owners.get? a =
      if address ≤ a ∧ a < address + p.size then none else r.owners.get? a :=
  get?_eraseRange r.owners address p.size a

end Rack

namespace Machine

def placePort (m : Machine) (device : String) (p : Port) : Machine :=
  { m with
    memory := m.memory.bind (Rack.blockName device p.name)
      { address := m.rack.next, size := p.size, kind := .block }
    rack := m.rack.place device p m.rack.next }

def placeAll (m : Machine) (device : String) : List Port → Machine
  | [] => m
  | p :: ports => (m.placePort device p).placeAll device ports

structure SamePorts (m n : Machine) : Prop where
  devices : n.rack.devices = m.rack.devices
  bindings : n.rack.bindings = m.rack.bindings
  addresses : n.rack.addresses = m.rack.addresses
  owners : n.rack.owners = m.rack.owners
  next : n.rack.next = m.rack.next
  blocks : n.memory.bindings = m.memory.bindings

variable (m : Machine) (device : String)

theorem placeAll_next (ports : List Port) :
    (m.placeAll device ports).rack.next = m.rack.next + cellsOf ports := by
  induction ports generalizing m with
  | nil => simp [placeAll]
  | cons p ports ih =>
    have hstep : (m.placePort device p).rack.next = m.rack.next + p.size := rfl
    rw [placeAll, ih, hstep, cellsOf_cons]
    omega

theorem placeAll_devices (ports : List Port) :
    (m.placeAll device ports).rack.devices = m.rack.devices ∧
      (m.placeAll device ports).rack.bindings = m.rack.bindings ∧
      (m.placeAll device ports).rack.addresses = m.rack.addresses := by
  induction ports generalizing m with
  | nil => exact ⟨rfl, rfl, rfl⟩
  | cons p ports ih => exact ih (m.placePort device p)

theorem placeAll_bindings (ports : List Port) :
    (m.placeAll device ports).bindings = m.bindings := by
  induction ports generalizing m with
  | nil => rfl
  | cons p ports ih => exact ih (m.placePort device p)

theorem owners_placeAll (ports : List Port) (a : Int) :
    (m.placeAll device ports).rack.owners.get? a =
      ((portAt? m.rack.next ports a).map (Owner.mk device)).or (m.rack.owners.get? a) := by
  induction ports generalizing m with
  | nil => rfl
  | cons p ports ih =>
    have hnext : (m.placePort device p).rack.next = m.rack.next + p.size := rfl
    have howners : (m.placePort device p).rack.owners.get? a =
        if m.rack.next ≤ a ∧ a < m.rack.next + p.size then some ⟨device, p⟩
        else m.rack.owners.get? a := m.rack.owners_place device p m.rack.next a
    rw [placeAll, ih, hnext, howners, portAt?]
    by_cases hin : m.rack.next ≤ a ∧ a < m.rack.next + p.size
    · have hlater : portAt? (m.rack.next + p.size) ports a = none := by
        rw [← Option.not_isSome_iff_eq_none, isSome_portAt?_iff]
        omega
      simp [hin, hlater]
    · simp [hin]

theorem Logged.placeAll {m n : Machine} (h : m.Logged n) (device : String) (ports : List Port) :
    (m.placeAll device ports).Logged (n.placeAll device ports) := by
  induction ports generalizing m n with
  | nil => exact h
  | cons p ports ih =>
    refine ih ?_
    obtain ⟨entries, events, rfl⟩ := h
    exact ⟨entries, events, rfl⟩

end Machine

def layOut (addresses : Table Int) (next : Int) : List Port → Table Int
  | [] => addresses
  | p :: ports => layOut (addresses.insert p.name next) (next + p.size) ports

def Machine.registered (m : Machine) (d : Device) : Machine :=
  { m.placeAll d.name d.ports with
    bindings := m.bindings ++ [{ device := d.name }]
    rack := (m.placeAll d.name d.ports).rack.attach d (layOut {} m.rack.next d.ports)
      m.bindings.length }

namespace Rack

structure Accepts (r : Rack) (d : Device) : Prop where
  named : d.name.isEmpty = false
  free : r.devices.get? d.name = none
  declared : ∃ ds : List Declaration, ds.mapM Declaration.port? = some d.ports

theorem accepts_of_accept {r : Rack} {o : Offer} {d : Device} (h : r.accept o = .ok d) :
    r.Accepts d := by
  unfold Rack.accept at h
  split at h
  · split at h
    · cases h
    · rename_i hname
      split at h
      · cases h
      · rename_i hfree
        split at h
        · cases h
        · rename_i hports
          cases h
          exact ⟨by simpa using hname, by simpa [Table.contains] using hfree, _, hports⟩
  · cases h

private theorem size_pos_of_declared {declared : Declaration} {p : Port}
    (h : declared.port? = some p) : 0 < p.size := by
  cases declared with
  | other => cases h
  | port name size access description =>
    simp only [Declaration.port?] at h
    split at h
    · obtain ⟨a, -, rfl⟩ := Option.map_eq_some_iff.mp h
      change 0 < size.toNat
      omega
    · cases h

theorem Accepts.size_pos {r : Rack} {d : Device} (h : r.Accepts d) :
    ∀ p ∈ d.ports, 0 < p.size := by
  obtain ⟨ds, hds⟩ := h.declared
  rw [mapM_eq_some_iff] at hds
  generalize d.ports = ports at hds
  induction hds with
  | nil => exact nofun
  | cons hp _ ih => exact List.forall_mem_cons.mpr ⟨size_pos_of_declared hp, ih⟩

end Rack

namespace Run

theorem placePorts_cons (device : String) (addresses : Table Int) (p : Port)
    (ports : List Port) (m : Machine) :
    (∃ n, (∃ a, m.memory.locate (.int m.rack.next) p.size = .ok a) ∧
      (m.placePort device p).Logged n ∧
      (placePorts device addresses (p :: ports)).on m =
        (placePorts device (addresses.insert p.name m.rack.next) ports).on n) ∨
    ∃ c, m.memory.locate (.int m.rack.next) p.size = .error c ∧
      (placePorts device addresses (p :: ports)).on m = (.error (.failed { cause := c }), m) := by
  rcases m.memory.addBlock_at (Rack.blockName device p.name) p.size m.rack.next with
    h | ⟨c, hc, h⟩
  · refine .inl ?_
    have hroom := Memory.locate_of_addBlock h
    let block := Rack.blockName device p.name
    let size := p.size
    let address := m.rack.next
    obtain ⟨_, ⟨entries, events, rfl⟩, hreport⟩ := report_logged .debug "Memory"
      s!"Allocating block `{block}` of {size} cell(s) at {address}."
      { m with memory := m.memory.bind block { address, size := p.size, kind := .block } }
    refine ⟨_, hroom, ⟨entries, events, rfl⟩, ?_⟩
    rw [placePorts, on_get_bind]
    dsimp only
    rw [h, on_bind_ok (on_lift_ok _ _), on_modify_bind]
    exact on_bind_ok hreport _
  · refine .inr ⟨c, hc, ?_⟩
    rw [placePorts, on_get_bind]
    dsimp only
    rw [h]
    exact on_bind_error (on_lift_error _ _) _

theorem placePorts_cases (device : String) (addresses : Table Int) (ports : List Port)
    (m : Machine) :
    (∃ n, (m.placeAll device ports).Logged n ∧
      (placePorts device addresses ports).on m =
        (.ok (layOut addresses m.rack.next ports), n)) ∨
    ∃ before p after c n, ports = before ++ p :: after ∧ (m.placeAll device before).Logged n ∧
      m.memory.locate (.int (m.rack.next + cellsOf before)) p.size = .error c ∧
      (placePorts device addresses ports).on m = (.error (.failed { cause := c }), n) := by
  induction ports generalizing addresses m with
  | nil => exact .inl ⟨m, .refl m, rfl⟩
  | cons p ports ih =>
    rcases placePorts_cons device addresses p ports m with ⟨n, -, hn, h⟩ | ⟨c, hc, h⟩
    · have hnext : n.rack.next = m.rack.next + p.size := by
        obtain ⟨_, _, rfl⟩ := hn
        rfl
      have hsize : n.memory.size = m.memory.size := by
        obtain ⟨_, _, rfl⟩ := hn
        rfl
      rcases ih (addresses.insert p.name m.rack.next) n with
        ⟨n', hn', h'⟩ | ⟨before, q, after, c, n', rfl, hn', hc, h'⟩
      · rw [hnext] at h'
        exact .inl ⟨n', (hn.placeAll device ports).trans hn', h.trans h'⟩
      · refine .inr ⟨p :: before, q, after, c, n', rfl, (hn.placeAll device before).trans hn', ?_,
          h.trans h'⟩
        rw [hnext, Memory.locate_congr hsize] at hc
        rwa [cellsOf_cons, Int.natCast_add, ← Int.add_assoc]
    · refine .inr ⟨[], p, ports, c, m, rfl, .refl m, ?_, h⟩
      simpa using hc

private theorem register_of_refused {o : Offer} {m : Machine} {c : Cause}
    (h : m.rack.accept o = .error c) :
    (register o).on m = (.error (.failed { cause := c }), m) := by
  rw [register, on_get_bind, h]
  exact on_bind_error (on_lift_error _ _) _

private theorem register_of_misfit {o : Offer} {d : Device} {m n : Machine} {stop : Stop}
    (h : m.rack.accept o = .ok d)
    (hplace : (placePorts d.name {} d.ports).on m = (.error stop, n)) :
    (register o).on m = (.error stop, n) := by
  rw [register, on_get_bind, h, on_bind_ok (on_lift_ok _ _)]
  exact on_bind_error hplace _

private theorem register_of_placed {o : Offer} {d : Device} {m n : Machine}
    (h : m.rack.accept o = .ok d) (hn : (m.placeAll d.name d.ports).Logged n)
    (hplace : (placePorts d.name {} d.ports).on m =
      (.ok (layOut {} m.rack.next d.ports), n)) :
    ∃ n', (m.registered d).Logged n' ∧
      (register o).on m = (.ok (d, m.bindings.length), n') := by
  have hbindings : n.bindings = m.bindings := by
    obtain ⟨_, _, rfl⟩ := hn
    exact m.placeAll_bindings d.name d.ports
  let name := d.name
  let count := (layOut {} m.rack.next d.ports).size
  obtain ⟨n', hn', hreport⟩ := report_logged .info "Device"
    s!"Registered device `{name}` with {count} port(s)."
    { n with
      bindings := n.bindings ++ [{ device := d.name }]
      rack := n.rack.attach d (layOut {} m.rack.next d.ports) n.bindings.length }
  refine ⟨n', ?_, ?_⟩
  · refine Machine.Logged.trans ?_ hn'
    rw [hbindings]
    obtain ⟨entries, events, rfl⟩ := hn
    exact ⟨entries, events, rfl⟩
  · rw [register, on_get_bind, h, on_bind_ok (on_lift_ok _ _), on_bind_ok hplace, on_get_bind,
      on_set_bind, on_bind_ok hreport, hbindings]
    rfl

/-- A device is refused, or one of its ports does not fit, or it is registered. -/
theorem register_cases (o : Offer) (m : Machine) :
    (∃ c, m.rack.accept o = .error c ∧
      (register o).on m = (.error (.failed { cause := c }), m)) ∨
    (∃ d before p after c n, m.rack.accept o = .ok d ∧ d.ports = before ++ p :: after ∧
      m.memory.locate (.int (m.rack.next + cellsOf before)) p.size = .error c ∧
      (m.placeAll d.name before).Logged n ∧
      (register o).on m = (.error (.failed { cause := c }), n)) ∨
    ∃ d n, m.rack.accept o = .ok d ∧ (m.registered d).Logged n ∧
      (register o).on m = (.ok (d, m.bindings.length), n) := by
  cases haccept : m.rack.accept o with
  | error c => exact .inl ⟨c, rfl, register_of_refused haccept⟩
  | ok d =>
    rcases placePorts_cases d.name {} d.ports m with
      ⟨n, hn, hplace⟩ | ⟨before, p, after, c, n, hports, hn, hc, hplace⟩
    · obtain ⟨n', hn', h⟩ := register_of_placed haccept hn hplace
      exact .inr (.inr ⟨d, n', rfl, hn', h⟩)
    · exact .inr (.inl ⟨d, before, p, after, c, n, rfl, hports, hc, hn,
        register_of_misfit haccept hplace⟩)

private theorem samePorts_iff_of_placed {m n : Machine} {device : String} {before : List Port}
    (hn : (m.placeAll device before).Logged n) (hsize : ∀ p ∈ before, 0 < p.size) :
    m.SamePorts n ↔ before = [] := by
  constructor
  · intro hsame
    have hnext := hsame.next
    obtain ⟨_, _, rfl⟩ := hn
    rw [show _ = (m.placeAll device before).rack.next from rfl, m.placeAll_next] at hnext
    cases before with
    | nil => rfl
    | cons p before =>
      have hp := hsize p List.mem_cons_self
      rw [cellsOf_cons] at hnext
      omega
  · intro hnil
    subst hnil
    obtain ⟨_, _, rfl⟩ := hn
    exact ⟨rfl, rfl, rfl, rfl, rfl, rfl⟩

/-- A failed registration keeps the ports that it had placed. A device that is refused leaves no
trace. If a port does not fit, the device is not attached, but the ports before it keep their
addresses, and their blocks in memory, and the next device is placed after them: there is no
trace exactly if the first port is the one that does not fit. -/
theorem failed_registration_keeps_placed_ports {o : Offer} {m m' : Machine} {stop : Stop}
    (h : (register o).on m = (.error stop, m')) :
    (∃ c, m.rack.accept o = .error c ∧ stop = .failed { cause := c } ∧ m' = m) ∨
    ∃ d before p after c, m.rack.accept o = .ok d ∧ d.ports = before ++ p :: after ∧
      m.memory.locate (.int (m.rack.next + cellsOf before)) p.size = .error c ∧
      stop = .failed { cause := c } ∧ (m.placeAll d.name before).Logged m' ∧
      m'.rack.devices = m.rack.devices ∧ m'.rack.bindings = m.rack.bindings ∧
      m'.rack.addresses = m.rack.addresses ∧ m'.rack.next = m.rack.next + cellsOf before ∧
      (m.SamePorts m' ↔ before = []) := by
  rcases register_cases o m with
    ⟨c, hc, hr⟩ | ⟨d, before, p, after, c, n, haccept, hports, hc, hn, hr⟩ | ⟨d, n, -, -, hr⟩
  · rw [hr] at h
    cases h
    exact .inl ⟨c, hc, rfl, rfl⟩
  · rw [hr] at h
    cases h
    have hsize : ∀ q ∈ before, 0 < q.size := by
      intro q hq
      refine (Rack.accepts_of_accept haccept).size_pos q ?_
      rw [hports]
      exact List.mem_append_left _ hq
    obtain ⟨hdevices, hbindings, haddresses⟩ := m.placeAll_devices d.name before
    have hnext := m.placeAll_next d.name before
    have hiff := samePorts_iff_of_placed hn hsize
    refine .inr ⟨d, before, p, after, c, haccept, hports, hc, rfl, hn, ?_, ?_, ?_, ?_, hiff⟩
    all_goals
      obtain ⟨_, _, rfl⟩ := hn
      assumption
  · rw [hr] at h
    cases h

private def oversized : Offer :=
  { name := some "d"
    ports := some [.port "a" 1 "readwrite" "", .port "b" 70000 "readwrite" ""] }

private def misfit : Except Stop (Device × Nat) × Machine :=
  (register oversized).on Session.builtin

private theorem error_of_not_isOk {α : Type} {o : Except Stop α × Machine} (h : o.1.isOk = false) :
    ∃ stop, o = (.error stop, o.2) := by
  obtain ⟨stop | a, m⟩ := o
  · exact ⟨stop, rfl⟩
  · cases h

private theorem misfit_fails : ∃ stop, misfit = (.error stop, misfit.2) :=
  error_of_not_isOk (by decide +kernel)

/-- The port that did fit is still placed. -/
theorem misfit_keeps_port :
    ∃ d before p after, Session.builtin.rack.accept oversized = .ok d ∧
      d.ports = before ++ p :: after ∧ ¬ Session.builtin.SamePorts misfit.2 ∧ before ≠ [] := by
  obtain ⟨stop, h⟩ := misfit_fails
  have haccept : (Session.builtin.rack.accept oversized).isOk = true := by decide +kernel
  have hnext : misfit.2.rack.next ≠ Session.builtin.rack.next := by decide +kernel
  have htrace : ¬ Session.builtin.SamePorts misfit.2 := fun hsame => hnext hsame.next
  rcases failed_registration_keeps_placed_ports (o := oversized) (m := Session.builtin) h with
    ⟨c, hc, -⟩ | ⟨d, before, p, after, c, hd, hports, -, -, -, -, -, -, -, hiff⟩
  · rw [hc] at haccept
    cases haccept
  · exact ⟨d, before, p, after, hd, hports, htrace, fun hnil => htrace (hiff.mpr hnil)⟩

/-- A registration can fail and leave an address to a device that is not attached. -/
theorem registration_can_leave_trace :
    Session.Reached Session.builtin ∧
    ∃ stop m', (register oversized).on Session.builtin = (.error stop, m') ∧
      m'.rack.devices.get? "d" = none ∧
      m'.rack.owners.get? 0x1000 = some ⟨"d", ⟨"a", 1, .readWrite, ""⟩⟩ ∧
      ¬ Session.builtin.SamePorts m' := by
  obtain ⟨stop, h⟩ := misfit_fails
  have hnext : misfit.2.rack.next ≠ Session.builtin.rack.next := by decide +kernel
  refine ⟨Session.builtin_reached, stop, misfit.2, h, ?_, by decide +kernel,
    fun hsame => hnext hsame.next⟩
  exact Option.isNone_iff_eq_none.mp (by decide +kernel)

end Run

end Forthline
