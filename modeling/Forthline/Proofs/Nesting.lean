import Forthline.Proofs.Equipment

/-!
# Devices that attach devices

The hook of a device can attach and detach others. If the device itself cannot be attached after
all, the next address goes back to where it was, even if one of the others lies behind it by then.
The rack is still in order, but the next device is placed on top of that one. A session in which a
device is only attached while the next address is behind all that are attached stays in order.
-/

namespace Forthline

namespace Rack

def Clear (r : Rack) : Prop := ∀ o a, r.Covers o a → a < r.next

variable {r : Rack} {floor next : Int}

theorem Fit.clear (h : r.Fit floor) : r.Clear := fun _ _ ha => (h.bounds_of_covers ha).2

private theorem displaceAll_next (r : Rack) (next : Int) (addresses : Table Int)
    (ports : List Port) :
    { r with next }.displaceAll addresses ports =
      { r.displaceAll addresses ports with next } := by
  induction ports generalizing r with
  | nil => rfl
  | cons p ports ih => exact ih (r.displace p ((addresses.get? p.name).getD 0))

theorem without_next (r : Rack) (next : Int) (name : String) (d : Device) :
    { r with next }.without name d = { r.without name d with next } := by
  simp only [without, displaceAll_next]
  rfl

theorem Fit.of_clear (h : { r with next }.Fit floor) (hfloor : floor ≤ r.next)
    (hclear : r.Clear) : r.Fit floor := by
  refine { h with next := hfloor, devices := ?_ }
  intro name d hd
  obtain ⟨base, hbase, -, haddresses⟩ := h.devices name d hd
  by_cases hcells : cellsOf d.ports = 0
  · have hnone : d.ports = [] := by
      cases hports : d.ports with
      | nil => rfl
      | cons p ports =>
        have hsize := (h.decent name d hd).sized p (by rw [hports]; exact List.mem_cons_self)
        rw [hports, cellsOf_cons] at hcells
        omega
    refine ⟨floor, Int.le_refl floor, by omega, ?_⟩
    rw [hnone] at haddresses ⊢
    exact haddresses
  · refine ⟨base, hbase, ?_, haddresses⟩
    have hlast : (portAt? base d.ports (base + cellsOf d.ports - 1)).isSome := by
      rw [isSome_portAt?_iff]
      omega
    obtain ⟨p, hp⟩ := Option.isSome_iff_exists.mp hlast
    obtain ⟨hmem, start, hstart, hbounds⟩ :=
      (portAt?_eq_some_iff {} base (h.distinct name d hd)).mp hp
    have hcovers : r.Covers ⟨name, p⟩ (base + cellsOf d.ports - 1) := by
      refine ⟨d, start, hd, hmem, ?_, hbounds⟩
      change (r.addresses.get? name).bind (·.get? p.name) = some start
      rw [show r.addresses.get? name = _ from haddresses, Option.bind_some, hstart]
    have hlt := hclear _ _ hcovers
    omega

end Rack

/-- The session is ready but for its next address, which may have been set back. -/
structure Machine.Lowered (floor : Int) (m : Machine) : Prop where
  next : floor ≤ m.rack.next
  rack : ∃ next, { m.rack with next }.Fit floor
  memory : m.memory.Calm floor

section Lowered

variable {m n : Machine} {floor : Int}

theorem Machine.Ready.lowered (h : m.Ready floor) : m.Lowered floor :=
  ⟨h.rack.next, ⟨m.rack.next, h.rack⟩, h.memory⟩

theorem Machine.Lowered.ready (h : m.Lowered floor) (hclear : m.rack.Clear) : m.Ready floor := by
  obtain ⟨hnext, ⟨next, hrack⟩, hmemory⟩ := h
  exact ⟨hrack.of_clear hnext hclear, hmemory⟩

theorem Machine.Lowered.logged (h : m.Lowered floor) (hn : m.Logged n) : n.Lowered floor := by
  obtain ⟨_, _, rfl⟩ := hn
  exact ⟨h.next, h.rack, h.memory⟩

theorem Machine.Lowered.of_unfenced (h : m.Lowered floor) (hn : n.Unfenced m.rack floor) :
    n.Lowered floor := by
  obtain ⟨hrack, hcalm, -⟩ := hn
  refine ⟨?_, ?_, hcalm⟩
  · rw [hrack]
    exact h.next
  · rw [hrack]
    exact h.rack

theorem Machine.Lowered.lower (h : m.Lowered floor) {next : Int} (hnext : floor ≤ next) :
    Machine.Lowered floor { m with rack := { m.rack with next } } :=
  ⟨hnext, h.rack, h.memory⟩

end Lowered

namespace Run

variable {α β : Type} {floor : Int}

theorem unregister_lowered (device : String) {m : Machine} (h : m.Lowered floor) :
    ((unregister device).on m).2.Lowered floor := by
  obtain ⟨hnext, ⟨next, hrack⟩, hmemory⟩ := h
  cases hd : m.rack.devices.get? device with
  | none =>
    rw [unregister_of_missing hd]
    exact ⟨hnext, ⟨next, hrack⟩, hmemory⟩
  | some d =>
    obtain ⟨n, hon, hn⟩ := unregister_of_bound hd (hrack.bindings device d hd)
    have hcalm := (unregister_calm device).on hmemory
    rw [hon] at hcalm ⊢
    refine ⟨?_, ⟨next, ?_⟩, hcalm⟩
    · rw [hn, Rack.without_eq]
      exact hnext
    · rw [hn, ← Rack.without_next]
      exact hrack.without hd

/-- What a program makes of a session that is ready: it is ready again, or, if the program was
stopped, at least but for its next address. -/
def Settled (floor : Int) : Except Stop α × Machine → Prop
  | (.ok _, n) => n.Ready floor
  | (.error _, n) => n.Lowered floor

theorem Settled.lowered {r : Except Stop α × Machine} (h : Settled floor r) :
    r.2.Lowered floor := by
  rcases r with ⟨_ | _, n⟩
  · exact h
  · exact Machine.Ready.lowered h

def Settles (floor : Int) (p : Run α) : Prop := ∀ ⦃m⦄, m.Ready floor → Settled floor (p.on m)

namespace Settles

variable {p : Run α}

theorem of_keeps (hp : Keeps (Machine.Ready floor) p) : Settles floor p := by
  intro m hm
  have hkept := hp.on hm
  rcases hon : p.on m with ⟨_ | _, n⟩ <;> rw [hon] at hkept
  · exact hkept.lowered
  · exact hkept

protected theorem bind {k : α → Run β} (hp : Settles floor p) (hk : ∀ a, Settles floor (k a)) :
    Settles floor (p >>= k) := by
  intro m hm
  have hsettled := hp hm
  rcases hon : p.on m with ⟨stop | a, n⟩ <;> rw [hon] at hsettled
  · rw [on_bind_error hon]
    exact hsettled
  · rw [on_bind_ok hon]
    exact hk a hsettled

protected theorem discard (hp : Settles floor p) : Settles floor (discard p) :=
  hp.bind fun _ => of_keeps (Matches.pure _)

theorem forM_of_mem {γ : Type} {xs : List γ} {f : γ → Run PUnit}
    (hf : ∀ x ∈ xs, Settles floor (f x)) : Settles floor (xs.forM f) := by
  induction xs with
  | nil => exact of_keeps (Matches.pure _)
  | cons x xs ih =>
    refine (hf x List.mem_cons_self).bind fun _ => ?_
    exact ih fun y hy => hf y (List.mem_cons_of_mem x hy)

end Settles

section Hooks

variable {hook : Option Nat → HookAction → Run Unit}
  (hhook : ∀ binding a, a.Decent → Settles floor (hook binding a))

include hhook

private theorem setUp_settles {d : Device} (hd : d.Decent) (number : Nat) :
    Settles floor (setUp hook d number) := by
  have hwords : Settles floor (registerWords (some d.name)) :=
    .of_keeps (keeps_ready fun _ => registerWords_keeps unfenced_persists _)
  rw [setUp_eq, greet]
  cases hactions : d.onAttach with
  | none => exact hwords
  | some actions =>
    have hhanded : Keeps (Machine.Ready floor) (modify fun m =>
        { m with rack := { m.rack with handed := m.rack.handed.insert d.name number } }) :=
      Keeps.modify fun _ hm => ⟨hm.rack.handed _, hm.memory⟩
    refine Settles.bind (Settles.bind (.of_keeps hhanded) fun _ => ?_) fun _ => hwords
    exact Settles.forM_of_mem fun a ha => hhook _ a (hd.onAttach actions hactions a ha)

theorem attachBy_settles {o : Offer} (ho : o.Decent) : Settles floor (attachBy hook o) := by
  intro m hm
  have hregistered := register_ready ho hm
  have hset {d : Device} {number : Nat} {n : Machine}
      (hr : (register o).on m = (.ok (d, number), n)) :
      Settled floor ((setUp hook d number).on n) := by
    rw [hr] at hregistered
    exact setUp_settles hhook (ho.device (registered_of_ok hr).1) number hregistered
  have hcases := attachBy_cases hook o m
  rcases hattach : (attachBy hook o).on m with ⟨outcome, m'⟩
  rw [hattach] at hcases
  cases hcases with
  | refused hr =>
    rw [hr] at hregistered
    exact hregistered.lowered
  | done hr hs =>
    have hset := hset hr
    rw [hs] at hset
    exact hset
  | exhausted hr hs =>
    have hset := hset hr
    rw [hs] at hset
    exact hset
  | @gone d _ _ _ _ _ _ _ hr hs hn hu =>
    have hset := hset hr
    rw [hs] at hset
    have hunregistered := unregister_lowered d.name (hset.logged hn)
    rw [hu] at hunregistered
    exact hunregistered
  | @withdrawn d _ _ _ _ _ _ hr hs hn hu =>
    have hset := hset hr
    rw [hs] at hset
    have hunregistered := unregister_lowered d.name (hset.logged hn)
    rw [hu] at hunregistered
    exact hunregistered.lower hm.rack.next

theorem detachBy_settles (device : String) : Settles floor (detachBy hook device) := by
  have hunregister : Settles floor (unregister device >>= fun _ => pure device : Run String) :=
    .of_keeps (Matches.bind (Keeps.of_on fun _ hm => unregister_ready device hm) fun _ =>
      Matches.pure _)
  intro m hm
  rw [detachBy, on_get_bind]
  dsimp only
  cases hd : m.rack.devices.get? device with
  | none => exact hunregister hm
  | some d =>
    dsimp only
    cases hactions : d.onDetach with
    | none => exact hunregister hm
    | some actions =>
      have hemit : Settles floor (emit .cleanup) :=
        .of_keeps (Keeps.modify fun _ hn => ⟨hn.rack, hn.memory⟩)
      have hdecent := (hm.rack.decent device d hd).onDetach actions hactions
      exact hemit.bind (fun _ => (Settles.forM_of_mem fun a ha => hhook _ a (hdecent a ha)).bind
        fun _ => hunregister) hm

end Hooks

/-- Hooks settle, by induction on how deep they may nest. -/
theorem runHook_settles (fuel depth : Nat) (binding : Option Nat) {a : HookAction}
    (ha : a.Decent) : Settles floor (runHook fuel depth binding a) := by
  induction depth generalizing binding a with
  | zero =>
    cases ha with
    | port hmild =>
      exact .of_keeps (keeps_ready fun _ => (actFor_unfenced fuel binding hmild).discard)
    | attach _ => exact .of_keeps (Matches.fail _)
    | detach _ => exact .of_keeps (Matches.fail _)
  | succ depth ih =>
    have hhook (binding : Option Nat) (a : HookAction) (ha : a.Decent) :
        Settles floor (runHook fuel depth binding a) := ih binding ha
    cases ha with
    | port hmild =>
      exact .of_keeps (keeps_ready fun _ => (actFor_unfenced fuel binding hmild).discard)
    | attach ho => exact (attachBy_settles hhook ho).discard
    | detach device => exact (detachBy_settles hhook device).discard

theorem attach_settles (fuel : Nat) {o : Offer} (ho : o.Decent) : Settles floor (attach fuel o) :=
  attachBy_settles (fun _ _ => runHook_settles fuel nestingLimit _) ho

theorem detach_settles (fuel : Nat) (device : String) : Settles floor (detach fuel device) :=
  detachBy_settles (fun _ _ => runHook_settles fuel nestingLimit _) device

section Devices

variable {m : Machine} (fuel : Nat)

/-- Only a call that fails, and whose hook may have attached other devices, can set the next address
back before one that is attached. -/
theorem attach_ready {o : Offer} (ho : o.Decent) (h : m.Ready floor)
    (hend : StaysHome o.onAttach ∨ ((attach fuel o).on m).1.isOk = true) :
    ((attach fuel o).on m).2.Ready floor := by
  rcases hend with hhome | hok
  · exact attachBy_ready fuel nestingLimit ho hhome h
  · have hsettled := attach_settles fuel ho h
    obtain ⟨_, hon⟩ := eq_of_isOk hok
    rw [hon] at hsettled
    exact hsettled

theorem detach_ready {device : String} (h : m.Ready floor)
    (hend : StaysHome ((m.rack.devices.get? device).bind Device.onDetach) ∨
      ((detach fuel device).on m).1.isOk = true) :
    ((detach fuel device).on m).2.Ready floor := by
  rcases hend with hhome | hok
  · exact detachBy_of_home fuel nestingLimit (fun _ hn => unregister_ready device hn)
      (fun _ hn => h.of_unfenced hn) h.memory (h.rack.decent device) hhome
  · have hsettled := detach_settles fuel device h
    obtain ⟨_, hon⟩ := eq_of_isOk hok
    rw [hon] at hsettled
    exact hsettled

theorem detach_lowered {device : String} (h : m.Lowered floor)
    (hclear : StaysHome ((m.rack.devices.get? device).bind Device.onDetach) ∨ m.rack.Clear) :
    ((detach fuel device).on m).2.Lowered floor := by
  rcases hclear with hhome | hclear
  · obtain ⟨_, hrack⟩ := h.rack
    exact detachBy_of_home fuel nestingLimit (fun _ hn => unregister_lowered device hn)
      (fun _ hn => h.of_unfenced hn) h.memory (hrack.decent device) hhome
  · exact (detach_settles fuel device (h.ready hclear)).lowered

theorem actOn_lowered (device : String) {action : PortAction} (hmild : action.mild = true)
    (h : m.Lowered floor) : ((actOn fuel device action).on m).2.Lowered floor :=
  h.of_unfenced (actOn_unfenced fuel device hmild h.memory)

theorem call_lowered (call : Session.Call) (h : m.Lowered floor) :
    ((call.run fuel).on m).2.Lowered floor :=
  h.of_unfenced (call_unfenced fuel call h.memory)

end Devices

end Run

namespace Session

/-- The states of sessions with devices: those after the start, after lines, keys and whatever else
the host asks, after a device was attached or detached or could not be, and after a device acted.
The devices have different names for their ports, and subscribers that do not update one. Their
hooks can attach and detach other devices. A device is only attached while the next address is
behind all that are attached. -/
inductive Equipped : Machine → Prop where
  | start {fuel : Nat} {c : Config} {m : Machine} : Session.start fuel c = .ok m → Equipped m
  | call {m : Machine} (fuel : Nat) (call : Call) : Equipped m → Equipped ((call.run fuel).on m).2
  | attach {m : Machine} {o : Offer} (fuel : Nat) : Equipped m → o.Decent → m.rack.Clear →
      Equipped ((Run.attach fuel o).on m).2
  | detach {m : Machine} (fuel : Nat) (device : String) : Equipped m →
      StaysHome ((m.rack.devices.get? device).bind Device.onDetach) ∨ m.rack.Clear →
      Equipped ((Run.detach fuel device).on m).2
  | act {m : Machine} {action : PortAction} (fuel : Nat) (device : String) : Equipped m →
      action.mild = true → Equipped ((Run.actOn fuel device action).on m).2

theorem Equipped.lowered {m : Machine} (h : Equipped m) : ∃ floor, m.Lowered floor := by
  induction h with
  | start h => exact ⟨_, (ready_start h).lowered⟩
  | call fuel call _ ih =>
    obtain ⟨floor, hlowered⟩ := ih
    exact ⟨floor, Run.call_lowered fuel call hlowered⟩
  | attach fuel _ ho hclear ih =>
    obtain ⟨floor, hlowered⟩ := ih
    exact ⟨floor, (Run.attach_settles fuel ho (hlowered.ready hclear)).lowered⟩
  | detach fuel device _ hclear ih =>
    obtain ⟨floor, hlowered⟩ := ih
    exact ⟨floor, Run.detach_lowered fuel hlowered hclear⟩
  | act fuel device _ hmild ih =>
    obtain ⟨floor, hlowered⟩ := ih
    exact ⟨floor, Run.actOn_lowered fuel device hmild hlowered⟩

end Session

end Forthline
