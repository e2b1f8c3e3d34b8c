import Forthline.Proofs.Allocation
import Forthline.Proofs.Hosting

/-!
# Where variables and ports live

A host can register and unregister devices besides all else that it does to a session. Whatever the
history of a session, its variables have a cell each in the heap, and its ports lie behind the heap
and inside the memory.
-/

namespace Forthline

/-- Variables have one cell each in the heap, which ends at the floor, and all cells of ports lie
inside the memory. -/
structure Machine.Housed (floor : Int) (m : Machine) : Prop where
  heapLimit : m.memory.heapLimit = floor
  declared : ∀ name b, m.memory.bindings.get? name = some b → b.kind = .variable →
    b.size = 1 ∧ b.address < floor
  owners : ∀ a o, m.rack.owners.get? a = some o → 0 ≤ a ∧ a < m.memory.size

section Housed

variable {m : Machine} {floor : Int}

private theorem Machine.Housed.evolves (h : m.Housed floor) {memory : Memory Subscription}
    (he : m.memory.Evolves memory) : Machine.Housed floor { m with memory } where
  heapLimit := he.heapLimit.trans h.heapLimit
  declared := by
    rw [he.bindings]
    exact h.declared
  owners := by
    rw [he.size]
    exact h.owners

private theorem Machine.Housed.bind (h : m.Housed floor) (name : String) {b : Binding}
    (hb : b.kind = .variable → b.size = 1 ∧ b.address < floor) :
    Machine.Housed floor { m with memory := m.memory.bind name b } := by
  refine ⟨h.heapLimit, ?_, h.owners⟩
  intro name' b' hb' hkind
  rw [Memory.bind, Table.get?_insert] at hb'
  split at hb'
  · cases hb'
    exact hb hkind
  · exact h.declared name' b' hb' hkind

private theorem Machine.Housed.declare (h : m.Housed floor) {name : String} {a : Int}
    {memory : Memory Subscription} (hv : m.memory.addVariable name 1 = .ok (a, memory)) :
    Machine.Housed floor { m with memory } := by
  rcases m.memory.addVariable_cases name 1 with ⟨hroom, hadd⟩ | ⟨-, c, hadd⟩
  · rw [hadd] at hv
    cases hv
    have hadvanced : Machine.Housed floor { m with memory := m.memory.advance 1 } :=
      ⟨h.heapLimit, h.declared, h.owners⟩
    refine hadvanced.bind _ fun _ => ⟨rfl, ?_⟩
    have hlimit := h.heapLimit
    have hend := hroom.2
    dsimp only
    omega
  · rw [hadd] at hv
    cases hv

end Housed

namespace Run

variable {floor : Int}

private theorem housed_invariant : Invariant (Machine.Housed floor) where
  work := fun _ _ h hw => { h.evolves hw.memory with }
  learn := fun _ _ _ _ _ h _ => { h with }
  declare := fun _ _ _ _ h hv => h.declare hv
  wake := fun _ _ h _ => { h with }
  pause := fun _ h => { h with }
  hold := fun _ h => { h with }
  await := fun _ h => { h with }
  touch := fun _ h => { h with }
  sleep := fun _ _ h => { h with }
  record := fun _ _ h => { h with }
  rest := fun _ _ _ _ _ _ _ _ h => { h with }

private theorem housed_persists : Persists (Machine.Housed floor) where
  carries := housed_invariant.carries
  heeds := housed_invariant.respects.heeds
  reads := housed_invariant.reads
  aside := by
    intro m n hm h
    have hmemory : n.memory = m.memory := congrArg Estate.memory h
    have hrack : n.rack = m.rack := congrArg Estate.rack h
    refine ⟨?_, ?_, ?_⟩
    · rw [hmemory]
      exact hm.heapLimit
    · rw [hmemory]
      exact hm.declared
    · rw [hmemory, hrack]
      exact hm.owners
  drop := fun _ h => { h with }
  wake := fun _ _ h _ => { h with }
  fire := fun _ _ _ h _ => { h with }

theorem housed_hosts : Hosts (Machine.Housed floor) where
  persists := housed_persists
  abides := housed_invariant.respects.toAbides
  place := by
    intro m p a device hm ha
    obtain ⟨hlower, hupper, -⟩ := (Memory.locate_eq_ok_iff m.memory _ _ _).mp ha
    have hbound := hm.bind (Rack.blockName device p.name)
      (b := { address := m.rack.next, size := p.size, kind := .block }) nofun
    refine ⟨hbound.heapLimit, hbound.declared, ?_⟩
    intro i o ho
    change (m.rack.place device p m.rack.next).owners.get? i = some o at ho
    rw [Rack.owners_place] at ho
    change 0 ≤ i ∧ i < m.memory.size
    split at ho
    · omega
    · exact hm.owners i o ho
  displace := by
    intro m device p address hm
    refine ⟨hm.heapLimit, ?_, ?_⟩
    · intro name b hb
      rw [Memory.release, Table.get?_erase] at hb
      split at hb
      · cases hb
      · exact hm.declared name b hb
    · intro i o ho
      rw [Rack.owners_displace] at ho
      split at ho
      · cases ho
      · exact hm.owners i o ho
  enroll := fun _ _ _ _ _ _ h => { h with }
  lower := fun _ _ _ h => { h with }

end Run

namespace Session

/-- The states of sessions whose host also registers and unregisters devices by itself, besides what
else it can do. The devices have different names for their ports. If one of them attaches or
detaches others in a hook, then the call of the host succeeds. -/
inductive Furnished : Machine → Prop where
  | start {fuel : Nat} {c : Config} {m : Machine} : Session.start fuel c = .ok m → Furnished m
  | call {m : Machine} (fuel : Nat) (call : Call) : Furnished m →
      Furnished ((call.run fuel).on m).2
  | attach {m : Machine} {o : Offer} (fuel : Nat) : Furnished m → o.Decent →
      StaysHome o.onAttach ∨ ((Run.attach fuel o).on m).1.isOk = true →
      Furnished ((Run.attach fuel o).on m).2
  | detach {m : Machine} (fuel : Nat) (device : String) : Furnished m →
      StaysHome ((m.rack.devices.get? device).bind Device.onDetach) ∨
        ((Run.detach fuel device).on m).1.isOk = true →
      Furnished ((Run.detach fuel device).on m).2
  | act {m : Machine} {action : PortAction} (fuel : Nat) (device : String) : Furnished m →
      action.mild = true → Furnished ((Run.actOn fuel device action).on m).2
  | register {m m' : Machine} {o : Offer} {registered : Device × Nat} : Furnished m → o.Decent →
      (Run.register o).on m = (.ok registered, m') → Furnished m'
  | unregister {m m' : Machine} {device : String} : Furnished m →
      (Run.unregister device).on m = (.ok (), m') → Furnished m'

private theorem housed_start {fuel : Nat} {c : Config} {m : Machine}
    (h : Session.start fuel c = .ok m) : m.Housed c.deviceBase := by
  obtain ⟨threshold, hload⟩ := load_of_start h
  have hblank : (blank c threshold).Housed c.deviceBase := ⟨rfl, nofun, nofun⟩
  have hloaded := (Run.load_keeps Run.housed_hosts.persists fuel c.loadLibrary).on hblank
  rwa [hload] at hloaded

/-- All through its history, the ports of a session lie from the same address on, where the heap
ends. -/
theorem Furnished.housed {m : Machine} (h : Furnished m) :
    ∃ floor, m.Ready floor ∧ m.Housed floor := by
  induction h with
  | start h => exact ⟨_, ready_start h, housed_start h⟩
  | call fuel call _ ih =>
    obtain ⟨floor, hready, hhoused⟩ := ih
    have hunfenced := Run.call_unfenced fuel call hready.memory
    exact ⟨floor, hready.of_unfenced hunfenced, (Run.housed_hosts.call fuel call).on hhoused⟩
  | attach fuel _ ho hend ih =>
    obtain ⟨floor, hready, hhoused⟩ := ih
    exact ⟨floor, Run.attach_ready fuel ho hready hend, (Run.housed_hosts.attach fuel _).on hhoused⟩
  | detach fuel device _ hend ih =>
    obtain ⟨floor, hready, hhoused⟩ := ih
    exact ⟨floor, Run.detach_ready fuel hready hend,
      (Run.housed_hosts.detach fuel device).on hhoused⟩
  | act fuel device _ hmild ih =>
    obtain ⟨floor, hready, hhoused⟩ := ih
    exact ⟨floor, hready.of_unfenced (Run.actOn_unfenced fuel device hmild hready.memory),
      (Run.housed_hosts.actOn fuel device _).on hhoused⟩
  | @register m m' o registered _ ho hr ih =>
    obtain ⟨floor, hready, hhoused⟩ := ih
    have hkept := (Run.housed_hosts.register o).on hhoused
    have hregistered := Run.register_ready ho hready
    rw [hr] at hkept hregistered
    exact ⟨floor, hregistered, hkept⟩
  | @unregister m m' device _ hr ih =>
    obtain ⟨floor, hready, hhoused⟩ := ih
    have hkept := (Run.housed_hosts.unregister device).on hhoused
    have hunregistered := Run.unregister_ready device hready
    rw [hr] at hkept hunregistered
    exact ⟨floor, hunregistered, hkept⟩

end Session

end Forthline
