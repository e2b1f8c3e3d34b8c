import Forthline.Proofs.Nesting

/-!
# What hosts do

Devices come and go while lines are read. What survives the lines of a session survives its whole
history, if it survives that a port is placed where there is room for it, and that one is taken
away again.
-/

namespace Forthline

namespace Run

/-- The property survives what hosts do to a session. It says nothing of the devices and of their
bindings, and the next port can be placed where it once could be. -/
structure Hosts (I : Machine → Prop) : Prop where
  persists : Persists I
  abides : Abides (Itself I)
  place : ∀ ⦃m p a⦄ device, I m → m.memory.locate (.int m.rack.next) p.size = .ok a →
    I (m.placePort device p)
  displace : ∀ ⦃m⦄ device p address, I m →
    I { m with
        rack := m.rack.displace p address
        memory := m.memory.release (Rack.blockName device p.name) }
  enroll : ∀ ⦃m⦄ bindings devices addresses held handed, I m →
    I { m with
        bindings
        rack := { m.rack with devices, addresses, bindings := held, handed } }
  lower : ∀ ⦃m n⦄, I m → I n → I { n with rack := { n.rack with next := m.rack.next } }

namespace Hosts

variable {I : Machine → Prop} (hI : Hosts I)

include hI

private theorem report (level : Level) (category message : String) :
    Keeps I (Run.report level category message) :=
  report_matches hI.persists.heeds.toMinds level category message

theorem betweenLines (fuel number : Nat) (action : PortAction) :
    Keeps I (Run.betweenLines fuel number action) :=
  perform_matches hI.abides (fun text => (readLine_keeps hI.persists.lasts fuel text).map _)
    nestingLimit number action

private theorem actFor (fuel : Nat) (binding : Option Nat) (action : PortAction) :
    Keeps I (Run.actFor fuel binding action) := by
  cases binding with
  | some number => exact hI.betweenLines fuel number action
  | none =>
    cases action with
    | line text => exact (readLine_keeps hI.persists.lasts fuel text).map _
    | _ => exact Matches.fail _

private theorem placePorts (device : String) (addresses : Table Int) (ports : List Port) :
    Keeps I (Run.placePorts device addresses ports) := by
  induction ports generalizing addresses with
  | nil => exact Matches.pure _
  | cons p ports ih =>
    apply Keeps.of_on
    intro m hm
    rcases placePorts_cons device addresses p ports m with ⟨n, ⟨a, ha⟩, hn, h⟩ | ⟨c, -, h⟩
    · rw [h]
      exact (ih _).on (hI.persists.lasts.logged (hI.place device hm ha) hn)
    · rw [h]
      exact hm

theorem register (o : Offer) : Keeps I (Run.register o) := by
  refine Keeps.get_bind fun _ _ => (Matches.lift _).bind fun d => ?_
  refine (hI.placePorts d.name {} d.ports).bind fun addresses => ?_
  refine Keeps.get_bind fun m hm => ?_
  refine Matches.bind (Keeps.of_on fun _ _ => hI.enroll _ _ _ _ _ hm) fun _ => ?_
  exact (hI.report _ _ _).bind fun _ => Matches.pure _

private theorem displacePorts (device : String) (addresses : Table Int) (ports : List Port) :
    Keeps I (Run.displacePorts device addresses ports) := by
  induction ports with
  | nil => exact Matches.pure _
  | cons p ports ih =>
    exact Matches.bind (Keeps.modify fun m hm => hI.displace device p _ hm) fun _ => ih

theorem unregister (device : String) : Keeps I (Run.unregister device) := by
  have hforget : Keeps I (modify fun m => { m with rack := m.rack.forget device } : Run PUnit) :=
    Keeps.modify fun m hm => hI.enroll m.bindings _ _ _ _ hm
  refine Keeps.get_bind fun m _ => ?_
  dsimp only
  cases m.rack.devices.get? device with
  | none => exact Matches.fail _
  | some d =>
    refine (hI.displacePorts device _ d.ports).bind fun _ => ?_
    cases m.rack.bindings.get? device with
    | none => exact (hI.report _ _ _).bind fun _ => hforget
    | some number =>
      refine (closeBinding_matches hI.abides number).bind fun _ => ?_
      exact (hI.report _ _ _).bind fun _ => hforget

section Hooks

variable {hook : Option Nat → HookAction → Run Unit}
  (hhook : ∀ binding a, Keeps I (hook binding a))

include hhook

private theorem setUp (d : Device) (number : Nat) : Keeps I (Run.setUp hook d number) := by
  have hwords : Keeps I (registerWords (some d.name)) := registerWords_keeps hI.persists _
  unfold Run.setUp
  cases d.onAttach with
  | none => exact hwords
  | some actions =>
    refine Matches.bind (Keeps.modify fun m hm => hI.enroll m.bindings _ _ _ _ hm) fun _ => ?_
    exact (Matches.forM _ fun a => hhook _ a).bind fun _ => hwords

private theorem attachBy (o : Offer) : Keeps I (Run.attachBy hook o) := by
  refine Keeps.get_bind fun m hm => (hI.register o).bind fun registered => ?_
  refine Matches.bind ((hI.setUp hhook registered.1 registered.2).tryCatch ?_) fun _ =>
    Matches.pure _
  intro stop
  cases stop with
  | exhausted => exact Matches.throw _
  | failed f =>
    refine (hI.report _ _ _).bind fun _ => (hI.unregister _).bind fun _ => ?_
    exact (Keeps.modify fun n hn => hI.lower hm hn).bind fun _ => Matches.throw _

private theorem detachBy (device : String) : Keeps I (Run.detachBy hook device) := by
  have hunregister : Keeps I (Run.unregister device >>= fun _ => pure device) :=
    (hI.unregister device).bind fun _ => Matches.pure _
  refine Keeps.get_bind fun m _ => ?_
  dsimp only
  cases m.rack.devices.get? device with
  | none => exact hunregister
  | some d =>
    dsimp only
    cases d.onDetach with
    | none => exact hunregister
    | some actions =>
      refine (emit_matches hI.persists.heeds.toMinds rfl).bind fun _ => ?_
      exact (Matches.forM _ fun a => hhook _ a).bind fun _ => hunregister

end Hooks

private theorem runHook (fuel depth : Nat) (binding : Option Nat) (a : HookAction) :
    Keeps I (Run.runHook fuel depth binding a) := by
  induction depth generalizing binding a with
  | zero =>
    cases a with
    | port action => exact (hI.actFor fuel binding action).discard
    | attach o => exact Matches.fail _
    | detach device => exact Matches.fail _
  | succ depth ih =>
    cases a with
    | port action => exact (hI.actFor fuel binding action).discard
    | attach o => exact (hI.attachBy ih o).discard
    | detach device => exact (hI.detachBy ih device).discard

theorem attach (fuel : Nat) (o : Offer) : Keeps I (Run.attach fuel o) :=
  hI.attachBy (hI.runHook fuel nestingLimit) o

theorem detach (fuel : Nat) (device : String) : Keeps I (Run.detach fuel device) :=
  hI.detachBy (hI.runHook fuel nestingLimit) device

theorem actOn (fuel : Nat) (device : String) (action : PortAction) :
    Keeps I (Run.actOn fuel device action) := by
  refine Keeps.get_bind fun m _ => ?_
  cases m.rack.handed.get? device with
  | none => exact Matches.fail _
  | some number => exact hI.betweenLines fuel number action

theorem call (fuel : Nat) (call : Session.Call) : Keeps I (call.run fuel) := by
  have hstore (address value : Value) (size : Int) :
      Keeps I (store (Run.betweenLines fuel) address value size) :=
    store_matches hI.abides (hI.betweenLines fuel) address value size
  apply Session.Call.keeps_of hI.persists fuel
  · intro key m a _ hm _
    exact (hstore _ _ _).on hm
  · intro address value size _
    exact hstore address value size

end Hosts

end Run

end Forthline
