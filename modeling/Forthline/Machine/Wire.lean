import Forthline.Machine

/-!
# Wires

What devices do with their ports. A write tells the subscribers of its address, whose actions can
write in turn; the nesting is bounded.
-/

namespace Forthline.Run

/-- How deep the actions of subscribers may nest. It stands for the host's limit of a thousand calls
on its stack, of which a write within a write takes about four. What nests deeper fails with the
host's error on recursion. -/
def nestingLimit : Nat := 240

/-- Writes to memory, and has each subscriber of the address report the write and act. -/
def store (act : Nat → PortAction → Run PortAnswer) (address value : Value) (size : Int) :
    Run Unit := do
  let w ← lift ((← get).memory.write address value size)
  modify fun m => { m with memory := w.memory }
  w.watchers.forM fun s => do
    emit (.port s.label w.value size)
    s.actions.forM fun a => discard (act s.binding a)

def portValue (device port : String) : Run Value := do
  let m ← get
  let (address, p) ← lift (m.rack.lookup device port)
  lift (m.memory.read (.int address) p.size)

/-- Writes to a port as the language does; a port that is only to be read refuses. -/
def setPort (act : Nat → PortAction → Run PortAnswer) (device port : String) (value : Value) :
    Run Unit := do
  let (address, p) ← lift ((← get).rack.lookup device port)
  if p.access = .read then fail (.readOnly device port)
  store act (.int address) value p.size

/-- Writes to a port as its device does. -/
def updatePort (act : Nat → PortAction → Run PortAnswer) (device port : String) (value : Value) :
    Run Unit := do
  let (address, p) ← lift ((← get).rack.lookup device port)
  store act (.int address) value p.size

def setBinding (number : Nat) (b : PortBinding) : Run Unit :=
  modify fun m => { m with bindings := m.bindings.set number b }

def subscribe (number : Nat) (b : PortBinding) (port label : String) (actions : List PortAction) :
    Run Unit := do
  let m ← get
  let (address, _) ← lift (m.rack.lookup b.device port)
  let s : Subscription := { number := m.subscriptionCount, binding := number, label, actions }
  let (a, memory) ← lift (m.memory.watch (.int address) s)
  set { m with memory, subscriptionCount := m.subscriptionCount + 1 }
  setBinding number { b with subscriptions := (a, s) :: b.subscriptions }

def closeBinding (number : Nat) : Run Unit := do
  let m ← get
  match m.bindings[number]? with
  | none => return
  | some b =>
    let memory := b.subscriptions.foldl (fun memory (a, s) => memory.unwatch a s) m.memory
    set { m with memory }
    setBinding number { b with subscriptions := [] }

/-- Does what a device asks for, through its binding. `reader` reads a line. -/
def perform (reader : String → Run PortAnswer) : Nat → Nat → PortAction → Run PortAnswer
  | 0, _, _ => fail (.host .nesting)
  | depth + 1, number, action => do
    let some b := (← get).bindings[number]? | return .nothing
    match action with
    | .set port value => do
      setPort (perform reader depth) b.device port value
      return .nothing
    | .update port value => do
      updatePort (perform reader depth) b.device port value
      return .nothing
    | .get port => .value <$> portValue b.device port
    | .address port => do
      let (address, _) ← lift ((← get).rack.lookup b.device port)
      return .value (.int address)
    | .subscribe port label actions => do
      subscribe number b port label actions
      return .nothing
    | .line text => reader text
    | .close => do
      closeBinding number
      return .nothing
    | .fail message => fail (.raised "RuntimeError" message)

/-- What subscribers do while a line runs: no other line can be read then. -/
def withinLine : Nat → PortAction → Run PortAnswer :=
  perform (fun _ => fail .lineInFlight) nestingLimit

end Forthline.Run
