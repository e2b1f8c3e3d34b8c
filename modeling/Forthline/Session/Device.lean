import Forthline.Session

/-!
# Attached devices

Attaching and detaching devices, and the words that hosts and devices add. Outside of a line the
actions of a device can read lines.
-/

namespace Forthline.Run

def betweenLines (fuel : Nat) : Nat → PortAction → Run PortAnswer :=
  perform (fun text => .line <$> readLine fuel text) nestingLimit

def neededMember? : PortAction → Option String
  | .set .. => some "set"
  | .update .. => some "update"
  | .get _ => some "get"
  | .address _ => some "address"
  | .subscribe .. => some "subscribe"
  | .close => some "close"
  | .line _ | .fail _ => none

/-- Does what a device asks for in one of its hooks; it may not have been handed a binding. -/
def actFor (fuel : Nat) (binding : Option Nat) (action : PortAction) : Run PortAnswer :=
  match binding, action, neededMember? action with
  | some number, _, _ => betweenLines fuel number action
  | none, _, some member => fail (.host (.noAttribute "NoneType" member))
  | none, .line text, none => .line <$> readLine fuel text
  | none, .fail message, none => fail (.raised "RuntimeError" message)
  | none, _, none => return .nothing

def hostWord (name : String) : HostWord → Run Word
  | .word w => return w
  | .named target => do lift ((← get).dictionary.get target)
  | .function signature apply => lift (signature.wrap name apply)
  | .task signature task => lift (signature.wrapTask name task)
  | .value v => do
    let shown ← lift v.quoted
    fail (.host (.uncallable shown))

def addHostWord (name : String) (w : HostWord) (permanent : Bool) : Run Word := do
  let word ← hostWord name w
  addWord name word permanent
  return word

def accessor (device port : String) : Word := .native port (.task (.readPort device port))

def registerWordsOf (d : Device) : Run Unit := do
  d.ports.forM fun p => addWord p.name (accessor d.name p.name) false
  (d.words.getD []).forM fun (name, w) => discard (addHostWord name w false)

def registerWords (device : Option String) : Run Unit := do
  let devices := (← get).rack.devices
  match device with
  | some name =>
    if name.isEmpty then devices.entries.forM fun (_, d) => registerWordsOf d
    else
      match devices.get? name with
      | some d => registerWordsOf d
      | none => fail (.host (.missingKey (Text.quote name)))
  | none => devices.entries.forM fun (_, d) => registerWordsOf d

/-- Places ports one after another. Those before one that does not fit stay where they are. -/
def placePorts (device : String) (addresses : Table Int) : List Port → Run (Table Int)
  | [] => return addresses
  | p :: ports => do
    let m ← get
    let block := Rack.blockName device p.name
    let (address, memory) ← lift (m.memory.addBlock block p.size (some (.int m.rack.next)))
    modify fun m => { m with memory }
    let size := p.size
    report .debug "Memory" s!"Allocating block `{block}` of {size} cell(s) at {address}."
    modify fun m => { m with rack := m.rack.place device p address }
    placePorts device (addresses.insert p.name address) ports

def register (o : Offer) : Run (Device × Nat) := do
  let d ← lift ((← get).rack.accept o)
  let addresses ← placePorts d.name {} d.ports
  let m ← get
  let number := m.bindings.length
  let binding : PortBinding := { device := d.name }
  set { m with
    bindings := m.bindings ++ [binding]
    rack := m.rack.attach d addresses number }
  let name := d.name
  let count := addresses.size
  report .info "Device" s!"Registered device `{name}` with {count} port(s)."
  return (d, number)

def displacePorts (device : String) (addresses : Table Int) : List Port → Run Unit
  | [] => return
  | p :: ports => do
    let address := (addresses.get? p.name).getD 0
    modify fun m =>
      { m with
        rack := m.rack.displace p address
        memory := m.memory.release (Rack.blockName device p.name) }
    displacePorts device addresses ports

def unregister (device : String) : Run Unit := do
  let rack := (← get).rack
  match rack.devices.get? device with
  | none => fail (.deviceMissing device)
  | some d =>
    displacePorts device ((rack.addresses.get? device).getD {}) d.ports
    match rack.bindings.get? device with
    | some number => closeBinding number
    | none => pure ()
    report .info "Device" s!"Unregistered device `{device}`."
    modify fun m => { m with rack := m.rack.forget device }

section Hooks

-- How an action of a hook is done, which may have been handed a binding.
variable (hook : Option Nat → HookAction → Run Unit)

def setUp (d : Device) (number : Nat) : Run Unit := do
  match d.onAttach with
  | some actions =>
    modify fun m =>
      { m with rack := { m.rack with handed := m.rack.handed.insert d.name number } }
    actions.forM (hook (some number))
  | none => pure ()
  registerWords (some d.name)

/-- Attaches a device. If it cannot be set up, it is unregistered and its addresses are given to
the next device, together with those that its hook gave away in the meantime. -/
def attachBy (o : Offer) : Run String := do
  let first := (← get).rack.next
  let (d, number) ← register o
  let name := d.name
  tryCatch (setUp hook d number) fun stop =>
    match stop with
    | .failed f => do
      report .error "Device" s!"Attaching device `{name}` failed, unregistering it."
      unregister name
      modify fun m => { m with rack := { m.rack with next := first } }
      throw (.failed f)
    | .exhausted => throw .exhausted
  return name

def detachBy (device : String) : Run String := do
  let rack := (← get).rack
  match rack.devices.get? device with
  | some d =>
    match d.onDetach with
    | some actions =>
      emit .cleanup
      let binding := if d.onAttach.isSome then rack.handed.get? device else none
      actions.forM (hook binding)
    | none => pure ()
  | none => pure ()
  unregister device
  return device

end Hooks

/-- Does what a hook asks for. The devices that it attaches and detaches have hooks of their own,
which nest only so deep. -/
def runHook (fuel : Nat) : Nat → Option Nat → HookAction → Run Unit
  | _, binding, .port action => discard (actFor fuel binding action)
  | 0, _, _ => fail (.host .nesting)
  | depth + 1, _, .attach o => discard (attachBy (runHook fuel depth) o)
  | depth + 1, _, .detach device => discard (detachBy (runHook fuel depth) device)

def attach (fuel : Nat) (o : Offer) : Run String := attachBy (runHook fuel nestingLimit) o

def detach (fuel : Nat) (device : String) : Run String :=
  detachBy (runHook fuel nestingLimit) device

def actOn (fuel : Nat) (device : String) (action : PortAction) : Run PortAnswer := do
  match (← get).rack.handed.get? device with
  | some number => betweenLines fuel number action
  | none => fail (.host (.missingKey (Text.quote device)))

def poke (fuel : Nat) (address value : Value) (size : Int) : Run Unit :=
  store (betweenLines fuel) address value size

end Forthline.Run
