import Forthline.Memory
import Forthline.Signature
import Std.Data.TreeMap

/-!
# Ports

Devices offer ports, which are blocks of memory at addresses of their own. The rack keeps the
attached devices, where their ports lie, and whose port each address belongs to.
-/

namespace Forthline

inductive Access where
  | read
  | write
  | readWrite
deriving DecidableEq, Repr

namespace Access

def name : Access → String
  | read => "read"
  | write => "write"
  | readWrite => "readwrite"

def ofName? (name : String) : Option Access :=
  [read, write, readWrite].find? fun a => a.name = name

end Access

structure Port where
  name : String
  size : Nat
  access : Access
  description : String := ""
deriving DecidableEq, Repr

/-- What a device declares as a port, before it is checked. -/
inductive Declaration where
  | port (name : String) (size : Int) (access : String) (description : String)
  | other
deriving DecidableEq, Repr

def Declaration.port? : Declaration → Option Port
  | .port name size access description =>
    if 1 ≤ size then
      (Access.ofName? access).map fun access => { name, size := size.toNat, access, description }
    else none
  | .other => none

inductive PortAction where
  | set (port : String) (value : Value)
  | update (port : String) (value : Value)
  | get (port : String)
  | address (port : String)
  /-- Reports each write to a port under a label, and then acts. -/
  | subscribe (port label : String) (actions : List PortAction)
  | line (text : String)
  | close
  | fail (message : String)

inductive HostWord where
  | word (word : Word)
  | named (name : String)
  | function (signature : Signature) (apply : List Value → Except Cause (List Value))
  | task (signature : Signature) (task : Task)
  | value (v : Value)

mutual

/-- What a device does in one of its hooks: something with its ports, or with other devices. -/
inductive HookAction where
  | port (action : PortAction)
  | attach (o : Offer)
  | detach (device : String)

/-- A device as it is offered; what is missing was not declared. -/
structure Offer where
  name : Option String := none
  description : Option String := none
  ports : Option (List Declaration) := none
  onAttach : Option (List HookAction) := none
  onDetach : Option (List HookAction) := none
  words : Option (List (String × HostWord)) := none

end

structure Device where
  name : String
  description : String
  ports : List Port
  onAttach : Option (List HookAction)
  onDetach : Option (List HookAction)
  words : Option (List (String × HostWord))

structure Owner where
  device : String
  port : Port
deriving DecidableEq, Repr

structure Rack where
  /-- Where the next port will lie. -/
  next : Int := 0x1000
  devices : Table Device := {}
  /-- The first address of each device's ports, by name. -/
  addresses : Table (Table Int) := {}
  /-- The number of the binding that each device works through. -/
  bindings : Table Nat := {}
  /-- The binding that each device was last handed, also after it was detached. -/
  handed : Table Nat := {}
  owners : Std.TreeMap Int Owner := {}

namespace Rack

def blockName (device port : String) : String := s!"{device}.{port}"

/-- Checks an offer for completeness, for a free name and for well-formed ports. -/
def accept (r : Rack) (o : Offer) : Except Cause Device :=
  match o.name, o.ports with
  | some name, some (d :: ds) =>
    if name.isEmpty then .error (.incompleteDevice (some name))
    else if r.devices.contains name then .error (.deviceAttached name)
    else
      match (d :: ds).mapM Declaration.port? with
      | none => .error (.invalidDeclaration name)
      | some ports => .ok
          { name, ports
            description := o.description.getD ""
            onAttach := o.onAttach
            onDetach := o.onDetach
            words := o.words }
  | name, _ => .error (.incompleteDevice name)

def place (r : Rack) (device : String) (port : Port) (address : Int) : Rack :=
  { r with
    owners := (List.range port.size).foldl
      (fun owners (i : Nat) => owners.insert (address + i) { device, port }) r.owners
    next := r.next + port.size }

def displace (r : Rack) (port : Port) (address : Int) : Rack :=
  { r with
    owners := (List.range port.size).foldl
      (fun owners (i : Nat) => owners.erase (address + i)) r.owners }

def attach (r : Rack) (d : Device) (addresses : Table Int) (binding : Nat) : Rack :=
  { r with
    devices := r.devices.insert d.name d
    addresses := r.addresses.insert d.name addresses
    bindings := r.bindings.insert d.name binding }

/-- Forgets a device, but not the binding it was handed. -/
def forget (r : Rack) (device : String) : Rack :=
  { r with
    devices := r.devices.erase device
    addresses := r.addresses.erase device
    bindings := r.bindings.erase device }

def lookup (r : Rack) (device port : String) : Except Cause (Int × Port) :=
  match (r.addresses.get? device).bind (·.get? port) with
  | none => .error (.unknownPort device port)
  | some address =>
    match r.owners.get? address with
    | some owner => .ok (address, owner.port)
    | none => .error (.host (.missingKey (toString address)))

def ownerOf? (r : Rack) (address : Value) : Option Owner := address.toInt?.bind (r.owners.get? ·)

def checkWrite (r : Rack) (address : Value) : Except Cause Unit :=
  match r.ownerOf? address with
  | some o => if o.port.access = .read then .error (.readOnly o.device o.port.name) else .ok ()
  | none => .ok ()

end Rack

structure PortView where
  name : String
  address : Int
  access : String
  size : Int
  description : String
  value : Value

structure DeviceView where
  name : String
  description : String
  ports : List PortView

namespace Rack

variable {σ : Type}

def describe (r : Rack) (m : Memory σ) : Except Cause (List DeviceView) :=
  r.devices.entries.mapM fun (name, d) => do
    let ports ← d.ports.mapM fun port => do
      let (address, _) ← r.lookup name port.name
      let value ← m.read (.int address) port.size
      pure
        ({ name := port.name, address, access := port.access.name, size := port.size
           description := port.description, value } : PortView)
    pure ({ name, description := d.description, ports } : DeviceView)

end Rack

end Forthline
