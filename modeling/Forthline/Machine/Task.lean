import Forthline.Display
import Forthline.Machine.Wire

/-!
# Native words

What native words do to the machine.
-/

namespace Forthline.Run

/-- Delivers a key: it is stored in the variable `last-key` and pushed if a line waits for it. The
continuation of that line is returned. -/
def deliverKey (act : Nat → PortAction → Run PortAnswer) (key : Value) : Run (Option Nat) := do
  match (← get).memory.addressOf? "last-key" with
  | some address => store act (.int address) key 1
  | none => pure ()
  match (← get).waiting with
  | none => return none
  | some continuation =>
    modify fun m => { m with waiting := none }
    push key
    return some continuation

def schedule (delay : Binary64) (continuation : Nat) : Run Unit := do
  match (← get).scheduler with
  | .missing => fail (.host .absentFunction)
  | .recording => modify fun m => { m with sleeping := m.sleeping ++ [(delay, continuation)] }
  | .immediate => wake continuation

def draw : Run Binary64 := do
  match (← get).random with
  | [] => return Binary64.zero false
  | x :: rest =>
    modify fun m => { m with random := rest }
    return x

def hold : Run Unit := do
  let continuation ← pause
  modify fun m => { m with kept := m.kept ++ [continuation] }

def bound (device : Option String) : Run String :=
  match device with
  | some d => pure d
  | none => fail (.host (.noAttribute "NoneType" "set"))

def task : Task → Run Unit
  | .printTop => do
    let shown ← lift (← pop).display
    write (shown ++ " ")
  | .printStack => do
    let shown ← lift (Display.stack (← get).stack.toList " ")
    write ("\n" ++ shown)
  | .copyReturn offset => do
    push (← lift ((← get).returns.peek offset))
  | .toReturn => do
    pushReturn (← pop)
  | .fromReturn => do
    push (← popReturn)
  | .store => do
    let address ← pop
    let value ← pop
    lift ((← get).rack.checkWrite address)
    store withinLine address value 1
  | .fetch => do
    let address ← pop
    push (← lift ((← get).memory.read address 1))
  | .allot => do
    let size ← lift (← pop).toInteger
    let (_, memory) ← lift ((← get).memory.allot size)
    modify fun m => { m with memory }
  | .define => do
    let name ← pop
    let target ← pop
    let name ← lift name.plain
    let target ← lift target.plain
    addWord name (← lift ((← get).dictionary.get target)) false
  | .transform => do
    let name ← pop
    let target ← pop
    let name ← lift name.plain
    let target ← lift target.plain
    redefine name (.name target) false
  | .random => do
    let n ← pop
    let x ← draw
    let product ← lift (Value.mul (.real x) n)
    push (.int (← lift product.floor))
  | .sleep => do
    let delay ← pop
    reportText .debug "Runtime" do
      let shown ← delay.plain
      return s!"Sleeping for {shown} ms."
    let seconds := (← lift delay.toReal).div (Binary64.round false 1000 1)
    schedule seconds (← pause)
  | .key => do
    report .debug "Runtime" "Waiting for a key."
    let continuation ← pause
    modify fun m => { m with waiting := some continuation }
  | .quote => do
    match ← nextToken with
    | some t => push (.text t.value)
    | none => fail .quoteAtEnd
  | .readPort device port => do
    push (← portValue device port)
  | .bumpPort device port => do
    let device ← bound device
    let value ← portValue device port
    setPort withinLine device port (← lift (Value.add "+" value (.int 1)))
  | .storePort device port => do
    let value ← pop
    setPort withinLine (← bound device) port value
  | .hold count => (List.range count).forM fun _ => hold
  | .holdAndFail kind message => do
    hold
    fail (.raised kind message)
  | .touch => do
    wake (← pause)
  | .depth => do
    push (.int (← get).stack.depth)
  | .sendKey => do
    let key ← pop
    match ← deliverKey withinLine key with
    | some continuation => wake continuation
    | none => return
  | .readLine _ => fail .lineInFlight

/-- Writes the result of a function. A missing result writes nothing. -/
def speak : List Value → Run Unit
  | [] | .nothing :: _ => return
  | v :: _ => do
    write (← lift v.plain)

def code : Code → Run Unit
  | .push v => push v
  | .function arity yield apply => do
    let arguments ← popMany arity
    let results ← lift (apply arguments)
    match yield with
    | .nothing => return
    | .text => speak results
    | .values => modify fun m => { m with stack := m.stack.pushAll results }
  | .task t => task t

/-- Runs a native word. Failures of the language are reported with the word. -/
def native (name : String) (c : Code) : Run Unit :=
  tryCatch (code c) fun stop =>
    match stop with
    | .failed f => throw (.failed (f.during (.native name)))
    | .exhausted => throw .exhausted

end Forthline.Run
