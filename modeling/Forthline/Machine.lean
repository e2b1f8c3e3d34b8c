import Forthline.Dictionary
import Forthline.Log
import Forthline.Port
import Forthline.Token.Stream

/-!
# The machine

The state in which words run, and the programs that act on it. A program can fail, and keeps what
it did before it failed; it can also run out of the fuel it was given, which is not a failure.
-/

namespace Forthline

/-- Where execution stands inside a definition. The loops keep their index and whether an
iteration is under way. -/
inductive Frame where
  | sequence (rest : List Node)
  | counted (body : List Node) (stepped : Bool) (index limit : Value) (forwards running : Bool)
  | indefinite (body : List Node) (running : Bool)

structure Subscription where
  number : Nat
  binding : Nat
  label : String
  actions : List PortAction

instance : BEq Subscription := ⟨fun s t => s.number == t.number⟩

/-- A device's hold on its ports: the subscriptions it has open, latest first, with the cells they
watch. -/
structure PortBinding where
  device : String
  subscriptions : List (Nat × Subscription) := []

inductive Scheduler where
  | missing
  | recording
  | immediate
deriving DecidableEq, Repr

/-- A definition whose end was not read yet; the words come latest first. -/
structure Pending where
  name : String
  words : List Word := []

/-- The line in flight; the tokens that were run come latest first. -/
structure Line where
  text : String
  returnDepth : Nat
  parsed : List String := []

structure LineResult where
  line : String
  output : String
  stack : List Value
  parsed : List String
  memory : MemoryMap
  dictionary : Table (Word × Bool)
  paused : Bool
  failure : Option Failure

inductive PortAnswer where
  | nothing
  | value (v : Value)
  | line (r : LineResult)

inductive Event where
  | line (text output : String)
  | log (entry : LogEntry)
  | port (label : String) (value : Value) (size : Int)
  | cleanup

structure Machine where
  stack : Stack := { name := "Stack" }
  returns : Stack := { name := "Return Stack" }
  memory : Memory Subscription := {}
  dictionary : Dictionary := {}
  rack : Rack := {}
  bindings : List PortBinding := []
  subscriptionCount : Nat := 0
  frames : List Frame := []
  steps : Nat := 0
  paused : Bool := false
  running : Bool := false
  /-- The number of continuations made; they are called by their number. -/
  continuations : Nat := 0
  spent : List Nat := []
  /-- The continuation that the next key resumes. -/
  waiting : Option Nat := none
  /-- The continuations that host words keep. -/
  kept : List Nat := []
  scheduler : Scheduler := .missing
  /-- The sleeping continuations with their delays in seconds. -/
  sleeping : List (Binary64 × Nat) := []
  fired : Option Nat := none
  /-- The random numbers still to be drawn, followed by zeros. -/
  random : List Binary64 := []
  source : Option Stream := none
  output : String := ""
  log : Log := {}
  events : List Event := []
  listenerCount : Nat := 0
  lineListeners : List Nat := []
  logListeners : List Nat := []
  line : Option Line := none
  pending : Option Pending := none
  linesRead : Nat := 0
  lastResult : Option LineResult := none
  marker : String := " ok"

inductive Stop where
  | failed (f : Failure)
  | exhausted

abbrev Run := ExceptT Stop (StateM Machine)

namespace Run

def fail {α : Type} (c : Cause) : Run α := throw (.failed { cause := c })

def lift {α : Type} : Except Cause α → Run α
  | .ok a => pure a
  | .error c => fail c

def emit (e : Event) : Run Unit := modify fun m => { m with events := e :: m.events }

/-- Makes a log entry and tells the listeners. The message is only composed if the level is high
enough. -/
def reportText (level : Level) (category : String) (message : Except Cause String) : Run Unit := do
  let m ← get
  if m.log.accepts level then
    let message ← lift message
    let entry : LogEntry := { level, category, message }
    modify fun m => { m with log := { m.log with entries := entry :: m.log.entries } }
    m.logListeners.forM fun _ => emit (.log entry)

def report (level : Level) (category message : String) : Run Unit :=
  reportText level category (.ok message)

def push (v : Value) : Run Unit := modify fun m => { m with stack := m.stack.push v }

def pop : Run Value := do
  let (v, stack) ← lift (← get).stack.pop
  modify fun m => { m with stack }
  return v

/-- Pops several values, and gives them with the former top last. -/
def popMany : Nat → Run (List Value)
  | 0 => return []
  | n + 1 => do
    let top ← pop
    let below ← popMany n
    return below ++ [top]

def pushReturn (v : Value) : Run Unit := modify fun m => { m with returns := m.returns.push v }

def popReturn : Run Value := do
  let (v, returns) ← lift (← get).returns.pop
  modify fun m => { m with returns }
  return v

def write (text : String) : Run Unit := modify fun m => { m with output := m.output ++ text }

def nextToken : Run (Option Token) := do
  match (← get).source with
  | none => return none
  | some s =>
    let (r, s) := s.next
    modify fun m => { m with source := some s }
    lift r

def peekToken : Run (Option Token) := do
  match (← get).source with
  | none => return none
  | some s =>
    let (r, s) := s.peek 1
    modify fun m => { m with source := some s }
    lift r

def addWord (name : String) (word : Word) (permanent : Bool) : Run Unit := do
  let dictionary ← lift ((← get).dictionary.add name word permanent)
  modify fun m => { m with dictionary }
  report .debug "Dictionary" s!"Adding word `{name}`."

def redefine (name : String) (aim : Dictionary.Aim) (permanent : Bool) : Run Unit := do
  let dictionary ← lift ((← get).dictionary.redefine name aim permanent)
  modify fun m => { m with dictionary }
  let key := Text.lower name
  let shown := aim.label.bracketed
  report .debug "Dictionary" s!"Redefining `{key}` as `{shown}`."

/-- The resolved view of the dictionary; broken redefinitions are reported. -/
def resolved : Run (Table (Word × Bool)) := do
  let (view, broken) := (← get).dictionary.resolve
  broken.forM fun b => do
    let key := b.key
    let reason := b.reason
    report .warning "Dictionary" s!"Skipping invalid redefinition for `{key}`: {reason}"
  return view

/-- Suspends the line and gives the continuation that resumes it. -/
def pause : Run Nat := do
  let m ← get
  set { m with paused := true, continuations := m.continuations + 1 }
  return m.continuations

/-- Uses up a continuation, which can be done once. Whoever runs the line goes on with it. -/
def wake (continuation : Nat) : Run Unit := do
  let m ← get
  if m.spent.contains continuation then fail .continuationSpent
  else set { m with spent := continuation :: m.spent, paused := false }

end Run

end Forthline
