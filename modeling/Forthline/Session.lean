import Forthline.Builtin
import Forthline.Machine.Execution
import Forthline.Word.Structure

/-!
# Sessions

Reading lines. A line is read token by token; each token is compiled into the open definition,
handled by the reader itself, or run at once. A line can be suspended by a word and resumed
later, and no other line is read in the meantime.
-/

namespace Forthline

structure Config where
  memorySize : Int := 65536
  heapStart : Int := 1000
  deviceBase : Int := 0x1000
  marker : String := " ok"
  logLevel : String := "INFO"
  loadLibrary : Bool := true
  scheduler : Scheduler := .recording
  random : List Binary64 := []

namespace Run

def expectName (code : String) : Run String := do
  match ← nextToken with
  | some t => return t.value
  | none => fail (.missingName code)

inductive Mode where
  | following
  | capturing
deriving DecidableEq, Repr

def redefinitionMode? (t : Token) : Option Mode :=
  if t.literal then none
  else
    let key := Text.lower t.value
    if key = "is" then some .following
    else if key = "isnow" then some .capturing
    else none

/-- Handles `Name is word` and `Name isNow word`, with `~` before them if the redefinition is to be
permanent. Tells whether the token started one. -/
def tryRedefinition (t : Token) : Run Bool := do
  let permanent := t.value = "~"
  let name ←
    if permanent then
      match ← nextToken with
      | some n => pure n
      | none => fail .loneTilde
    else pure t
  match ← peekToken with
  | none => if permanent then fail .tildeForm else return false
  | some form =>
    match redefinitionMode? form with
    | none => if permanent then fail .tildeForm else return false
    | some mode =>
      discard nextToken
      match ← nextToken with
      | none => fail (.missingTarget form.value)
      | some target =>
        match mode with
        | .capturing => do
          let word ← lift ((← get).dictionary.get target.value)
          redefine name.value (.word word) permanent
        | .following => redefine name.value (.name target.value) permanent
        return true

/-- The word that a token stands for. A token that is neither a word nor a number is skipped. -/
def meaning (t : Token) : Run (Option Word) := do
  if t.literal then return some (.pusher t.value (.text t.value))
  match ← lift ((← get).dictionary.lookup t.value) with
  | some w => return some w
  | none =>
    match Numeral.read? t.value with
    | some n => return some (.pusher t.value (Value.ofNumber n))
    | none =>
      let shown := t.value
      report .warning "Input" s!"Skipping unknown token `{shown}`."
      return none

def declareVariable : Run Unit := do
  let name ← expectName "variable"
  let (address, memory) ← lift ((← get).memory.addVariable name 1)
  modify fun m => { m with memory }
  report .debug "Memory" s!"Creating variable `{name}` at {address}."
  addWord name (.pusher name (.int address)) false

def declareConstant : Run Unit := do
  let name ← expectName "constant"
  let value ← pop
  reportText .debug "Memory" do
    let shown ← value.plain
    return s!"Creating constant `{name}` = {shown}."
  addWord name (.pusher name value) false

def beginDefinition : Run Unit := do
  let name ← expectName ":"
  report .debug "Compiler" s!"Starting definition `{name}`."
  modify fun m => { m with pending := some { name } }

def endDefinition (p : Pending) : Run Unit := do
  modify fun m => { m with pending := none }
  let body ← lift (compile p.words.reverse (some p.name))
  let name := p.name
  addWord name (.definition name body false) false
  report .debug "Compiler" s!"Ending definition `{name}`."

def compileWord (p : Pending) (w : Word) : Run Unit :=
  match w with
  | .control .semicolon => endDefinition p
  | _ => modify fun m => { m with pending := some { p with words := w :: p.words } }

/-- Turns a token into the word to run now, if there is one. -/
def interpret (t : Token) : Run (Option Word) := do
  let handled ←
    if (← get).pending.isNone && !t.literal then tryRedefinition t else pure false
  if handled then return none
  match ← meaning t with
  | none => return none
  | some w =>
    match (← get).pending with
    | some p => do
      compileWord p w
      return none
    | none =>
      match w with
      | .control .variable => do
        declareVariable
        return none
      | .control .constant => do
        declareConstant
        return none
      | .control .colon => do
        beginDefinition
        return none
      | w => return some w

def recordToken (t : Token) : Run Unit :=
  modify fun m =>
    { m with line := m.line.map fun l => { l with parsed := t.value :: l.parsed } }

def readTokens : Nat → Run Bool
  | 0 => throw .exhausted
  | fuel + 1 => do
    match ← nextToken with
    | none => return true
    | some t =>
      match ← interpret t with
      | none => readTokens fuel
      | some w =>
        recordToken t
        if ← execute fuel w then readTokens fuel else return false

def continueLine (fuel : Nat) : Run Bool := do
  if ← run fuel then readTokens fuel else return false

def snapshot (paused : Bool) (failure : Option Failure) : Run LineResult := do
  let m ← get
  let map ← lift m.memory.map
  let view ← resolved
  let line := m.line.getD { text := "", returnDepth := 0 }
  return {
    line := line.text
    output := m.output
    stack := m.stack.toList
    parsed := line.parsed.reverse
    memory := map
    dictionary := view
    paused
    failure }

def complete (r : LineResult) : Run LineResult := do
  modify fun m => { m with line := none, source := none, lastResult := some r }
  (← get).lineListeners.forM fun _ => emit (.line r.line r.output)
  return r

def finished : Run LineResult := do
  let m ← get
  if m.pending.isNone then write m.marker
  complete (← snapshot false none)

def suspended : Run LineResult := do
  let text := ((← get).line.map Line.text).getD ""
  report .debug "Runtime" s!"Line suspended: {text}"
  snapshot true none

/-- Ends the line with a failure. An open definition is given up, and the return stack goes back to
its depth at the start of the line. -/
def failed (f : Failure) : Run LineResult := do
  match (← get).pending with
  | some p =>
    let name := p.name
    report .debug "Compiler" s!"Discarding definition `{name}`."
  | none => pure ()
  modify fun m =>
    { m with
      pending := none
      frames := []
      returns := m.returns.truncate ((m.line.map Line.returnDepth).getD 0)
      paused := false
      waiting := none }
  write f.shown
  let kind := f.cause.kind
  let message := f.cause.message
  report .error "Runtime" s!"{kind}: {message}"
  complete (← snapshot false (some f))

def drive (fuel : Nat) : Run LineResult := do
  modify fun m => { m with running := true }
  let outcome ← tryCatch (Except.ok <$> continueLine fuel) fun stop =>
    match stop with
    | .failed f => return .error f
    | .exhausted => throw .exhausted
  modify fun m => { m with running := false }
  match outcome with
  | .ok true => finished
  | .ok false => suspended
  | .error f => failed f

def readLine (fuel : Nat) (text : String) : Run LineResult := do
  let m ← get
  if m.line.isSome || m.paused || m.running then fail .lineInFlight
  set { m with line := some { text, returnDepth := m.returns.depth } }
  report .info "Input" s!"Processing line: {text}"
  modify fun m =>
    { m with linesRead := m.linesRead + 1, output := "", source := some (Stream.ofText text) }
  drive fuel

/-- Calls a continuation, and goes on with the line in flight if there is one. -/
def resume (fuel : Nat) (continuation : Nat) : Run (Option LineResult) := do
  wake continuation
  let m ← get
  match m.running, m.line with
  | false, some line =>
    let text := line.text
    report .debug "Runtime" s!"Resuming line: {text}"
    some <$> drive fuel
  | _, _ => return none

def installBuiltins : Run Unit := Builtin.installed.forM fun (name, word) => addWord name word false

def loadLibrary (fuel : Nat) : Run Unit := do
  let results ← Builtin.library.mapM (readLine fuel)
  results.forM fun r =>
    match r.failure with
    | some f => throw (.failed f)
    | none => return
  modify fun m => { m with linesRead := 0, steps := 0, lastResult := none }

def load (fuel : Nat) (withLibrary : Bool) : Run Unit := do
  installBuiltins
  if withLibrary then loadLibrary fuel
  let count := (← get).dictionary.words.size
  report .debug "Dictionary" s!"Loaded {count} words."

end Run

namespace Session

def blank (c : Config) (threshold : Nat) : Machine where
  memory := { size := c.memorySize, heapLimit := c.deviceBase, next := c.heapStart }
  rack := { next := c.deviceBase }
  scheduler := c.scheduler
  random := c.random
  log := { threshold }
  marker := c.marker

def start (fuel : Nat) (c : Config) : Except Stop Machine :=
  match Level.threshold c.logLevel with
  | .error cause => .error (.failed { cause })
  | .ok threshold =>
    match StateT.run (ExceptT.run (Run.load fuel c.loadLibrary)) (blank c threshold) with
    | (.ok _, m) => .ok m
    | (.error stop, _) => .error stop

end Session

end Forthline
