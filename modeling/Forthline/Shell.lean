import Forthline.Session.Event
import Forthline.Shell.Arguments
import Forthline.Shell.Console

/-!
# The shell

The command line around a session: it runs lines from its arguments, from a file or from the
standard input, or talks with a user, and reports what fails.
-/

namespace Forthline

structure Shell where
  options : Options
  machine : Machine
  linesRun : Nat := 0
  failed : Bool := false
  logged : Nat := 0
  started : Nat := 0

inductive Exit where
  | code (n : Nat)
  | interrupted
  /-- Something failed outside of a line. -/
  | crashed (f : Failure)
deriving DecidableEq, Repr

inductive Outcome where
  | exited (code : Nat)
  | crashed (f : Failure)
deriving DecidableEq, Repr

namespace Shell

structure Report where
  heading : String
  detail : String
deriving DecidableEq, Repr

def culprit (f : Failure) : String :=
  let named := [f.word?.bind Label.name?, f.cause.token?].filterMap id
  (named.find? fun s => !s.isEmpty).getD "?"

def report (f : Failure) (file : String) (line : Nat) : Report :=
  let shownFile := Text.coloured "97" file
  let place := s!"line {line} of `{shownFile}`"
  match f.cause.family with
  | .reading =>
    let column := match f.cause.column? with
      | some n => if n = 0 then "" else s!", column {n}"
      | none => ""
    { heading := "SYNTAX ERROR.", detail := s!"Reading {place}{column} caused a problem!" }
  | .naming =>
    let token := Text.coloured "1;97" (f.cause.token?.getD "None")
    { heading := "DICTIONARY ERROR."
      detail := s!"Word `{token}` on {place} could not be resolved." }
  | .compiling => { heading := "COMPILE ERROR.", detail := s!"Definition on {place} is malformed." }
  | .running =>
    let word := Text.coloured "1;97" ("`" ++ culprit f ++ "`")
    { heading := "RUNTIME ERROR.", detail := s!"Word {word} on {place} raised an error." }
  | .outside =>
    { heading := "RUNTIME ERROR.", detail := s!"Python raised an error on {place}." }

def Report.text (r : Report) (f : Failure) : String :=
  let heading := Text.coloured "30;43" s!" {r.heading} "
  let kind := Text.coloured "33" f.cause.kind
  s!"{heading} {r.detail} (Exception: {kind})"

def logLine (e : LogEntry) : String :=
  let level := e.level.name
  Text.coloured "90" s!"{level} awwforth.engine.0:" ++ " " ++ e.message

def groupDigits : List Char → List Char
  | a :: b :: c :: d :: rest => a :: b :: c :: ',' :: groupDigits (d :: rest)
  | ds => ds

def grouped (n : Nat) : String :=
  String.ofList (groupDigits (Nat.toDigits 10 n).reverse).reverse

/-- A time in milliseconds, written in seconds. -/
def seconds (ms : Nat) : String :=
  let thousandths := Nat.toDigits 10 (1000 + ms % 1000)
  toString (ms / 1000) ++ "." ++ String.ofList thousandths.tail ++ "s"

def statisticsLines (m : Machine) (ms : Nat) : List String :=
  let s := m.statistics
  [ "\n" ++ s!"{Text.escape}[97m" ++ Text.coloured "48;5;30" " STATISTICS. ",
    "lines\t" ++ Text.coloured "97" (grouped s.lines),
    "step\t" ++ Text.coloured "97" (grouped s.steps),
    "time\t" ++ Text.coloured "97" (seconds ms) ]

def banner : String :=
  "awwforth - Interactive Forth REPL; %words %memory %devices %stack inspect, Ctrl+C exits."

def prompt (m : Machine) : String :=
  Text.coloured "36" (if m.pending.isSome then "... " else "<<< ")

variable {m : Type → Type} [Monad m] (c : Console m)

abbrev Act (m : Type → Type) := ExceptT Exit (StateT Shell m)

def perform {α : Type} (act : m α) : Act m α := liftM (n := Act m) act

def write (text : String) : Act m Unit := do
  if (← get).options.plain then perform (c.write (Text.stripColour text))
  else perform (c.write text)

def complain (text : String) : Act m Unit := do
  if (← get).options.plain then perform (c.write (Text.stripColour text))
  else perform (c.complain text)

def print (text : String) : Act m Unit := write c (text ++ "\n")

def writeLog : Act m Unit := do
  let s ← get
  let entries := s.machine.log.entries
  if s.options.verbose then
    (entries.take (entries.length - s.logged)).reverse.forM fun e => complain c (logLine e ++ "\n")
  set { s with logged := entries.length }

def session {α : Type} (r : Run α) : Act m α := do
  let (result, machine) := StateT.run (ExceptT.run r) (← get).machine
  modify fun s => { s with machine }
  writeLog c
  match result with
  | .ok a => return a
  | .error (.failed f) => throw (.crashed f)
  | .error .exhausted => throw (.code 1)

/-- Brings a suspended line to its end, waiting and handing over keys as it asks for them. -/
def settle (fuel : Nat) : Nat → LineResult → Act m LineResult
  | 0, _ => throw (.code 1)
  | turns + 1, r => do
    if !r.paused then return r
    let next ←
      match (← get).machine.sleeping with
      | (delay, _) :: _ => do
        perform (c.rest delay)
        match ← session c (Run.fire fuel 0) with
        | .returned next => pure next
        | .absent => pure none
      | [] => do
        match ← perform c.readKey with
        | none => throw .interrupted
        | some key =>
          match key.toList with
          | [] => throw (.crashed { cause := .host .textIndex })
          | k :: _ => session c (Run.sendKey fuel (.int k.toNat))
    settle fuel turns (next.getD r)

def runLine (fuel : Nat) (line : String) : Act m LineResult := do
  let r ← session c (Run.readLine fuel line)
  let r ← settle c fuel fuel r
  modify fun s => { s with linesRun := s.linesRun + 1 }
  return r

def complainOf (f : Failure) (file : String) (line : Nat) : Act m Unit :=
  complain c ((report f file line).text f ++ "\n")

def runLines (fuel : Nat) (file : String) : Nat → List String → Act m Unit
  | _, [] => return
  | number, line :: lines => do
    let r ← runLine c fuel line
    if !r.output.isEmpty then print c r.output
    match r.failure with
    | none => pure ()
    | some f => do
      modify fun s => { s with failed := true }
      complainOf c f file number
      if !(← get).options.ignore then throw (.code 1)
    runLines fuel file (number + 1) lines

def showStack : Act m Unit := do
  print c (← session c (do Run.lift (Display.stackLine (← get).stack.toList none)))

def inspect : String → Act m Bool
  | "%words" => do
    let view ← session c Run.resolved
    let rows := view.entries.map fun (name, w, permanent) => (name, w.label, permanent)
    print c (Display.words rows)
    return true
  | "%memory" => do
    print c (← session c (do
      let map ← Run.lift (← get).memory.map
      Run.lift (Display.memory map)))
    return true
  | "%devices" => do
    print c (← session c (do
      let machine ← get
      let overview ← Run.lift (machine.rack.describe machine.memory)
      Run.lift (Display.devices overview)))
    return true
  | "%stack" => do
    showStack c
    return true
  | _ => return false

def reply (fuel : Nat) (number : Nat) (line : String) : Act m Unit := do
  let r ← runLine c fuel line
  print c r.output
  match r.failure with
  | some f => complainOf c f "<REPL>" number
  | none => if (← get).options.verbose then showStack c

def converse (fuel : Nat) : Nat → Nat → Act m Unit
  | 0, _ => return
  | turns + 1, number => do
    write c (prompt (← get).machine)
    match ← perform c.readLine with
    | none => print c ""
    | some line =>
      let command := String.ofList (Text.trim Text.isBlank line.toList)
      if ["quit", "exit", "bye"].contains command then return
      else if ← inspect c command then converse fuel turns number
      else
        reply c fuel number line
        converse fuel turns (number + 1)

def dialogue (fuel : Nat) : Act m Unit := do
  print c banner
  tryCatch (converse c fuel fuel 1) fun
    | .interrupted => print c ""
    | e => throw e

def finish : Act m Nat := do
  let s ← get
  if s.options.stats && 0 < s.linesRun then
    let now ← perform c.clock
    (statisticsLines s.machine (now - s.started)).forM (print c)
  return if s.failed && !s.options.ignore then 1 else 0

def work (fuel : Nat) : Assignment → Act m Unit
  | .script path => do
    if path = "-" then runLines c fuel "<stdin>" 1 (Text.lines (← perform c.readAll))
    else
      match ← perform (c.readFile path) with
      | some text => runLines c fuel path 1 (Text.lines text)
      | none => do
        complain c s!"Error: '{path}': No such file or directory\n"
        throw (.code 2)
  | .dialogue => dialogue c fuel
  | .lines => do
    let commands := (← get).options.commands
    if !commands.isEmpty then runLines c fuel "<INPUT>" 1 commands
    else if ← perform c.isTerminal then dialogue c fuel
    else runLines c fuel "<STDIN>" 1 (Text.lines (← perform c.readAll))

def start (fuel : Nat) (options : Options) (assignment : Assignment) : m Outcome := do
  let random ← c.random
  let started ← c.clock
  match Session.start fuel { logLevel := options.logLevel, random } with
  | .error (.failed f) => return .crashed f
  | .error .exhausted => return .exited 1
  | .ok machine =>
    let act : Act m Nat := do
      writeLog c
      work c fuel assignment
      finish c
    let guarded : Act m Nat := tryCatch act fun
      | .code n => return n
      | .interrupted => do
        complain c "\nAborted!\n"
        return 1
      | .crashed f => throw (.crashed f)
    match ← StateT.run' (ExceptT.run guarded) { options, machine, started } with
    | .ok n => return .exited n
    | .error (.crashed f) => return .crashed f
    | .error _ => return .exited 1

def runArguments (fuel : Nat) (arguments : List String) : m Outcome := do
  match parseArguments arguments with
  | .ok (options, assignment) => start c fuel options assignment
  | .error fault =>
    c.complain ("Error: " ++ fault.message ++ "\n")
    return .exited 2

end Shell

end Forthline
