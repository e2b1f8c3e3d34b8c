/-!
# Command line arguments

Options come first. The first argument that is no option names a command, and the rest belongs to
that command.
-/

namespace Forthline

structure Options where
  verbosity : Nat := 0
  ignore : Bool := false
  stats : Bool := false
  plain : Bool := false
  commands : List String := []
deriving DecidableEq, Repr

inductive Assignment where
  /-- The lines given as options, else the standard input. -/
  | lines
  | script (path : String)
  | dialogue
deriving DecidableEq, Repr

inductive ArgumentFault where
  | unknownOption (shown : String)
  | missingValue (shown : String)
  | unwantedValue (shown : String)
  | unknownCommand (name : String)
  | missingScript
  | extraArgument (shown : String)
deriving DecidableEq, Repr

namespace ArgumentFault

def message : ArgumentFault → String
  | unknownOption shown => s!"No such option: {shown}"
  | missingValue shown => s!"Option '{shown}' requires an argument."
  | unwantedValue shown => s!"Option '{shown}' does not take a value."
  | unknownCommand name => s!"No such command '{name}'."
  | missingScript => "Missing argument 'SCRIPT'."
  | extraArgument shown => s!"Got unexpected extra argument ({shown})"

end ArgumentFault

namespace Options

def verbose (o : Options) : Bool := 0 < o.verbosity

def logLevel (o : Options) : String :=
  if 1 < o.verbosity then "DEBUG" else if o.verbose then "INFO" else "WARNING"

def addCommand (o : Options) (line : String) : Options :=
  { o with commands := o.commands ++ [line] }

/-- Reads the letters of a short option, and tells whether the value of the last one is the next
argument. A value can also follow its letter directly. -/
def short (o : Options) : List Char → Except ArgumentFault (Options × Bool)
  | [] => .ok (o, false)
  | 'v' :: cs => short { o with verbosity := o.verbosity + 1 } cs
  | 'i' :: cs => short { o with ignore := true } cs
  | 'p' :: cs => short { o with plain := true } cs
  | ['c'] => .ok (o, true)
  | 'c' :: cs => .ok (o.addCommand (String.ofList cs), false)
  | c :: _ => .error (.unknownOption (String.ofList ['-', c]))

def long (o : Options) (name : String) (value : Option String) :
    Except ArgumentFault (Options × Bool) :=
  match name, value with
  | "--command", none => .ok (o, true)
  | "--command", some line => .ok (o.addCommand line, false)
  | "--verbose", none => .ok ({ o with verbosity := o.verbosity + 1 }, false)
  | "--ignore", none => .ok ({ o with ignore := true }, false)
  | "--stats", none => .ok ({ o with stats := true }, false)
  | "--plain", none => .ok ({ o with plain := true }, false)
  | name, none => .error (.unknownOption name)
  | name, some _ =>
    if ["--verbose", "--ignore", "--stats", "--plain"].contains name then
      .error (.unwantedValue name)
    else .error (.unknownOption name)

def option (o : Options) (argument : String) : Except ArgumentFault (Options × Bool) :=
  match argument.toList with
  | '-' :: '-' :: cs =>
    let name := cs.takeWhile (· ≠ '=')
    let value := match cs.drop name.length with
      | _ :: value => some (String.ofList value)
      | [] => none
    o.long (String.ofList ('-' :: '-' :: name)) value
  | _ :: cs => o.short cs
  | [] => .ok (o, false)

def isOption (argument : String) : Bool :=
  argument.startsWith "-" && argument ≠ "-"

/-- Reads options up to the first argument that is none; two dashes end them as well. `awaiting`
says that the next argument is a line to run. -/
def parse (awaiting : Bool) (o : Options) :
    List String → Except ArgumentFault (Options × List String)
  | [] => if awaiting then .error (.missingValue "-c") else .ok (o, [])
  | argument :: rest =>
    if awaiting then parse false (o.addCommand argument) rest
    else if argument = "--" then .ok (o, rest)
    else if isOption argument then
      match o.option argument with
      | .ok (o, awaiting) => parse awaiting o rest
      | .error fault => .error fault
    else .ok (o, argument :: rest)

end Options

namespace Assignment

/-- The operands of a command. Commands have no options; after two dashes every argument is an
operand. -/
def operands : List String → Except ArgumentFault (List String)
  | [] => .ok []
  | argument :: rest =>
    if argument = "--" then .ok rest
    else if Options.isOption argument then .error (.unknownOption argument)
    else (operands rest).map (argument :: ·)

def ofScript : List String → Except ArgumentFault Assignment
  | [] => .error .missingScript
  | [path] => .ok (.script path)
  | _ :: extra :: _ => .error (.extraArgument extra)

def ofDialogue : List String → Except ArgumentFault Assignment
  | [] => .ok .dialogue
  | extra :: _ => .error (.extraArgument extra)

def parse : List String → Except ArgumentFault Assignment
  | [] => .ok .lines
  | "run-file" :: rest => operands rest >>= ofScript
  | "run-repl" :: rest => operands rest >>= ofDialogue
  | name :: _ => .error (.unknownCommand name)

end Assignment

def parseArguments (arguments : List String) : Except ArgumentFault (Options × Assignment) := do
  let (o, rest) ← Options.parse false {} arguments
  return (o, ← Assignment.parse rest)

end Forthline
