import Forthline.Failure
import Forthline.Value

/-!
# Words

A word is a native operation, a control code or a compiled definition. A definition's body is a
list of nodes, in which the control codes have become structures.
-/

namespace Forthline

inductive Control where
  | colon
  | semicolon
  | «if»
  | «else»
  | «then»
  | «do»
  | loop
  | plusLoop
  | begin
  | «until»
  | «variable»
  | constant
  | is
  | isNow
  | tilde
  | other (code : String)
deriving DecidableEq, Repr

namespace Control

def known : List Control :=
  [colon, semicolon, «if», «else», «then», «do», loop, plusLoop, begin, «until», «variable»,
    constant, is, isNow, tilde]

def code : Control → String
  | colon => ":"
  | semicolon => ";"
  | «if» => "if"
  | «else» => "else"
  | «then» => "then"
  | «do» => "do"
  | loop => "loop"
  | plusLoop => "+loop"
  | begin => "begin"
  | «until» => "until"
  | «variable» => "variable"
  | constant => "constant"
  | is => "is"
  | isNow => "isNow"
  | tilde => "~"
  | other code => code

def ofCode? (code : String) : Option Control := known.find? fun c => c.code = code

def ofCode (code : String) : Control := (ofCode? code).getD (.other code)

end Control

inductive Yield where
  | nothing
  | text
  | values
deriving DecidableEq, Repr

inductive Task where
  | printTop
  | printStack
  | copyReturn (offset : Nat)
  | toReturn
  | fromReturn
  | store
  | fetch
  | allot
  | define
  | transform
  | random
  | sleep
  | key
  | quote
  | readPort (device port : String)
  /-- Adds one to a device's port, through the binding that the device was given. -/
  | bumpPort (device : Option String) (port : String)
  /-- Stores the top of the stack in a port, through the binding that the device was given. -/
  | storePort (device : Option String) (port : String)
  /-- Suspends the line the given number of times and keeps the continuations for the host. -/
  | hold (count : Nat)
  | holdAndFail (kind message : String)
  /-- Suspends the line and resumes it at once. -/
  | touch
  | depth
  | sendKey
  | readLine (text : String)
deriving DecidableEq, Repr

inductive Code where
  | push (v : Value)
  /-- Applies a function to the given number of values, the top of the stack being the last. -/
  | function (arity : Nat) (yield : Yield) (apply : List Value → Except Cause (List Value))
  | task (t : Task)

mutual

inductive Word where
  | native (name : String) (code : Code)
  | control (control : Control)
  | definition (name : String) (body : List Node) (permanent : Bool)
  /-- A value of the host where a word should be. It can be compiled, but not run. -/
  | stray (shown : String)

inductive Node where
  | action (word : Word)
  | conditional (consequent alternative : List Node)
  | counted (body : List Node) (stepped : Bool)
  | indefinite (body : List Node)

end

namespace Word

instance : Inhabited Word := ⟨.stray ""⟩

def label : Word → Label
  | native name _ => .native name
  | control c => .control c.code
  | definition name _ _ => .definition name
  | stray shown => .plain shown

def pusher (name : String) (v : Value) : Word := .native name (.push v)

end Word

end Forthline
