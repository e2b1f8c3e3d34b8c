import Forthline.Failure
import Forthline.Number.Numeral
import Forthline.Number.Shortest

/-!
# Values

What the stacks and the memory cells hold. Programs make integers, reals and texts; the host can
also store truth values and nothing at all.
-/

namespace Forthline

inductive Value where
  | int (n : Int)
  | real (x : Binary64)
  | text (s : String)
  | truth (b : Bool)
  | nothing
deriving DecidableEq, Repr

namespace Value

instance : Inhabited Value := ⟨.int 0⟩

def ofNumber : Number → Value
  | .int n => .int n
  | .real x => .real x

/-- A flag is -1 for true and 0 for false, so that bitwise operations agree with logical ones. -/
def flag (b : Bool) : Value := .int (if b then -1 else 0)

def typeName : Value → String
  | int _ => "int"
  | real _ => "float"
  | text _ => "str"
  | truth _ => "bool"
  | nothing => "NoneType"

/-- The number that a value is in arithmetic; a truth value counts as one or zero. -/
def number? : Value → Option Number
  | int n => some (.int n)
  | real x => some (.real x)
  | truth b => some (.int (if b then 1 else 0))
  | _ => none

def toInt? (v : Value) : Option Int :=
  match v.number? with
  | some (.int n) => some n
  | some (.real x) => x.toInt?
  | none => none

/-- A value that reads as zero: zero itself, the empty text, false and nothing. -/
def isVoid : Value → Bool
  | int n => n == 0
  | real x => x.isZero
  | text s => s.isEmpty
  | truth b => !b
  | nothing => true

def integerText (n : Int) : Except Cause String :=
  match Numeral.decimal? n with
  | some s => .ok s
  | none => .error (.value .integerUnwritable)

def plain : Value → Except Cause String
  | int n => integerText n
  | real x => .ok x.text
  | text s => .ok s
  | truth b => .ok (if b then "True" else "False")
  | nothing => .ok "None"

/-- The text of a value as words print it: a real equal to an integer is written as one. -/
def display : Value → Except Cause String
  | real x =>
    match x.toInt? with
    | some n => integerText n
    | none => .ok x.text
  | v => v.plain

def quoted : Value → Except Cause String
  | text s => .ok (Text.quote s)
  | v => v.plain

end Value

end Forthline
