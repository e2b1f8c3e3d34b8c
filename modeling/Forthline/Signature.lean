import Forthline.Word

/-!
# Signatures

A host function becomes a word according to its signature: the number of its positional parameters
is what the word takes from the stack, and its result type says what the word leaves.
-/

namespace Forthline

inductive WrittenType where
  | named (name : String)
  | any
  | void
  | generic (origin : String) (arguments : List WrittenType)
  | union (shown : String)
  /-- A type variable, with its bound. -/
  | parametric (bound : Option WrittenType)
  | text (name : String)
  | forward (name : String)
  | several (types : List WrittenType)
  /-- A value that is no type, with the type it is of. -/
  | other (shown kind : String)

inductive ParameterKind where
  | positional
  | keyword
  | variadic
deriving DecidableEq, Repr

structure Parameter where
  name : String
  type : Option WrittenType
  kind : ParameterKind := .positional

structure Signature where
  name : Option String := none
  parameters : List Parameter
  result : Option WrittenType

inductive Shape where
  | named (name : String)
  | several (shapes : List Shape)

/-- What a function takes from the stack and leaves on it. The types are listed with the top of
the stack first. -/
structure Effects where
  /-- The function works on the machine itself and takes nothing by itself. -/
  contextual : Bool
  inputs : List Shape
  outputs : List Shape
  /-- The number of results, or -1 if the result is output. -/
  valency : Int

namespace WrittenType

def shown : WrittenType → String
  | named name => name
  | any => "typing.Any"
  | void => "None"
  | generic origin [] => origin ++ "[()]"
  | generic origin arguments => origin ++ "[" ++ listed arguments ++ "]"
  | union shown => shown
  | parametric _ => "~T"
  | text name => Text.quote name
  | forward name => "ForwardRef(" ++ Text.quote name ++ ")"
  | several types => "(" ++ listed types ++ ")"
  | other shown _ => shown
where
  listed : List WrittenType → String
    | [] => ""
    | [t] => t.shown
    | t :: rest => t.shown ++ ", " ++ listed rest

def shape : WrittenType → Shape
  | any => .named "Any"
  | text name => .named name
  | several types => .several (shapes types)
  | t => .named t.shown
where
  shapes : List WrittenType → List Shape
    | [] => []
    | t :: rest => t.shape :: shapes rest

def normalize : WrittenType → Except SignatureFault Shape
  | any => .ok (.named "Any")
  | parametric (some bound) => bound.normalize
  | parametric none => .ok (.named "Any")
  | union shown => .ok (.named shown)
  | generic origin _ => .ok (.named origin)
  | named name => .ok (.named name)
  | several types => .ok (several types).shape
  | text _ | forward _ => .error .forwardReference
  | void => .error (.unknownType "None <class 'NoneType'>")
  | other shown kind => .error (.unknownType s!"{shown} <class '{kind}'>")

def isContext : WrittenType → Bool
  | text name => name = "ExecutionContext" || name.endsWith ".ExecutionContext"
  | named name => name = "ExecutionContext"
  | _ => false

/-- The types of a result that counts as a group, and whether it does. -/
def group? : WrittenType → Option (List WrittenType)
  | named "tuple" => some []
  | generic "tuple" arguments => some arguments
  | _ => none

end WrittenType

namespace Effects

def arity (e : Effects) : Int := if e.contextual then -2 else e.inputs.length

def yield (e : Effects) : Yield :=
  if e.valency = -1 then .text else if e.valency = 0 then .nothing else .values

end Effects

namespace Signature

/-- The results of a function: their types, and their number with -1 standing for output. -/
def results : WrittenType → Except SignatureFault (List Shape × Int)
  | .void | .named "NoneType" => .ok ([], 0)
  | .named "Output" | .text "Output" => .ok ([.named "Output"], -1)
  | a =>
    match a.group? with
    | some types => do
      let shapes ← types.mapM WrittenType.normalize
      return (shapes, shapes.length)
    | none => do
      let s ← a.normalize
      return ([s], 1)

def operation (s : Signature) (name : String) : String :=
  if name.isEmpty then s.name.getD "<unnamed>" else name

def effects (s : Signature) (name : String) : Except SignatureFault Effects := do
  let name := s.operation name
  if s.parameters.any (·.kind = .variadic) then throw (.variadic name)
  let positional := s.parameters.filter (·.kind = .positional)
  let some result := s.result | throw (.noReturn name)
  let missing := (positional.filter (·.type.isNone)).map Parameter.name
  if !missing.isEmpty then throw (.unannotated name missing)
  let written := positional.filterMap Parameter.type
  let contextual := match written with
    | [a] => a.isContext
    | _ => false
  let (outputs, valency) ← results result
  let inputs ← if contextual then pure [] else written.mapM WrittenType.normalize
  return { contextual, inputs := inputs.reverse, outputs := outputs.reverse, valency }

def wrap (s : Signature) (name : String) (apply : List Value → Except Cause (List Value)) :
    Except Cause Word := do
  let e ← (s.effects name).mapError Cause.signature
  return .native name (.function e.inputs.length e.yield apply)

def wrapTask (s : Signature) (name : String) (task : Task) : Except Cause Word := do
  let _ ← (s.effects name).mapError Cause.signature
  return .native name (.task task)

end Signature

end Forthline
