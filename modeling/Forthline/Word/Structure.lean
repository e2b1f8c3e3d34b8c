import Forthline.Word

/-!
# Control structures

Turning the flat list of words of a definition into nested structures. The words `if else then`,
`do loop +loop` and `begin until` have to be balanced; all other words stand for themselves.
-/

namespace Forthline

inductive Opening where
  | consequent
  | alternative (consequent : List Node)
  | counted
  | indefinite

namespace Opening

def form : Opening → String
  | consequent | alternative _ => "Conditional"
  | counted => "CountedLoop"
  | indefinite => "IndefiniteLoop"

end Opening

/-- The nodes compiled so far, latest first, and the open structures around them, innermost first,
each with the nodes before it. -/
structure Scope where
  body : List Node := []
  enclosing : List (Opening × List Node) := []

namespace Scope

def append (s : Scope) (n : Node) : Scope := { s with body := n :: s.body }

def enter (s : Scope) (o : Opening) : Scope :=
  { body := [], enclosing := (o, s.body) :: s.enclosing }

def closed? (o : Opening) (body : List Node) : Control → Option Node
  | .then =>
    match o with
    | .consequent => some (.conditional body [])
    | .alternative consequent => some (.conditional consequent body)
    | _ => none
  | .loop =>
    match o with
    | .counted => some (.counted body false)
    | _ => none
  | .plusLoop =>
    match o with
    | .counted => some (.counted body true)
    | _ => none
  | .until =>
    match o with
    | .indefinite => some (.indefinite body)
    | _ => none
  | _ => none

def close (s : Scope) (c : Control) : Except Imbalance Scope :=
  match s.enclosing with
  | [] => .error (.mismatched c.code)
  | (o, before) :: enclosing =>
    match closed? o s.body.reverse c with
    | some n => .ok { body := n :: before, enclosing }
    | none => .error (.mismatched c.code)

def turn (s : Scope) : Except Imbalance Scope :=
  match s.enclosing with
  | (.consequent, before) :: enclosing =>
    .ok { body := [], enclosing := (.alternative s.body.reverse, before) :: enclosing }
  | _ => .error .strayElse

def add (s : Scope) (w : Word) : Except Imbalance Scope :=
  match w with
  | .control .if => .ok (s.enter .consequent)
  | .control .do => .ok (s.enter .counted)
  | .control .begin => .ok (s.enter .indefinite)
  | .control .else => s.turn
  | .control .then => s.close .then
  | .control .loop => s.close .loop
  | .control .plusLoop => s.close .plusLoop
  | .control .until => s.close .until
  | _ => .ok (s.append (.action w))

def finish (s : Scope) : Except Imbalance (List Node) :=
  match s.enclosing with
  | [] => .ok s.body.reverse
  | (o, _) :: _ => .error (.unclosed o.form)

end Scope

def structured (words : List Word) : Except Imbalance (List Node) := do
  let s ← words.foldlM Scope.add {}
  s.finish

def compile (words : List Word) (name : Option String) : Except Cause (List Node) :=
  (structured words).mapError (.unbalanced name)

end Forthline
