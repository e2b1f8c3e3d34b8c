import Forthline.Value

/-!
# Stacks

A named stack of values. The items are kept with the top first; `toList` shows them from the
bottom.
-/

namespace Forthline

structure Stack where
  name : String
  items : List Value := []
deriving DecidableEq, Repr

namespace Stack

def ofList (name : String) (values : List Value) : Stack := { name, items := values.reverse }

def toList (s : Stack) : List Value := s.items.reverse

def depth (s : Stack) : Nat := s.items.length

def push (s : Stack) (v : Value) : Stack := { s with items := v :: s.items }

def pushAll (s : Stack) (vs : List Value) : Stack := vs.foldl push s

def pop (s : Stack) : Except Cause (Value × Stack) :=
  match s.items with
  | [] => .error (.underflow s.name)
  | v :: items => .ok (v, { s with items })

/-- The item at a distance from the top, the top itself being at distance one. -/
def peek (s : Stack) (offset : Int) : Except Cause Value :=
  if offset < 1 then .error (.underflow s.name)
  else
    match s.items[offset.toNat - 1]? with
    | some v => .ok v
    | none => .error (.underflow s.name)

/-- Takes `count` items, the top first; the positions that the stack cannot fill take their
default. -/
def takeOr (s : Stack) (count : Int) (defaults : List Value) :
    Except Cause (List Value) × Stack :=
  let n := count.toNat
  let taken := s.items.take n
  let filler := (defaults.take n).drop taken.length
  let result :=
    if taken.length + filler.length < n then .error (.host .listIndex) else .ok (taken ++ filler)
  (result, { s with items := s.items.drop n })

/-- Keeps the lowest `depth` items; a negative depth counts the items to remove. -/
def truncate (s : Stack) (depth : Int) : Stack :=
  let kept := if 0 ≤ depth then depth.toNat else (s.depth + depth).toNat
  { s with items := s.items.drop (s.depth - kept) }

def clear (s : Stack) : Stack := { s with items := [] }

def quoted (s : Stack) : Except Cause String := do
  let shown ← s.toList.mapM Value.quoted
  let inner := " ".intercalate shown
  return s!"< {inner} >"

end Stack

end Forthline
