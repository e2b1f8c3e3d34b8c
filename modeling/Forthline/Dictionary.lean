import Forthline.Table
import Forthline.Text.Lowercase
import Forthline.Word

/-!
# Dictionary

Words by lowercase name, and redefinitions, which a lookup goes through first. A redefinition
leads to another name, followed at every lookup, or to a word captured when it was made.
-/

namespace Forthline

inductive Target where
  | alias (key : String)
  | captured (word : Word)

structure Dictionary where
  words : Table (Word × Bool) := {}
  redefinitions : Table (Target × Bool) := {}

namespace Dictionary

def add (d : Dictionary) (name : String) (word : Word) (permanent : Bool) :
    Except Cause Dictionary :=
  if name.isEmpty then .error (.unnamedWord word.label)
  else .ok { d with words := d.words.insert (Text.lower name) (word, permanent) }

def hasKey (d : Dictionary) (key : String) : Bool :=
  d.words.contains key || d.redefinitions.contains key

def contains (d : Dictionary) (name : String) : Bool := d.hasKey (Text.lower name)

/-- What a redefinition is written to lead to: a name as given, or a word. -/
inductive Aim where
  | name (name : String)
  | word (word : Word)

namespace Aim

def label : Aim → Label
  | name n => .plain n
  | word w => w.label

def target : Aim → Target
  | name n => .alias (Text.lower n)
  | word w => .captured w

end Aim

def redefine (d : Dictionary) (name : String) (aim : Aim) (permanent : Bool) :
    Except Cause Dictionary :=
  let key := Text.lower name
  if name.isEmpty then .error (.unnamedRedefinition aim.label)
  else if d.hasKey key then .error (.alreadyDefined name key)
  else .ok { d with redefinitions := d.redefinitions.insert key (aim.target, permanent) }

/-- Follows aliases from a key. `seen` lists the keys passed so far, latest first; `budget` bounds
the number of aliases that can still be followed without meeting one of them again. -/
def follow (d : Dictionary) (name : String) : Nat → List String → String →
    Except Cause (Option Word)
  | budget, seen, key =>
    if seen.contains key then .error (.circular name (key :: seen).reverse)
    else
      match d.redefinitions.get? key with
      | some (.captured w, _) => .ok (some w)
      | some (.alias target, _) =>
        match budget with
        | 0 => .ok none
        | budget + 1 => follow d name budget (key :: seen) target
      | none => .ok ((d.words.get? key).map Prod.fst)

/-- The word that a name leads to. The path of aliases is never longer than their number. -/
def lookup (d : Dictionary) (name : String) : Except Cause (Option Word) :=
  d.follow name (d.redefinitions.size + 1) [] (Text.lower name)

def get (d : Dictionary) (name : String) : Except Cause Word := do
  match ← d.lookup name with
  | some w => return w
  | none => .error (.unknownWord name)

def isPermanent (d : Dictionary) (name : String) : Except Cause Bool :=
  let key := Text.lower name
  match d.words.get? key, d.redefinitions.get? key with
  | some (_, permanent), _ => .ok permanent
  | none, some (_, permanent) => .ok permanent
  | none, none => .error (.unknownEntry name key)

structure Broken where
  key : String
  reason : String
deriving DecidableEq, Repr

/-- All names with the words they lead to, and the redefinitions that lead nowhere. -/
def resolve (d : Dictionary) : Table (Word × Bool) × List Broken :=
  d.redefinitions.entries.foldl (fun (view, broken) (key, _, permanent) =>
    match d.lookup key with
    | .ok (some w) => (view.insert key (w, permanent), broken)
    | .ok none => (view, broken ++ [{ key, reason := "target is missing." }])
    | .error c => (view, broken ++ [{ key, reason := c.message }])) (d.words, [])

def resolved (d : Dictionary) : Table (Word × Bool) := d.resolve.1

end Dictionary

end Forthline
