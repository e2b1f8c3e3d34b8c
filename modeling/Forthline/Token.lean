import Forthline.Failure
import Forthline.Text.Blank

/-!
# Tokens

A line of source falls into words, which are runs of characters other than blanks, and quoted
texts, which start with `." ` and end at the next quote. Comments start with `( ` and end at the
next parenthesis, or start with `\ ` and take the rest of the text.
-/

namespace Forthline

structure Token where
  value : String
  literal : Bool := false
  column : Nat := 1
deriving DecidableEq, Repr

/-- What the reader finds in a text; a quoted text may lack its closing quote. -/
inductive Entry where
  | complete (token : Token)
  | unterminated (token : Token)
deriving DecidableEq, Repr

namespace Entry

def token : Entry → Token
  | complete t => t
  | unterminated t => t

def consume : Entry → Except Cause Token
  | complete t => .ok t
  | unterminated t => .error (.unterminated t.value t.column)

end Entry

/-- Columns count characters from one and start again after a line feed. -/
def nextColumn (column : Nat) (c : Char) : Nat := if c = '\n' then 1 else column + 1

def columnAfter (column : Nat) (cs : List Char) : Nat := cs.foldl nextColumn column

structure Scanned where
  entry : Entry
  rest : List Char
  column : Nat
deriving DecidableEq, Repr

def scanWord (column : Nat) (cs : List Char) : Scanned :=
  let word := cs.takeWhile fun c => !Text.isBlank c
  { entry := .complete { value := String.ofList word, column }
    rest := cs.drop word.length
    column := columnAfter column word }

/-- Reads the content of a quoted text; `column` is that of its opening mark. -/
def scanQuoted (column : Nat) (cs : List Char) : Scanned :=
  let content := cs.takeWhile (· ≠ '"')
  let token : Token := { value := String.ofList content, literal := true, column }
  let after := columnAfter (column + 3) content
  match cs.drop content.length with
  | [] => { entry := .unterminated token, rest := [], column := after }
  | _ :: rest => { entry := .complete token, rest, column := after + 1 }

/-- Finds the next entry; `comment` says whether the text starts inside a parenthesis. -/
def scan (comment : Bool) (column : Nat) : List Char → Option Scanned
  | [] => none
  | c :: rest =>
    if comment then scan (c ≠ ')') (nextColumn column c) rest
    else if Text.isBlank c then scan false (nextColumn column c) rest
    else
      match c, rest with
      | '(', ' ' :: _ => scan true (column + 1) rest
      | '\\', ' ' :: _ => none
      | '.', '"' :: ' ' :: content => some (scanQuoted column content)
      | _, _ => some (scanWord column (c :: rest))

def entriesFrom : Nat → Nat → List Char → List Entry
  | 0, _, _ => []
  | fuel + 1, column, cs =>
    match scan false column cs with
    | none => []
    | some s => s.entry :: entriesFrom fuel s.column s.rest

/-- All entries of a text. Each takes at least one character, so the length bounds their number. -/
def entries (text : String) : List Entry :=
  let cs := text.toList
  entriesFrom cs.length 1 cs

def tokenize (text : String) : Except Cause (List Token) :=
  (entries text).mapM Entry.consume

end Forthline
