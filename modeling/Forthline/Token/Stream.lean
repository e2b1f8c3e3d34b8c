import Forthline.Token

/-!
# Token streams

A stream reads a text on demand. It can look ahead without consuming and step back over what it
consumed.
-/

namespace Forthline

structure Stream where
  rest : List Char
  column : Nat := 1
  ahead : List Entry := []
  taken : List Entry := []
deriving DecidableEq, Repr

namespace Stream

def ofText (text : String) : Stream := { rest := text.toList }

def read (s : Stream) : Option (Entry × Stream) :=
  (scan false s.column s.rest).map fun r =>
    (r.entry, { s with rest := r.rest, column := r.column })

def pull (s : Stream) : Option (Entry × Stream) :=
  match s.ahead with
  | e :: ahead => some (e, { s with ahead })
  | [] => s.read

/-- Consumes a token. An unterminated text is dropped and reported. -/
def next (s : Stream) : Except Cause (Option Token) × Stream :=
  match s.pull with
  | none => (.ok none, s)
  | some (.complete t, s') => (.ok (some t), { s' with taken := .complete t :: s'.taken })
  | some (.unterminated t, s') => (.error (.unterminated t.value t.column), s')

/-- Looks `count` entries further into the text. -/
def fill : Nat → Stream → Stream
  | 0, s => s
  | count + 1, s =>
    match s.read with
    | none => s
    | some (e, s') => fill count { s' with ahead := s'.ahead ++ [e] }

/-- The `n`-th token ahead, counted from one. Positions below one count back from the last entry
looked at. -/
def peek (n : Int) (s : Stream) : Except Cause (Option Token) × Stream :=
  let s' := s.fill (n.toNat - s.ahead.length)
  if 1 ≤ n then (.ok ((s'.ahead[n.toNat - 1]?).map Entry.token), s')
  else
    match s'.ahead.reverse[(-n).toNat]? with
    | some e => (.ok (some e.token), s')
    | none => (.error (.host .lookahead), s')

def back (s : Stream) : Option Token × Stream :=
  match s.taken with
  | [] => (none, s)
  | e :: taken => (some e.token, { s with ahead := e :: s.ahead, taken })

def consumed (s : Stream) : List Token := s.taken.reverse.map Entry.token

end Stream

end Forthline
