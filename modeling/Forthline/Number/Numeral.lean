import Forthline.Number.Binary64
import Forthline.Text.Blank
import Forthline.Text.Digit

/-!
# Numerals

Written numbers. Integers are written with at most `digitLimit` decimal digits, and are read in
decimal, with the digits of any script, or after a prefix in base sixteen, eight or two. Single
underscores may stand between digits.
-/

namespace Forthline

inductive Number where
  | int (n : Int)
  | real (x : Binary64)
deriving DecidableEq, Repr

namespace Numeral

def digitLimit : Nat := 4300

def writableBound : Nat := tenTo digitLimit

def decimal? (n : Int) : Option String :=
  if n.natAbs < writableBound then some (toString n) else none

def hexadecimal (n : Int) : String :=
  String.ofList ((if n < 0 then ['-'] else []) ++ '0' :: 'x' :: Nat.toDigits 16 n.natAbs)

def digitOf? (c : Char) : Option Nat :=
  let n := c.toNat
  if 0x30 ≤ n && n ≤ 0x39 then some (n - 0x30)
  else if 0x61 ≤ n && n ≤ 0x7a then some (n - 0x61 + 10)
  else if 0x41 ≤ n && n ≤ 0x5a then some (n - 0x41 + 10)
  else none

def isDigitIn (base : Nat) (c : Char) : Bool :=
  match digitOf? c with
  | some d => d < base
  | none => false

def valueOf (base : Nat) (ds : List Char) : Nat :=
  ds.foldl (fun n c => n * base + (digitOf? c).getD 0) 0

/-- Removes the underscores of a digit run, unless one is not between two digits. -/
def joined? : List Char → Option (List Char)
  | [] => some []
  | ['_'] => none
  | '_' :: _ => none
  | [c] => some [c]
  | c :: '_' :: d :: rest => if d = '_' then none else (joined? (d :: rest)).map (c :: ·)
  | c :: rest => (joined? rest).map (c :: ·)

def sign : List Char → Bool × List Char
  | '-' :: cs => (true, cs)
  | '+' :: cs => (false, cs)
  | cs => (false, cs)

def plain (s : String) : List Char :=
  (Text.trim Text.isPadding s.toList).map Text.asciiDigit

inductive Reading where
  | value (n : Int)
  | tooLong (digits : Nat)
  | malformed
deriving DecidableEq, Repr

/-- Reads a decimal integer. A run of digits that is too long is reported before what follows it
is looked at. -/
def readInt (s : String) : Reading :=
  let (negative, cs) := sign (plain s)
  let run := cs.takeWhile fun c => isDigitIn 10 c || c = '_'
  match joined? run with
  | none => .malformed
  | some ds =>
    if ds.isEmpty then .malformed
    else if digitLimit < ds.length then .tooLong ds.length
    else if run.length < cs.length then .malformed
    else .value (Binary64.signed negative (valueOf 10 ds))

def prefixBase? (c : Char) : Option Nat :=
  if c = 'x' || c = 'X' then some 16
  else if c = 'o' || c = 'O' then some 8
  else if c = 'b' || c = 'B' then some 2
  else none

/-- Reads an integer of any size after one of the prefixes `0x`, `0o` and `0b`. -/
def readPrefixed? (s : String) : Option Int :=
  match sign (plain s) with
  | (negative, '0' :: p :: ds) =>
    match prefixBase? p with
    | some base =>
      if !ds.isEmpty && ds.all (isDigitIn base) then
        some (Binary64.signed negative (valueOf base ds))
      else none
    | none => none
  | _ => none

def digitRun? (cs : List Char) : Option (List Char × List Char) :=
  let run := cs.takeWhile fun c => isDigitIn 10 c || c = '_'
  (joined? run).map fun ds => (ds, cs.drop run.length)

def exponent? : List Char → Option Int
  | [] => some 0
  | e :: rest =>
    if e = 'e' || e = 'E' then
      let (negative, cs) := sign rest
      match digitRun? cs with
      | some (ds, []) =>
        if ds.isEmpty then none else some (Binary64.signed negative (valueOf 10 ds))
      | _ => none
    else none

/-- The double nearest to `n * 10 ^ e`. Exponents far outside the range of doubles are settled
by the number of digits alone. -/
def ofDecimal (negative : Bool) (n : Nat) (e : Int) : Binary64 :=
  let size := (Nat.toDigits 10 n).length + e
  if n = 0 || size < -400 then Binary64.zero negative
  else if 400 < size then .infinite negative
  else if 0 ≤ e then Binary64.round negative (n * tenTo e) 1
  else Binary64.round negative n (tenTo (-e))

def isNamed (name : String) (cs : List Char) : Bool :=
  cs.map Char.toLower = name.toList

def readReal? (s : String) : Option Binary64 :=
  let (negative, cs) := sign (plain s)
  if isNamed "inf" cs || isNamed "infinity" cs then some (.infinite negative)
  else if isNamed "nan" cs then some .nan
  else
    match digitRun? cs with
    | none => none
    | some (whole, rest) =>
      match rest with
      | '.' :: after =>
        match digitRun? after with
        | none => none
        | some (fraction, tail) =>
          if whole.isEmpty && fraction.isEmpty then none
          else (exponent? tail).map fun e =>
            ofDecimal negative (valueOf 10 (whole ++ fraction)) (e - fraction.length)
      | tail =>
        if whole.isEmpty then none
        else (exponent? tail).map fun e => ofDecimal negative (valueOf 10 whole) e

/-- Reads a numeric literal: an integer if its value is one, and nothing for a text with an
underscore or for a value that is not finite. Prefixed numerals take no leading sign. -/
def read? (s : String) : Option Number :=
  if s.toList.contains '_' then none
  else
    match readInt s with
    | .value n => some (.int n)
    | _ =>
      let signed := s.toList.head? = some '-' || s.toList.head? = some '+'
      match if signed then none else readPrefixed? s with
      | some n => some (.int n)
      | none =>
        match readReal? s with
        | some x =>
          if !x.isFinite then none
          else
            match x.toInt? with
            | some n => some (.int n)
            | none => some (.real x)
        | none => none

end Numeral

end Forthline
