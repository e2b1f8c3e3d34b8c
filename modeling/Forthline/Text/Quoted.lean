import Forthline.Text.Printable

/-!
# Quoted texts

A text in quotes, with the quote mark, the backslash and unprintable characters escaped.
-/

namespace Forthline.Text

def hexDigits (n : Nat) : List Char := Nat.toDigits 16 n

def hexFill (width n : Nat) : List Char :=
  let ds := hexDigits n
  List.replicate (width - ds.length) '0' ++ ds

def escapeChar (mark c : Char) : List Char :=
  if c = mark || c = '\\' then ['\\', c]
  else if c = '\n' then ['\\', 'n']
  else if c = '\r' then ['\\', 'r']
  else if c = '\t' then ['\\', 't']
  else if isPrintable c then [c]
  else
    let n := c.toNat
    if n < 0x100 then '\\' :: 'x' :: hexFill 2 n
    else if n < 0x10000 then '\\' :: 'u' :: hexFill 4 n
    else '\\' :: 'U' :: hexFill 8 n

/-- Single quotes, unless the text holds a single quote and no double one. -/
def quoteMark (cs : List Char) : Char :=
  if cs.contains '\'' && !cs.contains '"' then '"' else '\''

def quote (s : String) : String :=
  let cs := s.toList
  let mark := quoteMark cs
  String.ofList (mark :: cs.flatMap (escapeChar mark) ++ [mark])

end Forthline.Text
