/-!
# Lines

Cutting a text into lines, at every line boundary of Unicode or at line feeds only.
-/

namespace Forthline.Text

def isLineBreak (c : Char) : Bool :=
  let n := c.toNat
  (0x0a ≤ n && n ≤ 0x0d) || (0x1c ≤ n && n ≤ 0x1e) || n == 0x85 || n == 0x2028 || n == 0x2029

/-- Writes the pair carriage return, line feed and the lone carriage return as line feeds. -/
def unifyBreaks : List Char → List Char
  | [] => []
  | '\r' :: '\n' :: rest => '\n' :: unifyBreaks rest
  | c :: rest => (if c = '\r' then '\n' else c) :: unifyBreaks rest

/-- Cuts at each character satisfying `p`; a text that ends with one has no empty last line. -/
def cutAt (p : Char → Bool) (line : List Char) : List Char → List String
  | [] => if line.isEmpty then [] else [String.ofList line.reverse]
  | c :: rest =>
    if p c then String.ofList line.reverse :: cutAt p [] rest else cutAt p (c :: line) rest

def lines (s : String) : List String := cutAt isLineBreak [] (unifyBreaks s.toList)

def feedLines (s : String) : List String := cutAt (· = '\n') [] (unifyBreaks s.toList)

end Forthline.Text
