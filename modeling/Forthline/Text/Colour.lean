/-!
# Colour codes

Terminal colour codes: an escape, a bracket, digits and semicolons, and a closing `m`.
-/

namespace Forthline.Text

def escape : Char := Char.ofNat 27

def isColourParameter (c : Char) : Bool := ('0' ≤ c && c ≤ '9') || c = ';'

def colourLength? : List Char → Option Nat
  | c :: '[' :: rest =>
    let parameters := rest.takeWhile isColourParameter
    if c = escape && (rest.drop parameters.length).head? = some 'm' then
      some (parameters.length + 3)
    else none
  | _ => none

/-- Removes the colour codes met while reading from left to right; `skip` counts the characters of
the present code that are still to be dropped. -/
def dropColour : Nat → List Char → List Char
  | _, [] => []
  | skip + 1, _ :: rest => dropColour skip rest
  | 0, c :: rest =>
    match colourLength? (c :: rest) with
    | some n => dropColour (n - 1) rest
    | none => c :: dropColour 0 rest

def stripColour (s : String) : String := String.ofList (dropColour 0 s.toList)

def coloured (parameters s : String) : String :=
  s!"{escape}[{parameters}m{s}{escape}[0m"

end Forthline.Text
