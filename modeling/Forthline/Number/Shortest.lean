import Forthline.Number.Binary64

/-!
# Shortest decimals

The decimal with the fewest digits that reads back as a given double, nearest to it among those,
and its written form: positional from `1e-4` up to `1e16`, with an exponent outside.
-/

namespace Forthline.Binary64

def tenPowerBelow (m : Nat) (e k : Int) : Bool :=
  let left := tenTo k * twoTo (-e)
  let right := m * twoTo e * tenTo (-k)
  left ≤ right

def leadingExponent (m : Nat) (e : Int) : Int :=
  let guess := Int.fdiv ((m.log2 + e) * 30103) 100000
  if tenPowerBelow m e (guess + 1) then guess + 1
  else if tenPowerBelow m e guess then guess
  else guess - 1

/-- Four times the distance from a mantissa to the lower end of its rounding interval: the gap
below a power of two is half as wide. -/
def lowerGap (m : Nat) (e : Int) : Nat :=
  if m = twoTo 52 && leastExponent < e then 1 else 2

/-- Of the two multiples of `10 ^ p` around `m * 2 ^ e`, the nearer one that reads back, counted
in units of `10 ^ p`. Of two equally near, the even one is taken. -/
def onGrid? (m : Nat) (e p : Int) : Option Nat :=
  let scale := tenTo (-p) * twoTo (e - 2)
  let step := tenTo p * twoTo (2 - e)
  let value := 4 * m * scale
  let low := (4 * m - lowerGap m e) * scale
  let high := (4 * m + 2) * scale
  let inside (x : Nat) : Bool :=
    if m % 2 = 0 then low ≤ x && x ≤ high else low < x && x < high
  let d := value / step
  let below := inside (d * step)
  let above := inside ((d + 1) * step)
  let remainder := 2 * (value % step)
  let nearer := remainder < step || (remainder = step && d % 2 = 0)
  if below && (nearer || !above) then some d
  else if above then some (d + 1)
  else none

/-- The coefficient and the exponent of ten of the shortest decimal for `m * 2 ^ e`. Seventeen
digits always suffice. -/
def shortest (m : Nat) (e : Int) : Nat × Int :=
  let k := leadingExponent m e
  let grids := (List.range 17).map fun (n : Nat) => k - n
  (grids.findSome? fun p => (onGrid? m e p).map fun d => (d, p)).getD (0, 0)

def zeros (n : Nat) : List Char := List.replicate n '0'

def positional (ds : List Char) (point : Int) : List Char :=
  if point ≤ 0 then '0' :: '.' :: zeros (-point).toNat ++ ds
  else
    let n := point.toNat
    if ds.length ≤ n then ds ++ zeros (n - ds.length) ++ ['.', '0']
    else ds.take n ++ '.' :: ds.drop n

def scientific (ds : List Char) (exponent : Int) : List Char :=
  let fraction := if ds.length ≤ 1 then [] else '.' :: ds.drop 1
  let es := Nat.toDigits 10 exponent.natAbs
  let sign := if exponent < 0 then '-' else '+'
  ds.take 1 ++ fraction ++ 'e' :: sign :: zeros (2 - es.length) ++ es

def magnitudeText (m : Nat) (e : Int) : List Char :=
  if m = 0 then ['0', '.', '0']
  else
    let (d, p) := shortest m e
    let ds := Nat.toDigits 10 d
    let leading := p + ds.length - 1
    let significant := (ds.reverse.dropWhile (· = '0')).reverse
    if -4 ≤ leading && leading < 16 then positional significant (leading + 1)
    else scientific significant leading

def text : Binary64 → String
  | .finite s m e => String.ofList ((if s then ['-'] else []) ++ magnitudeText m e)
  | .infinite s => if s then "-inf" else "inf"
  | .nan => "nan"

end Forthline.Binary64
