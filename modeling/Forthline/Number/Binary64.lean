import Forthline.Number.Power

/-!
# Binary floating point

Double-precision numbers as exact integers: a finite number is a signed mantissa times a power of
two. Every operation computes the exact result first and rounds it once, to the nearest
representable number and to the even mantissa on a tie.
-/

namespace Forthline

inductive Binary64 where
  | finite (negative : Bool) (mantissa : Nat) (exponent : Int)
  | infinite (negative : Bool)
  | nan
deriving DecidableEq, Repr, Inhabited

namespace Binary64

def leastExponent : Int := -1074

def greatestExponent : Int := 971

def zero (negative : Bool) : Binary64 := .finite negative 0 leastExponent

/-- The quotient of two naturals, rounded to the nearest natural and to the even one on a tie. -/
def roundDiv (n d : Nat) : Nat :=
  let q := n / d
  let r := n % d
  if d < 2 * r || (2 * r == d && q % 2 == 1) then q + 1 else q

def inUnits (n d : Nat) (e : Int) : Nat :=
  if 0 ≤ e then roundDiv n (d * twoTo e) else roundDiv (n * twoTo (-e)) d

def powerBelow (n d : Nat) (e : Int) : Bool :=
  if 0 ≤ e then d * twoTo e ≤ n else d ≤ n * twoTo (-e)

/-- The exponent of the unit in which `n / d` takes 53 bits, or the least exponent if larger. -/
def unitExponent (n d : Nat) : Int :=
  let guess := (n.log2 : Int) - d.log2
  let top := if powerBelow n d guess then guess else guess - 1
  max leastExponent (top - 52)

def round (negative : Bool) (n d : Nat) : Binary64 :=
  if n = 0 then zero negative
  else
    let e := unitExponent n d
    let m := inUnits n d e
    if m = twoTo 53 then
      if e + 1 ≤ greatestExponent then .finite negative (twoTo 52) (e + 1) else .infinite negative
    else if e ≤ greatestExponent then .finite negative m e
    else .infinite negative

def roundScaled (negative : Bool) (n : Nat) (e : Int) : Binary64 :=
  if 0 ≤ e then round negative (n * twoTo e) 1 else round negative n (twoTo (-e))

def ofInt? (n : Int) : Option Binary64 :=
  match round (n < 0) n.natAbs 1 with
  | .infinite _ => none
  | x => some x

def isFinite : Binary64 → Bool
  | .finite .. => true
  | _ => false

def isZero : Binary64 → Bool
  | .finite _ m _ => m == 0
  | _ => false

def signed (negative : Bool) (n : Nat) : Int := if negative then -n else n

def dyadic? : Binary64 → Option (Int × Int)
  | .finite s m e => some (signed s m, e)
  | _ => none

def neg : Binary64 → Binary64
  | .finite s m e => .finite (!s) m e
  | .infinite s => .infinite (!s)
  | .nan => .nan

def add : Binary64 → Binary64 → Binary64
  | .finite s m e, .finite t k f =>
    let u := min e f
    let sum := signed s (m * twoTo (e - u)) + signed t (k * twoTo (f - u))
    if sum = 0 then zero (s && t) else roundScaled (sum < 0) sum.natAbs u
  | .infinite s, .infinite t => if s = t then .infinite s else .nan
  | .infinite s, .finite .. => .infinite s
  | .finite .., .infinite t => .infinite t
  | _, _ => .nan

def sub (x y : Binary64) : Binary64 := x.add y.neg

def mul : Binary64 → Binary64 → Binary64
  | .finite s m e, .finite t k f => roundScaled (s ^^ t) (m * k) (e + f)
  | .infinite s, .infinite t => .infinite (s ^^ t)
  | .infinite s, .finite t k _ => if k = 0 then .nan else .infinite (s ^^ t)
  | .finite s m _, .infinite t => if m = 0 then .nan else .infinite (s ^^ t)
  | _, _ => .nan

def div : Binary64 → Binary64 → Binary64
  | .finite s m e, .finite t k f =>
    if e < f then round (s ^^ t) m (k * twoTo (f - e))
    else round (s ^^ t) (m * twoTo (e - f)) k
  | .infinite s, .finite t _ _ => .infinite (s ^^ t)
  | .finite s _ _, .infinite t => zero (s ^^ t)
  | _, _ => .nan

/-- The remainder of division towards zero, which is exact. It is undefined for an infinite
dividend or a zero divisor. -/
def rem? : Binary64 → Binary64 → Option Binary64
  | .nan, _ => some .nan
  | _, .nan => some .nan
  | .infinite _, _ => none
  | .finite s m e, .infinite _ => some (.finite s m e)
  | .finite s m e, .finite _ k f =>
    if k = 0 then none
    else
      let u := min e f
      some (roundScaled s (m * twoTo (e - u) % (k * twoTo (f - u))) u)

def compareExact (x y : Int × Int) : Ordering :=
  let u := min x.2 y.2
  compare (x.1 * twoTo (x.2 - u)) (y.1 * twoTo (y.2 - u))

def floor? : Binary64 → Option Int
  | .finite s m e =>
    if 0 ≤ e then some (signed s (m * twoTo e))
    else some (Int.fdiv (signed s m) (twoTo (-e)))
  | _ => none

def trunc? : Binary64 → Option Int
  | .finite s m e =>
    if 0 ≤ e then some (signed s (m * twoTo e))
    else some (Int.tdiv (signed s m) (twoTo (-e)))
  | _ => none

def toInt? : Binary64 → Option Int
  | .finite s m e =>
    if 0 ≤ e then some (signed s (m * twoTo e))
    else if m % twoTo (-e) = 0 then some (signed s (m / twoTo (-e)))
    else none
  | _ => none

end Binary64

end Forthline
