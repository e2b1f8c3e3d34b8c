/-!
# Powers

Powers of two and of ten with integer exponents, cut off at one: a factor that belongs to the
other side of a comparison or a quotient is left out by a negative exponent.
-/

namespace Forthline

def twoTo (e : Int) : Nat := Nat.pow 2 e.toNat

def tenTo (e : Int) : Nat := Nat.pow 10 e.toNat

end Forthline
