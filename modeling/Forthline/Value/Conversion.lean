import Forthline.Value

/-!
# Conversions

Values as integers, as reals and as characters.
-/

namespace Forthline.Value

def toInteger : Value → Except Cause Int
  | int n => .ok n
  | real x =>
    match x.trunc?, x with
    | some n, _ => .ok n
    | none, .nan => .error (.value .undefinedInteger)
    | none, _ => .error (.value .infiniteInteger)
  | text s =>
    match Numeral.readInt s with
    | .value n => .ok n
    | .tooLong digits => .error (.value (.integerTooLong digits))
    | .malformed => .error (.value (.integerSyntax s))
  | truth b => .ok (if b then 1 else 0)
  | nothing => .error (.value (.integerType "NoneType"))

def floorReal (x : Binary64) : Except Cause Int :=
  match x.floor?, x with
  | some n, _ => .ok n
  | none, .nan => .error (.value .undefinedInteger)
  | none, _ => .error (.value .infiniteInteger)

def floor (v : Value) : Except Cause Int :=
  match v.number? with
  | some (.int n) => .ok n
  | some (.real x) => floorReal x
  | none => .error (.value (.notReal v.typeName))

def numberToReal : Number → Except Cause Binary64
  | .real x => .ok x
  | .int n =>
    match Binary64.ofInt? n with
    | some x => .ok x
    | none => .error (.value .integerTooLarge)

def toReal (v : Value) : Except Cause Binary64 :=
  match v.number?, v with
  | some n, _ => numberToReal n
  | none, text s =>
    match Numeral.readReal? s with
    | some x => .ok x
    | none => .error (.value (.realSyntax s))
  | none, _ => .error (.value (.realType v.typeName))

def character (n : Int) : Except Cause Char :=
  if n < -2147483648 || 2147483647 < n then .error (.value .characterWidth)
  else if n < 0 || 0x10ffff < n then .error (.value .characterRange)
  else .ok (Char.ofNat n.toNat)

end Forthline.Value
