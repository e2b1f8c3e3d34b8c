import Forthline.Value.Conversion

/-!
# Arithmetic

Arithmetic and comparison of values. Integers are unbounded; an operation with a real operand is
done in reals; texts can be joined, repeated and compared. Comparisons of an integer with a real
are exact.
-/

namespace Forthline

namespace Number

def compare? : Number → Number → Option Ordering
  | .int m, .int n => some (compare m n)
  | .int m, .real y => againstReal (m, 0) y
  | .real x, .int n => (againstReal (n, 0) x).map Ordering.swap
  | .real x, .real y =>
    match x, x.dyadic? with
    | _, some d => againstReal d y
    | .infinite s, none =>
      match y with
      | .nan => none
      | .infinite t => some (if s = t then .eq else if s then .lt else .gt)
      | .finite .. => some (if s then .lt else .gt)
    | _, none => none
where
  againstReal (d : Int × Int) : Binary64 → Option Ordering
    | .nan => none
    | .infinite s => some (if s then .gt else .lt)
    | .finite s m e => some (Binary64.compareExact d (Binary64.signed s m, e))

end Number

namespace Value

/-- Both numbers as integers, or both as reals. -/
def onNumbers (ints : Int → Int → Except Cause Value)
    (reals : Binary64 → Binary64 → Except Cause Value) (m n : Number) : Except Cause Value :=
  match m, n with
  | .int a, .int b => ints a b
  | _, _ => do
    let x ← numberToReal m
    let y ← numberToReal n
    reals x y

def operandFault (operation : String) (x y : Value) : Except Cause Value :=
  .error (.value (.operands operation x.typeName y.typeName))

def add (operation : String) (x y : Value) : Except Cause Value :=
  match x, y with
  | text s, text t => .ok (text (s ++ t))
  | text _, _ => .error (.value (.concatenation y.typeName))
  | _, _ =>
    match x.number?, y.number? with
    | some m, some n =>
      onNumbers (fun a b => .ok (int (a + b))) (fun a b => .ok (real (a.add b))) m n
    | _, _ => operandFault operation x y

def sub (x y : Value) : Except Cause Value :=
  match x.number?, y.number? with
  | some m, some n =>
    onNumbers (fun a b => .ok (int (a - b))) (fun a b => .ok (real (a.sub b))) m n
  | _, _ => operandFault "-" x y

def copies (s : String) (n : Nat) : String :=
  if n = 0 then ""
  else
    let half := copies s (n / 2)
    if n % 2 = 0 then half ++ half else half ++ half ++ s

/-- The length from which on a repeated text finds no room. It stands for the memory of the host,
whose size is its own affair: only the failure of a repetition that asks for more depends on it. -/
def textRoom : Nat := twoTo 34

/-- A text repeated. The count must fit a 64-bit word, and there must be room for the result. -/
def repeated (s : String) (n : Int) : Except Cause Value :=
  if n < -twoTo 63 || twoTo 63 ≤ n then .error (.value .repetitionCount)
  else
    let size := s.length * n.toNat
    if twoTo 63 ≤ size then .error (.value .repetitionLength)
    else if textRoom ≤ size then .error (.value .exhausted)
    else if s.isEmpty then .ok (text "")
    else .ok (text (copies s n.toNat))

def mul (x y : Value) : Except Cause Value :=
  match x.number?, y.number? with
  | some m, some n =>
    onNumbers (fun a b => .ok (int (a * b))) (fun a b => .ok (real (a.mul b))) m n
  | m?, n? =>
    match x, y, m?, n? with
    | text s, _, _, some (.int n) => repeated s n
    | _, text s, some (.int n), _ => repeated s n
    | text _, _, _, _ => .error (.value (.repetition y.typeName))
    | _, text _, _, _ => .error (.value (.repetition x.typeName))
    | _, _, _, _ => operandFault "*" x y

def quotient (x y : Value) : Except Cause Value :=
  match x.number?, y.number? with
  | some m, some n =>
    onNumbers
      (fun a b =>
        if b = 0 then .error (.value .integerQuotientByZero) else .ok (int (Int.fdiv a b)))
      (fun a b =>
        if b.isZero then .error (.value .realQuotientByZero)
        else (floorReal (a.div b)).map int)
      m n
  | _, _ => operandFault "/" x y

def realOperand (v : Value) : Except Cause Binary64 :=
  match v.number? with
  | some n => numberToReal n
  | none => .error (.value (.notReal v.typeName))

def remainder (x y : Value) : Except Cause Value :=
  match x.number?, y.number? with
  | some (.int a), some (.int b) =>
    if b = 0 then .error (.value .integerRemainderByZero) else .ok (int (Int.tmod a b))
  | _, _ => do
    let a ← realOperand x
    let b ← realOperand y
    match a.rem? b with
    | some r => .ok (real r)
    | none => .error (.value .remainderUndefined)

def same (x y : Value) : Bool :=
  match x.number?, y.number? with
  | some m, some n => m.compare? n = some .eq
  | none, none => x = y
  | _, _ => false

def ordered (relation : String) (holds : Ordering → Bool) (x y : Value) : Except Cause Bool :=
  match x, y with
  | text s, text t => .ok (holds (compareOfLessAndEq s t))
  | _, _ =>
    match x.number?, y.number? with
    | some m, some n => .ok ((m.compare? n).elim false holds)
    | _, _ => .error (.value (.order relation x.typeName y.typeName))

def less : Value → Value → Except Cause Bool := ordered "<" (· = .lt)

def greater : Value → Value → Except Cause Bool := ordered ">" (· = .gt)

def atLeast : Value → Value → Except Cause Bool := ordered ">=" (· ≠ .lt)

end Value

def bitAnd : Int → Int → Int
  | .ofNat m, .ofNat n => .ofNat (m &&& n)
  | .ofNat m, .negSucc n => .ofNat (m ^^^ (m &&& n))
  | .negSucc m, .ofNat n => .ofNat (n ^^^ (n &&& m))
  | .negSucc m, .negSucc n => .negSucc (m ||| n)

def bitOr : Int → Int → Int
  | .ofNat m, .ofNat n => .ofNat (m ||| n)
  | .ofNat m, .negSucc n => .negSucc (n ^^^ (n &&& m))
  | .negSucc m, .ofNat n => .negSucc (m ^^^ (m &&& n))
  | .negSucc m, .negSucc n => .negSucc (m &&& n)

end Forthline
