import Forthline.Display
import Forthline.Signature
import Forthline.Value.Arithmetic

/-!
# Built-in words

The native words of every session, with their signatures, and the words that the library defines
on top of them.
-/

namespace Forthline

inductive Group where
  | core
  | extension
deriving DecidableEq, Repr

namespace Group

def name : Group → String
  | core => "core"
  | extension => "extension"

end Group

structure Builtin where
  name : String
  group : Group
  signature : Signature
  code : Code
  doc : Option String := none

namespace Builtin

def word (b : Builtin) : Word := .native b.name b.code

private def whole : WrittenType := .named "int"

private def numeric : WrittenType := .union "int | float"

private def takes (types : List WrittenType) (result : WrittenType) : Signature where
  parameters := types.map fun t => { name := "", type := some t }
  result := some result

private def contextual (result : WrittenType) : Signature :=
  takes [.named "ExecutionContext"] result

private def core (name : String) (types : List WrittenType) (result : WrittenType) (yield : Yield)
    (apply : List Value → Except Cause (List Value)) : Builtin where
  name := name
  group := .core
  signature := takes types result
  code := .function types.length yield apply

private def coreTask (name : String) (task : Task) (doc : Option String) : Builtin where
  name := name
  group := .core
  signature := contextual .void
  code := .task task
  doc := doc

private def extensionTask (name : String) (task : Task) (doc : Option String) : Builtin where
  name := name
  group := .extension
  signature := contextual .void
  code := .task task
  doc := doc

def binary (f : Value → Value → Except Cause Value) : List Value → Except Cause (List Value)
  | [b, a] => (f b a).map ([·])
  | _ => .ok []

def relation (f : Value → Value → Except Cause Bool) : List Value → Except Cause (List Value) :=
  binary fun b a => (f b a).map Value.flag

def bitwise (f : Int → Int → Int) : List Value → Except Cause (List Value) :=
  binary fun b a => do
    let m ← b.toInteger
    let n ← a.toInteger
    return .int (f m n)

/-- The remainder, with the sign of the dividend, and then the quotient rounded down. -/
def divide : List Value → Except Cause (List Value)
  | [b, a] => do
    let r ← b.remainder a
    let q ← b.quotient a
    return [r, q]
  | _ => .ok []

def invert : List Value → Except Cause (List Value)
  | [x] => do
    let n ← x.toInteger
    return [.int (-n - 1)]
  | _ => .ok []

def swap : List Value → Except Cause (List Value)
  | [b, a] => .ok [a, b]
  | _ => .ok []

def dup : List Value → Except Cause (List Value)
  | [x] => .ok [x, x]
  | _ => .ok []

def copyBelow : List Value → Except Cause (List Value)
  | [b, a] => .ok [b, a, b]
  | _ => .ok []

def rot : List Value → Except Cause (List Value)
  | [c, b, a] => .ok [b, a, c]
  | _ => .ok []

def emit : List Value → Except Cause (List Value)
  | [x] => do
    let n ← x.toInteger
    let c ← Value.character n
    return [.text (String.singleton c)]
  | _ => .ok []

def echo : List Value → Except Cause (List Value)
  | [x] => do
    let shown ← x.display
    return [.text shown]
  | _ => .ok []

def all : List Builtin :=
  [ core "+" [numeric, numeric] numeric .values (binary fun b a => Value.add "+" a b),
    coreTask "allot" .allot none,
    core "and" [whole, whole] whole .values (bitwise bitAnd),
    core "/" [numeric, numeric] numeric .values (binary Value.quotient),
    core "/mod" [numeric, numeric] (.generic "tuple" [numeric, numeric]) .values divide,
    { name := ".", group := .core, signature := contextual (.named "Output")
      code := .task .printTop
      doc := some "Pop the top of the stack and print it followed by a space." },
    { name := ".s", group := .core, signature := contextual (.named "Output")
      code := .task .printStack
      doc := some "Print the whole stack without changing it." },
    core "drop" [.any] .void .nothing fun _ => .ok [],
    core "dup" [.any] (.generic "tuple" [.any, .any]) .values dup,
    core "emit" [whole] (.named "Output") .text emit,
    core "=" [.any, .any] whole .values (relation fun b a => .ok (b.same a)),
    coreTask "@" .fetch none,
    core ">" [numeric, numeric] whole .values (relation Value.greater),
    coreTask "i" (.copyReturn 1) none,
    core "invert" [whole] whole .values invert,
    coreTask "j" (.copyReturn 2) none,
    core "<" [numeric, numeric] whole .values (relation Value.less),
    core "mod" [numeric, numeric] numeric .values (binary Value.remainder),
    core "*" [numeric, numeric] numeric .values (binary fun b a => a.mul b),
    core "or" [whole, whole] whole .values (bitwise bitOr),
    core "over" [.any, .any] (.generic "tuple" [.any, .any, .any]) .values copyBelow,
    coreTask "r@" (.copyReturn 1) none,
    coreTask "r>" .fromReturn none,
    core "rot" [.any, .any, .any] (.generic "tuple" [.any, .any, .any]) .values rot,
    coreTask "!" .store <| some <|
      "( value address -- ) write one cell; " ++
        "ports mapped by devices are access-checked first.",
    core "-" [numeric, numeric] numeric .values (binary Value.sub),
    core "swap" [.any, .any] (.generic "tuple" [.any, .any]) .values swap,
    coreTask ">r" .toReturn none,
    extensionTask "define" .define <| some
      "( target name -- ) bind `name` to whatever `target` currently resolves to.",
    { name := "echo", group := .extension, signature := takes [.any] (.named "Output")
      code := .function 1 .text echo },
    extensionTask "key" .key <| some
      "( -- code ) suspend the line until a key code is delivered by the host.",
    extensionTask "\"" .quote <| some "Push the next token of the line as a string.",
    { name := "random", group := .extension, signature := takes [numeric] whole
      code := .task .random },
    extensionTask "sleep" .sleep <| some
      "( ms -- ) suspend the line, the scheduler resumes it after the delay.",
    extensionTask "transform" .transform <| some
      "( target name -- ) make `name` an alias that follows `target` at every lookup." ]

def installed : List (String × Word) :=
  Control.known.map (fun c => (c.code, .control c)) ++ all.map fun b => (b.name, b.word)

def library : List String :=
  [ "\\ Standard words, loaded line by line into every engine at startup.",
    ": cells   1 * ;",
    ": cr      10 emit ;",
    ": space   32 emit ;",
    ": spaces  0 do space loop ;",
    ": 0=      0 = ;",
    ": 0<      0 < ;",
    ": 0>      0 > ;",
    ": ?dup    dup if dup then ;",
    ": 2dup    over over ;",
    ": 1+      1 + ;",
    ": 1-      1 - ;",
    ": 2+      2 + ;",
    ": 2-      2 - ;",
    ": 2*      2 * ;",
    ": 2/      2 / ;",
    ": negate  -1 * ;",
    ": abs     dup 0< if negate then ;",
    ": min     2dup < if drop else swap drop then ;",
    ": max     2dup < if swap drop else drop then ;",
    ": ?       @ . ;",
    ": +!      dup @ rot + swap ! ;",
    "variable  graphics        \\ 24 * 24 = 576 cells of graphics memory",
    "575 cells allot",
    "variable  last-key" ]

end Builtin

end Forthline
