import Forthline.Stack
import Forthline.Table
import Forthline.Text.Lowercase
import Forthline.Value.Arithmetic
import Std.Data.TreeMap

/-!
# Memory

A row of cells, an allocator that only moves forward, names for allocated blocks, and the watchers
of single cells. A value stored in several cells is split into bytes, the lowest first.

Writing returns the watchers to be told; who they are and what they do is up to the caller.
-/

namespace Forthline

inductive BlockKind where
  | variable
  | block
deriving DecidableEq, Repr

structure Binding where
  address : Int
  size : Int
  kind : BlockKind
deriving DecidableEq, Repr

structure Memory (σ : Type) where
  size : Int := 65536
  /-- The allocator hands out no cell at or above this address. -/
  heapLimit : Int := size
  next : Int := 1000
  cells : Std.TreeMap Nat Value := {}
  bindings : Table Binding := {}
  watchers : List (Nat × σ) := []

structure Written (σ : Type) where
  memory : Memory σ
  value : Value
  watchers : List σ

structure Block where
  name : String
  binding : Binding
  value : Value

structure MemoryMap where
  blocks : List Block
  next : Int
  free : Int

namespace Memory

variable {σ : Type}

def cell (m : Memory σ) (a : Nat) : Value := m.cells.getD a (.int 0)

def setCell (m : Memory σ) (a : Nat) (v : Value) : Memory σ :=
  { m with cells := m.cells.insert a v }

def extent (m : Memory σ) : Nat := m.size.toNat

def inRange (m : Memory σ) (a size : Int) : Except Cause Nat :=
  if a < 0 || m.size < a + size then
    match Numeral.decimal? a, Numeral.decimal? size with
    | some _, some _ => .error (.addressRange a size m.size)
    | _, _ => .error (.value .integerUnwritable)
  else .ok a.toNat

/-- The first of `size` cells at an address, which must be a whole number inside the memory. -/
def locate (m : Memory σ) (address : Value) (size : Int) : Except Cause Nat :=
  let refuse := do
    let shown ← address.plain
    .error (.addressKind shown)
  match address with
  | .int a => m.inRange a size
  | .real x =>
    match x.toInt? with
    | some a => m.inRange a size
    | none => refuse
  | _ => refuse

def allot (m : Memory σ) (size : Int) : Except Cause (Int × Memory σ) :=
  if size < 0 || m.heapLimit < m.next + size then
    match Numeral.decimal? size with
    | some _ => .error (.heapEnd size m.next m.heapLimit)
    | none => .error (.value .integerUnwritable)
  else .ok (m.next, { m with next := m.next + size })

def bind (m : Memory σ) (name : String) (b : Binding) : Memory σ :=
  { m with bindings := m.bindings.insert name b }

/-- Reserves cells for a variable, whose name is not case-sensitive. -/
def addVariable (m : Memory σ) (name : String) (size : Int) : Except Cause (Int × Memory σ) := do
  let (address, m) ← m.allot size
  return (address, m.bind (Text.lower name) { address, size, kind := .variable })

def addBlock (m : Memory σ) (name : String) (size : Int) (start : Option Value) :
    Except Cause (Int × Memory σ) := do
  let (address, m) ←
    match start with
    | none => m.allot size
    | some a => do
      let a ← m.locate a size
      pure ((a : Int), m)
  return (address, m.bind name { address, size, kind := .block })

/-- Forgets a name. Its cells stay reserved. -/
def release (m : Memory σ) (name : String) : Memory σ :=
  { m with bindings := m.bindings.erase name }

def addressOf? (m : Memory σ) (name : String) : Option Int :=
  (m.bindings.get? (Text.lower name)).map Binding.address

/-- The lowest bytes of an integer in two's complement, the lowest first. -/
def splitBytes (n : Int) : Nat → List Int
  | 0 => []
  | count + 1 => n % 256 :: splitBytes (n / 256) count

def joinBytes : List Int → Int
  | [] => 0
  | b :: bs => bitOr b (joinBytes bs * 256)

def setCells (m : Memory σ) (a : Nat) : List Int → Memory σ
  | [] => m
  | n :: ns => (m.setCell a (.int n)).setCells (a + 1) ns

def watchersAt (m : Memory σ) (a : Nat) : List σ :=
  (m.watchers.filter fun w => w.1 = a).map Prod.snd

/-- The fault of an index behind the end; an index that is too wide has one of its own. -/
def faultAt (a : Nat) (fault : HostFault) : HostFault :=
  if a < 0x8000000000000000 then fault else .indexWidth

def write (m : Memory σ) (address value : Value) (size : Int) : Except Cause (Written σ) := do
  let a ← m.locate address size
  if 1 < size then
    let n ← value.toInteger
    return {
      memory := m.setCells a (splitBytes n size.toNat)
      value := .int n
      watchers := m.watchersAt a }
  else if a < m.extent then
    return { memory := m.setCell a value, value, watchers := m.watchersAt a }
  else .error (.host (faultAt a .listAssignment))

/-- What a cell reads as: empty values read as zero. -/
def peek (m : Memory σ) (a : Nat) : Value :=
  let v := m.cell a
  if v.isVoid then .int 0 else v

def integers (m : Memory σ) (a count : Nat) : Except Cause (List Int) :=
  (List.range count).mapM fun i => (m.peek (a + i)).toInteger

def read (m : Memory σ) (address : Value) (size : Int) : Except Cause Value := do
  let a ← m.locate address size
  if 1 < size then return .int (joinBytes (← m.integers a size.toNat))
  else if a < m.extent then return m.peek a
  else .error (.host (faultAt a .listIndex))

/-- Starts watching a cell, and gives the cell's place for `unwatch`. -/
def watch (m : Memory σ) (address : Value) (w : σ) : Except Cause (Nat × Memory σ) := do
  let a ← m.locate address 1
  return (a, { m with watchers := m.watchers ++ [(a, w)] })

/-- Removes the first watcher of a cell equal to `w`, if there is one. -/
def unwatch [BEq σ] (m : Memory σ) (a : Nat) (w : σ) : Memory σ :=
  { m with watchers := m.watchers.eraseP fun x => x.1 == a && x.2 == w }

def map (m : Memory σ) : Except Cause MemoryMap := do
  let blocks ← m.bindings.entries.mapM fun (name, b) => do
    let value ← m.read (.int b.address) b.size
    pure ({ name, binding := b, value } : Block)
  return { blocks, next := m.next, free := m.heapLimit - m.next }

/-- The cells from one position up to another; negative positions count from the end. -/
def slice (m : Memory σ) (first last : Int) : List Value :=
  let place (i : Int) : Nat := if i < 0 then (i + m.extent).toNat else min i.toNat m.extent
  ((List.range (place last)).drop (place first)).map m.cell

end Memory

end Forthline
