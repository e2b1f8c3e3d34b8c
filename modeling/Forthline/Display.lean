import Forthline.Port
import Forthline.Text.Colour

/-!
# Display

The texts in which stacks, words, memory and devices are shown.
-/

namespace Forthline.Display

def spaces (n : Nat) : String := String.ofList (List.replicate n ' ')

def padRight (width : Nat) (s : String) : String := s ++ spaces (width - s.length)

def padLeft (width : Nat) (s : String) : String := spaces (width - s.length) ++ s

def values (vs : List Value) : Except Cause String := do
  return " ".intercalate (← vs.mapM Value.display)

def stack (vs : List Value) (ending : String) : Except Cause String := do
  let shown ← values vs
  return s!"{shown} ← Top{ending}"

def suffixFrom (s : String) (position : Int) : String :=
  let start := if position < 0 then (position + s.length).toNat else position.toNat
  String.ofList (s.toList.drop start)

/-- The stack right-justified in a width, with what does not fit cut off at the left. The width
zero cuts and does not justify. The width must fit a 64-bit word. -/
def stackLine (vs : List Value) (width : Option Int) : Except Cause String := do
  let shown ← if vs.isEmpty then pure "∅" else values vs
  match width with
  | none => return shown
  | some w =>
    let cut := if w < shown.length then "… " ++ suffixFrom shown (2 - w) else shown
    if twoTo 63 ≤ w.natAbs then .error (.host .widthDigits)
    else if w < 0 then .error (.host .signInWidth)
    else return padLeft w.toNat cut

def words (view : List (String × Label × Bool)) : String :=
  let rows := view.mergeSort fun a b => !decide (b.1 < a.1)
  "\n".intercalate <| rows.map fun (name, label, permanent) =>
    let mark := if permanent then " " ++ Text.coloured "33" "~" else ""
    "  " ++ Text.coloured "97" (padRight 12 name) ++ " " ++ label.describe ++ mark

def memory (m : MemoryMap) : Except Cause String := do
  let heading := "  " ++ padRight 20 "name" ++ " " ++ padLeft 8 "address" ++ " " ++
    padLeft 5 "size" ++ "  value"
  let rows ← m.blocks.mapM fun b => do
    let value ← b.value.display
    return "  " ++ padRight 20 b.name ++ " " ++ padLeft 8 (Numeral.hexadecimal b.binding.address) ++
      " " ++ padLeft 5 (toString b.binding.size) ++ "  " ++ value
  let next := Numeral.hexadecimal m.next
  let free := m.free
  return "\n".intercalate (heading :: rows ++ [s!"  next free: {next}, {free} cell(s) left"])

def devices (overview : List DeviceView) : Except Cause String := do
  if overview.isEmpty then return "  no devices attached"
  let rows ← overview.mapM fun d => do
    let heading := Text.trimEnd ("  " ++ Text.coloured "97" d.name ++ " " ++ d.description)
    let ports ← d.ports.mapM fun p => do
      let value ← p.value.display
      return "    " ++ padRight 12 p.name ++ " " ++
        padLeft 8 (Numeral.hexadecimal p.address) ++ " " ++ padRight 9 p.access ++
        " " ++ value
    return heading :: ports
  return "\n".intercalate rows.flatten

end Forthline.Display
