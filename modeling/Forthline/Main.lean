import Forthline.Shell

/-!
# The program

The shell on the real console.
-/

namespace Forthline

def unboundedFuel : Nat := twoTo 63

def drawRandom : IO Binary64 := do
  let n ← IO.rand 0 (twoTo 53 - 1)
  return Binary64.round false n (twoTo 53)

def milliseconds (x : Binary64) : UInt32 :=
  let thousand := Binary64.round false 1000 1
  ((x.mul thousand).trunc?.getD 0).toNat.toUInt32

partial def readRest (input : IO.FS.Stream) (text : String) : IO String := do
  let line ← input.getLine
  if line.isEmpty then return text else readRest input (text ++ line)

def readLineFrom (input : IO.FS.Stream) : IO (Option String) := do
  let line ← input.getLine
  return (Text.feedLines line).head?

def readKeyFrom (input : IO.FS.Stream) : IO (Option String) := do
  let line ← input.getLine
  return if line.isEmpty then none else some line

def readFileIfPresent (path : String) : IO (Option String) := do
  try
    return some (← IO.FS.readFile path)
  catch _ => return none

def standardConsole : IO (Console IO) := do
  let input ← IO.getStdin
  let output ← IO.getStdout
  let errors ← IO.getStderr
  return {
    write := fun text => do
      output.putStr text
      output.flush
    complain := fun text => do
      errors.putStr text
      errors.flush
    isTerminal := input.isTty
    readAll := readRest input ""
    readLine := readLineFrom input
    readKey := readKeyFrom input
    readFile := readFileIfPresent
    rest := fun delay => IO.sleep (milliseconds delay)
    clock := IO.monoMsNow
    random := (List.range 4096).mapM fun _ => drawRandom }

end Forthline

def main (args : List String) : IO UInt32 := do
  let console ← Forthline.standardConsole
  match ← Forthline.Shell.runArguments console Forthline.unboundedFuel args with
  | .exited code => return code.toUInt32
  | .crashed f =>
    console.complain (f.cause.kind ++ ": " ++ f.cause.message ++ "\n")
    return 1
