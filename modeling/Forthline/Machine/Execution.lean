import Forthline.Machine.Task

/-!
# Execution

The machine runs one node at a time from a stack of frames, so that it can stop after any word and
go on later from the same place.
-/

namespace Forthline.Run

def pushFrame (f : Frame) : Run Unit := modify fun m => { m with frames := f :: m.frames }

def setFrame (f : Frame) : Run Unit := modify fun m => { m with frames := f :: m.frames.tail }

def dropFrame : Run Unit := modify fun m => { m with frames := m.frames.tail }

def word : Word → Run Unit
  | .native name c => native name c
  | .definition _ body _ => pushFrame (.sequence body)
  | .control c => fail (.unknownControl c.code)
  | .stray shown => fail (.invalidAction shown)

/-- Starts a node. A conditional takes every value but zero for true; a counted loop takes its
start and then its limit, and runs forwards if the limit is greater. -/
def node (n : Node) : Run Unit := do
  modify fun m => { m with steps := m.steps + 1 }
  match n with
  | .action w => word w
  | .conditional consequent alternative => do
    let v ← pop
    pushFrame (.sequence (if v.same (.int 0) then alternative else consequent))
  | .counted body stepped => do
    let start ← pop
    let limit ← pop
    let forwards ← lift (limit.greater start)
    pushFrame (.counted body stepped start limit forwards false)
  | .indefinite body => pushFrame (.indefinite body false)

/-- Begins the next iteration of a counted loop, or leaves the loop. The index of the iteration
under way is on the return stack. -/
def iterate (body : List Node) (stepped : Bool) (index limit : Value) (forwards running : Bool) :
    Run Unit := do
  let index ←
    if running then do
      discard popReturn
      let step ← if stepped then pop else pure (.int 1)
      let index ← lift (Value.add "+=" index step)
      setFrame (.counted body stepped index limit forwards true)
      pure index
    else pure index
  let more ← if forwards then lift (index.less limit) else lift (index.atLeast limit)
  if more then
    pushReturn index
    setFrame (.counted body stepped index limit forwards true)
    pushFrame (.sequence body)
  else dropFrame

/-- Begins the next iteration of an indefinite loop, or leaves it if the body left a true flag. -/
def repeatBody (body : List Node) (running : Bool) : Run Unit := do
  let done ← if running then pure ((← pop).same (.int (-1))) else pure false
  if done then dropFrame
  else
    setFrame (.indefinite body true)
    pushFrame (.sequence body)

/-- One turn of the innermost frame. -/
def advance : Frame → Run Unit
  | .sequence [] => dropFrame
  | .sequence (n :: rest) => do
    setFrame (.sequence rest)
    node n
  | .counted body stepped index limit forwards running =>
    iterate body stepped index limit forwards running
  | .indefinite body running => repeatBody body running

/-- Runs until the frames are done or a word suspends the line; tells which. -/
def run : Nat → Run Bool
  | 0 => throw .exhausted
  | fuel + 1 => do
    let m ← get
    match m.frames with
    | [] => return !m.paused
    | f :: _ =>
      if m.paused then return false
      else
        advance f
        run fuel

def execute (fuel : Nat) (w : Word) : Run Bool := do
  pushFrame (.sequence [.action w])
  run fuel

end Forthline.Run
