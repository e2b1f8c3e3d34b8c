import Forthline.Session.Device

/-!
# Outside events

Keys, timers and listeners, and what a session tells about itself.
-/

namespace Forthline

inductive Called where
  | absent
  | returned (r : Option LineResult)

inductive Listener where
  | line (number : Nat)
  | log (number : Nat)
deriving DecidableEq, Repr

structure Statistics where
  lines : Nat
  steps : Nat
  words : Nat
deriving DecidableEq, Repr

namespace Run

def sendKey (fuel : Nat) (key : Value) : Run (Option LineResult) := do
  match ← deliverKey (betweenLines fuel) key with
  | some continuation => resume fuel continuation
  | none => return none

def fire (fuel : Nat) (place : Nat) : Run Called := do
  match (← get).sleeping[place]? with
  | none => return .absent
  | some (_, continuation) =>
    modify fun m =>
      { m with sleeping := m.sleeping.eraseIdx place, fired := some continuation }
    return .returned (← resume fuel continuation)

def refire (fuel : Nat) : Run Called := do
  match (← get).fired with
  | none => return .absent
  | some continuation => return .returned (← resume fuel continuation)

def resumeKept (fuel : Nat) (place : Nat) : Run Called := do
  match (← get).kept[place]? with
  | none => return .absent
  | some continuation => return .returned (← resume fuel continuation)

def listenToLines : Run Listener := do
  let n := (← get).listenerCount
  modify fun m => { m with listenerCount := n + 1, lineListeners := m.lineListeners ++ [n] }
  return .line n

def listenToLog : Run Listener := do
  let n := (← get).listenerCount
  modify fun m => { m with listenerCount := n + 1, logListeners := m.logListeners ++ [n] }
  return .log n

def dismiss (l : Listener) : Run Unit := do
  let m ← get
  match l with
  | .line n =>
    if m.lineListeners.contains n then set { m with lineListeners := m.lineListeners.erase n }
    else fail (.host .noListener)
  | .log n =>
    if m.logListeners.contains n then set { m with logListeners := m.logListeners.erase n }
    else fail (.host .noListener)

end Run

namespace Machine

def statistics (m : Machine) : Statistics where
  lines := m.linesRead
  steps := m.steps
  words := m.dictionary.words.size

def lastOutput (m : Machine) : String := (m.lastResult.map LineResult.output).getD ""

end Machine

end Forthline
