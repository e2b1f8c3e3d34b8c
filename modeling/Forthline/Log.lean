import Forthline.Failure

/-!
# Log

What a session reports about its work. Entries below the threshold are not made.
-/

namespace Forthline

inductive Level where
  | debug
  | info
  | warning
  | error
deriving DecidableEq, Repr

namespace Level

def name : Level → String
  | debug => "DEBUG"
  | info => "INFO"
  | warning => "WARNING"
  | error => "ERROR"

def rank : Level → Nat
  | debug => 10
  | info => 20
  | warning => 30
  | error => 40

def rankOf? : String → Option Nat
  | "CRITICAL" | "FATAL" => some 50
  | "ERROR" => some 40
  | "WARN" | "WARNING" => some 30
  | "INFO" => some 20
  | "DEBUG" => some 10
  | "NOTSET" => some 0
  | _ => none

/-- The threshold that a level name sets; an unset level is that of warnings. -/
def threshold (name : String) : Except Cause Nat :=
  match rankOf? name with
  | some 0 => .ok 30
  | some rank => .ok rank
  | none => .error (.host (.unknownLevel name))

end Level

structure LogEntry where
  level : Level
  category : String
  message : String
deriving DecidableEq, Repr

structure Log where
  threshold : Nat := 20
  entries : List LogEntry := []
deriving Repr

namespace Log

def accepts (l : Log) (level : Level) : Bool := l.threshold ≤ level.rank

def toList (l : Log) : List LogEntry := l.entries.reverse

/-- The capital of a letter, as far as it is an ASCII letter: this includes the dotless i and the
long s. -/
def capital (c : Char) : Char :=
  if c = 'ı' then 'I' else if c = 'ſ' then 'S' else c.toUpper

/-- The entries of at least a level given by name, in any case. An unknown name is noticed when
there is an entry to compare with. -/
def atLeast (l : Log) (name : String) : Except Cause (List LogEntry) :=
  match Level.rankOf? (name.map capital) with
  | some rank => .ok (l.toList.filter fun e => rank ≤ e.level.rank)
  | none => if l.entries.isEmpty then .ok [] else .error (.host .levelOrder)

end Log

end Forthline
