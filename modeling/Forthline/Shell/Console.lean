import Forthline.Number.Numeral
import Forthline.Shell.Path
import Forthline.Text.Lines

/-!
# Consoles

What the shell needs from its surroundings, in any monad, and a console that plays back given
input and records what is written.
-/

namespace Forthline

structure Console (m : Type → Type) where
  write : String → m Unit
  /-- Writes to the place for errors. -/
  complain : String → m Unit
  isTerminal : m Bool
  readAll : m String
  /-- The next line of the standard input, unless it is at its end. -/
  readLine : m (Option String)
  /-- What the next key sends, unless the user interrupts. -/
  readKey : m (Option String)
  readFile : String → m (Option String)
  rest : Binary64 → m Unit
  clock : m Nat
  /-- Random numbers from zero up to one, to be drawn in order. -/
  random : m (List Binary64)

structure Recording where
  terminal : Bool := false
  input : String := ""
  /-- The lines of the input that were not read yet. -/
  lines : List String := Text.feedLines input
  keys : List String := []
  files : List (String × String) := []
  output : String := ""
  errors : String := ""

namespace Recording

def nextLine (r : Recording) : Option String × Recording :=
  match r.lines with
  | [] => (none, r)
  | line :: lines => (some line, { r with lines })

def nextKey (r : Recording) : Option String × Recording :=
  match r.keys with
  | [] => (none, r)
  | key :: keys => (some key, { r with keys })

def file? (r : Recording) (path : String) : Option String :=
  let files := r.files.map fun (name, text) => (Path.direct name, text)
  (Path.follow (files.map Prod.fst) path).bind fun place => files.lookup place

def console : Console (StateM Recording) where
  write text := modify fun r => { r with output := r.output ++ text }
  complain text := modify fun r => { r with errors := r.errors ++ text }
  isTerminal := return (← get).terminal
  readAll := return (← get).input
  readLine := modifyGet nextLine
  readKey := modifyGet nextKey
  readFile path := return (← get).file? path
  rest _ := return
  clock := return 0
  random := return []

end Recording

end Forthline
