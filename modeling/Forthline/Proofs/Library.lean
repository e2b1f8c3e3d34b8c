import Forthline.Proofs.Bytes
import Forthline.Proofs.Performing
import Forthline.Proofs.Provenance
import Mathlib.Data.Rat.Floor

/-!
# The words of the library

The library defines its words by lines, in terms of builtin words and of each other. Here are the
bodies that come of the lines, and what they make of integers on the stack.
-/

namespace Forthline

namespace Value

theorem less_int (a b : Int) : Value.less (.int a) (.int b) = .ok (decide (a < b)) := by
  simp [Value.less, Value.ordered, Value.number?, Number.compare?, Int.compare_eq_lt]

theorem same_int (a b : Int) : (Value.int a).same (.int b) = decide (a = b) := by
  simp [Value.same, Value.number?, Number.compare?]

theorem same_flag (b : Bool) : (Value.flag b).same (.int 0) = !b := by
  cases b with
  | false => rfl
  | true => rfl

end Value

namespace Library

def number (text : String) (n : Int) : Node := .action (.pusher text (.int n))

def call (name : String) (body : List Node) : Node := .action (.definition name body false)

def dup : Node := .action (.native "dup" (.function 1 .values Builtin.dup))

def drop : Node := .action (.native "drop" (.function 1 .nothing fun _ => .ok []))

def swap : Node := .action (.native "swap" (.function 2 .values Builtin.swap))

def copyBelow : Node := .action (.native "over" (.function 2 .values Builtin.copyBelow))

def rot : Node := .action (.native "rot" (.function 3 .values Builtin.rot))

def plus : Node :=
  .action (.native "+" (.function 2 .values (Builtin.binary fun b a => Value.add "+" a b)))

def times : Node :=
  .action (.native "*" (.function 2 .values (Builtin.binary fun b a => a.mul b)))

def minus : Node :=
  .action (.native "-" (.function 2 .values (Builtin.binary Value.sub)))

def slash : Node := .action (.native "/" (.function 2 .values (Builtin.binary Value.quotient)))

def equal : Node :=
  .action (.native "=" (.function 2 .values (Builtin.relation fun b a => .ok (b.same a))))

def less : Node := .action (.native "<" (.function 2 .values (Builtin.relation Value.less)))

def greater : Node := .action (.native ">" (.function 2 .values (Builtin.relation Value.greater)))

def fetch : Node := .action (.native "@" (.task .fetch))

def store : Node := .action (.native "!" (.task .store))

def emit : Node := .action (.native "emit" (.function 1 .text Builtin.emit))

def dot : Node := .action (.native "." (.task .printTop))

def cells : List Node := [number "1" 1, times]

def cr : List Node := [number "10" 10, emit]

def space : List Node := [number "32" 32, emit]

def spaces : List Node := [number "0" 0, .counted [call "space" space] false]

def zeroEqual : List Node := [number "0" 0, equal]

def zeroLess : List Node := [number "0" 0, less]

def zeroGreater : List Node := [number "0" 0, greater]

def maybeDup : List Node := [dup, .conditional [dup] []]

def twoDup : List Node := [copyBelow, copyBelow]

def onePlus : List Node := [number "1" 1, plus]

def oneMinus : List Node := [number "1" 1, minus]

def twoPlus : List Node := [number "2" 2, plus]

def twoMinus : List Node := [number "2" 2, minus]

def double : List Node := [number "2" 2, times]

def halve : List Node := [number "2" 2, slash]

def negate : List Node := [number "-1" (-1), times]

def abs : List Node := [dup, call "0<" zeroLess, .conditional [call "negate" negate] []]

def min : List Node := [call "2dup" twoDup, less, .conditional [drop] [swap, drop]]

def max : List Node := [call "2dup" twoDup, less, .conditional [swap, drop] [drop]]

def question : List Node := [fetch, dot]

def plusStore : List Node := [dup, fetch, rot, plus, swap, store]

def words : List (String × List Node) :=
  [("cells", cells), ("cr", cr), ("space", space), ("spaces", spaces), ("0=", zeroEqual),
    ("0<", zeroLess), ("0>", zeroGreater), ("?dup", maybeDup), ("2dup", twoDup), ("1+", onePlus),
    ("1-", oneMinus), ("2+", twoPlus), ("2-", twoMinus), ("2*", double), ("2/", halve),
    ("negate", negate), ("abs", abs), ("min", min), ("max", max), ("?", question),
    ("+!", plusStore)]

def primitives : List Node :=
  [plus, slash, dot, drop, dup, emit, equal, fetch, greater, less, times, copyBelow, rot, store,
    minus, swap]

private theorem builtin_of_primitive : ∀ n ∈ primitives, ∃ b ∈ Builtin.all, n = .action b.word := by
  simp only [primitives, List.forall_mem_cons, List.not_mem_nil, false_implies,
    implies_true, and_true]
  have hat (i : Nat) {b : Builtin} (h : Builtin.all[i]? = some b) :
      ∃ b' ∈ Builtin.all, Node.action b.word = .action b'.word :=
    ⟨b, List.mem_of_getElem? h, rfl⟩
  exact ⟨hat 0 rfl, hat 3 rfl, hat 5 rfl, hat 7 rfl, hat 8 rfl, hat 9 rfl, hat 10 rfl, hat 11 rfl,
    hat 12 rfl, hat 16 rfl, hat 18 rfl, hat 20 rfl, hat 23 rfl, hat 24 rfl, hat 25 rfl, hat 26 rfl⟩

private theorem words_authentic : ∀ e ∈ words, (Word.definition e.1 e.2 false).Authentic := by
  have hnumber (text : String) (n : Int) : AllGenuine (number text n).natives :=
    allGenuine_push text (.int n)
  have hprimitive : ∀ n ∈ primitives, AllGenuine n.natives := by
    intro n hn
    obtain ⟨b, hb, rfl⟩ := builtin_of_primitive n hn
    exact allGenuine_builtin hb
  simp only [primitives, List.forall_mem_cons, List.not_mem_nil, false_implies, implies_true,
    and_true] at hprimitive
  simp only [words, cells, cr, space, spaces, zeroEqual, zeroLess, zeroGreater, maybeDup, twoDup,
    onePlus, oneMinus, twoPlus, twoMinus, double, halve, negate, abs, min, max, question, plusStore,
    call, List.forall_mem_cons, List.not_mem_nil, false_implies, implies_true, Word.Authentic,
    Word.natives, nativesOf, Node.natives, allGenuine_append, allGenuine_nil, hnumber, hprimitive,
    and_self]

end Library

namespace Session

/-- Puts a text into a cell, and then attaches a device with a port of two cells, of which this is
the first. -/
def spoil : Run Unit := do
  discard (Run.readLine 100 ".\" x\" 4096 !")
  discard (Run.attach 100 { name := some "d", ports := some [.port "w" 2 "readwrite" ""] })

def spoiled : Machine := (spoil.on standard).2

private def printsTop (m : Machine) : Bool :=
  match m.dictionary.lookup "." with
  | .ok (some (.native name (.task .printTop))) => name = "."
  | _ => false

private theorem unbound_of_test {d : Dictionary} {t : String}
    (h : (d.lookup t).toOption.any Option.isNone = true) : d.lookup t = .ok none := by
  rcases hfound : d.lookup t with c | - | w
  · rw [hfound] at h
    cases h
  · rfl
  · rw [hfound] at h
    cases h

private theorem lookup_of_printsTop {m : Machine} (h : printsTop m = true) :
    m.dictionary.lookup "." = .ok (some (.native "." (.task .printTop))) := by
  unfold printsTop at h
  split at h
  · next hfound =>
    rw [hfound, of_decide_eq_true h]
  · cases h

private theorem illegible_of_map {memory : Memory Subscription} (h : memory.map.isOk = false) :
    ¬memory.Legible := by
  intro hlegible
  obtain ⟨map, hmap⟩ := memory.map_eq_ok_iff.mpr hlegible
  rw [hmap] at h
  cases h

private theorem standard_facts :
    (start 100 {}).isOk = true ∧ standard.Idle ∧ standard.pending.isNone = true ∧
      standard.marker = " ok" ∧ standard.memory.size = 65536 ∧
      (∀ t ∈ ["0", "3", "-5"],
        (standard.dictionary.lookup t).toOption.any Option.isNone = true) ∧
      (∀ b ∈ Builtin.all, leadsTo standard b.name b.word = true) ∧
      (∀ e ∈ Library.words, leadsTo standard e.1 (.definition e.1 e.2 false) = true) ∧
      (spoil.on standard).1.isOk = true ∧ spoiled.Idle ∧ spoiled.pending.isNone = true ∧
      (spoiled.dictionary.lookup "5").toOption.any Option.isNone = true ∧
      printsTop spoiled = true ∧ spoiled.memory.map.isOk = false := by
  decide +kernel

theorem standard_start : start 100 {} = .ok standard := by
  have hstart := standard_facts.1
  unfold standard
  cases hm : start 100 {} with
  | error stop =>
    rw [hm] at hstart
    cases hstart
  | ok m => rfl

theorem standard_reached : Reached standard := .start rfl rfl rfl standard_start

theorem standard_rests :
    standard.Idle ∧ standard.pending = none ∧ standard.marker = " ok" := by
  obtain ⟨-, hidle, hpending, hmarker, -⟩ := standard_facts
  exact ⟨hidle, Option.isNone_iff_eq_none.mp hpending, hmarker⟩

theorem standard_size : standard.memory.size = 65536 := by
  obtain ⟨-, -, -, -, hsize, -⟩ := standard_facts
  exact hsize

theorem standard_numbers {t : String} (ht : t ∈ ["0", "3", "-5"]) :
    standard.dictionary.lookup t = .ok none := by
  obtain ⟨-, -, -, -, -, hnumbers, -⟩ := standard_facts
  exact unbound_of_test (hnumbers t ht)

theorem standard_builtin {b : Builtin} (hb : b ∈ Builtin.all) :
    standard.dictionary.lookup b.name = .ok (some b.word) := by
  obtain ⟨-, -, -, -, -, -, hbuiltin, -⟩ := standard_facts
  exact lookup_of_leadsTo standard_start (allGenuine_builtin hb) (hbuiltin b hb)

theorem standard_library {e : String × List Node} (he : e ∈ Library.words) :
    standard.dictionary.lookup e.1 = .ok (some (.definition e.1 e.2 false)) := by
  obtain ⟨-, -, -, -, -, -, -, hlibrary, -⟩ := standard_facts
  exact lookup_of_leadsTo standard_start (Library.words_authentic e he) (hlibrary e he)

/-- The session whose port is spoiled is idle, and numbers and printing mean there what they do
elsewhere, but its memory is not legible. -/
theorem spoiled_rests :
    (spoil.on standard).1.isOk = true ∧ spoiled.Idle ∧ spoiled.pending = none ∧
      spoiled.dictionary.lookup "5" = .ok none ∧
      spoiled.dictionary.lookup "." = .ok (some (.native "." (.task .printTop))) ∧
      ¬spoiled.memory.Legible := by
  obtain ⟨-, -, -, -, -, -, -, -, hok, hidle, hpending, hnumeral, hprints, hmap⟩ := standard_facts
  exact ⟨hok, hidle, Option.isNone_iff_eq_none.mp hpending, unbound_of_test hnumeral,
    lookup_of_printsTop hprints, illegible_of_map hmap⟩

end Session

end Forthline
