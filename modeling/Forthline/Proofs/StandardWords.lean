import Forthline.Proofs.Division

/-!
# What the library words do

The words of the library, on integers. Each comes to its end wherever it is run, and leaves on the
stack what its name promises; only the word that adds to a cell touches the memory.
-/

namespace Forthline

namespace Run

namespace Makes

variable {m : Machine} {rest : List Node} {e : Holding} {s : Stack}
  {memory : Memory Subscription}

section Primitives

variable (hm : m.paused = false)

include hm

theorem number {n : Int} (text : String) (hrest : Makes m rest ⟨s.push (.int n), memory⟩ e) :
    Makes m (Library.number text n :: rest) ⟨s, memory⟩ e :=
  push hm hrest

theorem dup {v : Value} (hrest : Makes m rest ⟨s.pushAll [v, v], memory⟩ e) :
    Makes m (Library.dup :: rest) ⟨s.push v, memory⟩ e :=
  function hm [v] [v, v] rfl hrest

theorem drop {v : Value} (hrest : Makes m rest ⟨s, memory⟩ e) :
    Makes m (Library.drop :: rest) ⟨s.push v, memory⟩ e :=
  procedure hm [v] [] rfl hrest

variable {v w : Value}

theorem swap (hrest : Makes m rest ⟨s.pushAll [w, v], memory⟩ e) :
    Makes m (Library.swap :: rest) ⟨s.pushAll [v, w], memory⟩ e :=
  function hm [v, w] [w, v] rfl hrest

theorem copyBelow (hrest : Makes m rest ⟨s.pushAll [v, w, v], memory⟩ e) :
    Makes m (Library.copyBelow :: rest) ⟨s.pushAll [v, w], memory⟩ e :=
  function hm [v, w] [v, w, v] rfl hrest

theorem rot {u : Value} (hrest : Makes m rest ⟨s.pushAll [v, w, u], memory⟩ e) :
    Makes m (Library.rot :: rest) ⟨s.pushAll [u, v, w], memory⟩ e :=
  function hm [u, v, w] [v, w, u] rfl hrest

variable {a b : Int}

theorem plus (hrest : Makes m rest ⟨s.push (.int (a + b)), memory⟩ e) :
    Makes m (Library.plus :: rest) ⟨s.pushAll [.int a, .int b], memory⟩ e :=
  function hm [.int a, .int b] [.int (b + a)] rfl (by rwa [Int.add_comm b a])

theorem times (hrest : Makes m rest ⟨s.push (.int (a * b)), memory⟩ e) :
    Makes m (Library.times :: rest) ⟨s.pushAll [.int a, .int b], memory⟩ e :=
  function hm [.int a, .int b] [.int (b * a)] rfl (by rwa [Int.mul_comm b a])

theorem slash (hb : b ≠ 0) (hrest : Makes m rest ⟨s.push (.int (a.fdiv b)), memory⟩ e) :
    Makes m (Library.slash :: rest) ⟨s.pushAll [.int a, .int b], memory⟩ e := by
  refine function hm [.int a, .int b] [.int (a.fdiv b)] ?_ hrest
  rw [Builtin.binary, Value.quotient_int hb]
  rfl

theorem less (hrest : Makes m rest ⟨s.push (.flag (decide (a < b))), memory⟩ e) :
    Makes m (Library.less :: rest) ⟨s.pushAll [.int a, .int b], memory⟩ e := by
  refine function hm [.int a, .int b] [.flag (decide (a < b))] ?_ hrest
  rw [Builtin.relation, Builtin.binary, Value.less_int]
  rfl

theorem equalZero (hrest : Makes m rest ⟨s.push (.flag (decide (a = 0))), memory⟩ e) :
    Makes m (Library.equal :: rest) ⟨s.pushAll [.int a, .int 0], memory⟩ e := by
  refine function hm [.int a, .int 0] [.flag (decide (a = 0))] ?_ hrest
  rw [Builtin.relation, Builtin.binary, Value.same_int]
  rfl

theorem greater (hrest : Makes m rest ⟨s.push (.flag (decide (b < a))), memory⟩ e) :
    Makes m (Library.greater :: rest) ⟨s.pushAll [.int a, .int b], memory⟩ e := by
  refine function hm [.int a, .int b] [.flag (decide (b < a))] ?_ hrest
  rw [Builtin.relation, Builtin.binary, Value.greater_int]
  rfl

theorem choice {consequent alternative : List Node} {p : Bool} {h : Holding}
    (hbranch : Makes m (bif p then consequent else alternative) ⟨s, memory⟩ h)
    (hrest : Makes m rest h e) :
    Makes m (.conditional consequent alternative :: rest) ⟨s.push (.flag p), memory⟩ e := by
  refine conditional hm rfl ?_ hrest
  rw [Value.same_flag]
  cases p with
  | false => exact hbranch
  | true => exact hbranch

end Primitives

section Bodies

variable (hm : m.paused = false) {a b : Int} {v w : Value}

include hm

theorem zeroEqual :
    Makes m Library.zeroEqual ⟨s.push (.int a), memory⟩ ⟨s.push (.flag (decide (a = 0))), memory⟩ :=
  number hm "0" (equalZero hm (done hm))

theorem zeroLess :
    Makes m Library.zeroLess ⟨s.push (.int a), memory⟩ ⟨s.push (.flag (decide (a < 0))), memory⟩ :=
  number hm "0" (less hm (done hm))

theorem zeroGreater :
    Makes m Library.zeroGreater ⟨s.push (.int a), memory⟩
      ⟨s.push (.flag (decide (0 < a))), memory⟩ :=
  number hm "0" (greater hm (done hm))

theorem negate :
    Makes m Library.negate ⟨s.push (.int a), memory⟩ ⟨s.push (.int (-a)), memory⟩ := by
  have hproduct : Makes m [Library.times] ⟨s.pushAll [.int a, .int (-1)], memory⟩
      ⟨s.push (.int (a * -1)), memory⟩ := times hm (done hm)
  rw [Int.mul_neg_one] at hproduct
  exact number hm "-1" hproduct

theorem double :
    Makes m Library.double ⟨s.push (.int a), memory⟩ ⟨s.push (.int (a * 2)), memory⟩ :=
  number hm "2" (times hm (done hm))

theorem halve :
    Makes m Library.halve ⟨s.push (.int a), memory⟩ ⟨s.push (.int (a.fdiv 2)), memory⟩ :=
  number hm "2" (slash hm (by decide) (done hm))

theorem twoDup :
    Makes m Library.twoDup ⟨s.pushAll [v, w], memory⟩ ⟨s.pushAll [v, w, v, w], memory⟩ :=
  copyBelow hm (copyBelow hm (done hm))

theorem maybeDup :
    Makes m Library.maybeDup ⟨s.push (.int a), memory⟩
      ⟨s.pushAll (if a = 0 then [.int a] else [.int a, .int a]), memory⟩ := by
  refine dup hm (conditional hm rfl ?_ (done hm))
  rw [Value.same_int]
  by_cases ha : a = 0
  · rw [decide_eq_true ha, if_pos rfl, if_pos ha]
    exact done hm
  · rw [decide_eq_false ha, if_neg Bool.false_ne_true, if_neg ha]
    exact dup hm (done hm)

theorem abs :
    Makes m Library.abs ⟨s.push (.int a), memory⟩ ⟨s.push (.int |a|), memory⟩ := by
  refine dup hm (call hm (zeroLess hm) (choice hm ?_ (done hm)))
  by_cases ha : a < 0
  · rw [decide_eq_true ha, abs_of_neg ha]
    exact call hm (negate hm) (done hm)
  · rw [decide_eq_false ha, abs_of_nonneg (Int.not_lt.mp ha)]
    exact done hm

theorem min :
    Makes m Library.min ⟨s.pushAll [.int a, .int b], memory⟩
      ⟨s.push (.int (Min.min a b)), memory⟩ := by
  refine call hm (twoDup hm) (less hm (choice hm ?_ (done hm)))
  by_cases h : a < b
  · rw [decide_eq_true h, min_eq_left (Int.le_of_lt h)]
    exact drop hm (done hm)
  · rw [decide_eq_false h, min_eq_right (Int.not_lt.mp h)]
    exact swap hm (drop hm (done hm))

theorem max :
    Makes m Library.max ⟨s.pushAll [.int a, .int b], memory⟩
      ⟨s.push (.int (Max.max a b)), memory⟩ := by
  refine call hm (twoDup hm) (less hm (choice hm ?_ (done hm)))
  by_cases h : a < b
  · rw [decide_eq_true h, max_eq_right (Int.le_of_lt h)]
    exact swap hm (drop hm (done hm))
  · rw [decide_eq_false h, max_eq_left (Int.not_lt.mp h)]
    exact drop hm (done hm)

theorem plusStore (hbare : m.Bare) {address n c : Int} (hlower : 0 ≤ address)
    (hupper : address < m.memory.size) (hcell : m.memory.cell address.toNat = .int c) :
    Makes m Library.plusStore ⟨s.pushAll [.int n, .int address], m.memory⟩
      ⟨s, m.memory.setCell address.toNat (.int (c + n))⟩ := by
  have hplace : m.memory.locate (.int address) 1 = .ok address.toNat :=
    (Memory.locate_eq_ok_iff _ _ _ _).mpr ⟨hlower, by omega, rfl⟩
  refine dup hm (fetch hm hplace ?_)
  rw [Memory.peek_of_int hcell]
  have hstore : Makes m [Library.store]
      ⟨s.pushAll [.int (c + n), .int address], m.memory⟩
      ⟨s, m.memory.setCell address.toNat (.int (c + n))⟩ :=
    store hm hbare.ownerless hbare.unwatched hplace (.int (c + n)) (done hm)
  have hplus : Makes m [Library.plus, Library.swap, Library.store]
      ⟨(s.push (.int address)).pushAll [.int c, .int n], m.memory⟩
      ⟨s, m.memory.setCell address.toNat (.int (c + n))⟩ :=
    plus hm (swap hm hstore)
  exact rot hm (u := .int n) hplus

end Bodies

end Makes

end Run

namespace Machine

/-- Wherever the machine is, the word with the name comes to its end, and makes of one holding the
other. Of the rest of the machine only the count of steps changes. -/
def Does (m : Machine) (name : String) (a b : Holding) : Prop :=
  ∃ w k, m.dictionary.lookup name = .ok (some w) ∧ ∀ steps frames,
    Run.Performs w { m.holding a with steps, frames }
      { m.holding b with steps := steps + k, frames }

def Leaves (m : Machine) (name : String) (s : Stack) (taken left : List Value) : Prop :=
  m.Does name ⟨s.pushAll taken, m.memory⟩ ⟨s.pushAll left, m.memory⟩

end Machine

namespace Run

variable {m : Machine}

private theorem does_of_makes (hm : m.paused = false)
    (hwords : ∀ e ∈ Library.words,
      m.dictionary.lookup e.1 = Session.standard.dictionary.lookup e.1)
    {name : String} {body : List Node} (hword : (name, body) ∈ Library.words) {a b : Holding}
    (h : Makes m body a b) : m.Does name a b := by
  obtain ⟨k, hk⟩ := (Makes.call hm h (.done hm)).performs
  exact ⟨_, k, (hwords _ hword).trans (Session.standard_library hword), hk⟩

/-- The words of the library do what is asked of them, on all integers: wherever the machine is,
they come to their end without an error and leave the return stack, the dictionary and the output as
they were. In a session without devices no cell belongs to one, and nobody watches the memory. -/
theorem standard_words_specified (hm : m.paused = false) (hbare : m.Bare)
    (hwords : ∀ e ∈ Library.words,
      m.dictionary.lookup e.1 = Session.standard.dictionary.lookup e.1)
    (s : Stack) (a b : Int) :
    m.Leaves "min" s [.int a, .int b] [.int (min a b)] ∧
    m.Leaves "max" s [.int a, .int b] [.int (max a b)] ∧
    m.Leaves "abs" s [.int a] [.int |a|] ∧
    m.Leaves "negate" s [.int a] [.int (-a)] ∧
    m.Leaves "?dup" s [.int a] (if a = 0 then [.int a] else [.int a, .int a]) ∧
    m.Leaves "2dup" s [.int a, .int b] [.int a, .int b, .int a, .int b] ∧
    (m.Leaves "2*" s [.int a] [.int (a * 2)] ∧ m.Leaves "2/" s [.int (a * 2)] [.int a]) ∧
    m.Leaves "2/" s [.int a] [.int ⌊(a : ℚ) / 2⌋] ∧
    m.Leaves "0=" s [.int a] [.int (if a = 0 then -1 else 0)] ∧
    m.Leaves "0<" s [.int a] [.int (if a < 0 then -1 else 0)] ∧
    m.Leaves "0>" s [.int a] [.int (if 0 < a then -1 else 0)] ∧
    ∀ n c address : Int, 0 ≤ address → address < m.memory.size →
      m.memory.cell address.toNat = .int c →
      ∃ memory : Memory Subscription,
        m.Does "+!" ⟨s.pushAll [.int n, .int address], m.memory⟩ ⟨s, memory⟩ ∧
        memory = m.memory.setCell address.toNat (.int (c + n)) ∧
        memory.cell address.toNat = .int (c + n) ∧
        ∀ i, i ≠ address.toNat → memory.cell i = m.memory.cell i := by
  have hdoes (i : Nat) {name : String} {body : List Node}
      (hword : Library.words[i]? = some (name, body)) {a b : Holding} (h : Makes m body a b) :
      m.Does name a b :=
    does_of_makes hm hwords (List.mem_of_getElem? hword) h
  have hflag (p : Prop) [Decidable p] :
      Value.flag (decide p) = .int (if p then -1 else 0) := by
    simp [Value.flag]
  have hfloor : ⌊(a : ℚ) / 2⌋ = a.fdiv 2 := floor_div_eq_fdiv a 2
  have hback : Makes m Library.halve ⟨s.push (.int (a * 2)), m.memory⟩
      ⟨s.push (.int ((a * 2).fdiv 2)), m.memory⟩ := .halve hm
  rw [Int.mul_fdiv_cancel _ (by decide)] at hback
  rw [hfloor, ← hflag, ← hflag, ← hflag]
  refine ⟨hdoes 17 rfl (.min hm), hdoes 18 rfl (.max hm), hdoes 16 rfl (.abs hm),
    hdoes 15 rfl (.negate hm), hdoes 7 rfl (.maybeDup hm), hdoes 8 rfl (.twoDup hm),
    ⟨hdoes 13 rfl (.double hm), hdoes 14 rfl hback⟩, hdoes 14 rfl (.halve hm),
    hdoes 4 rfl (.zeroEqual hm), hdoes 5 rfl (.zeroLess hm), hdoes 6 rfl (.zeroGreater hm), ?_⟩
  intro n c address hlower hupper hcell
  refine ⟨_, hdoes 20 rfl (.plusStore hm hbare hlower hupper hcell), rfl, ?_, fun i hi => ?_⟩
  · rw [Memory.cell_setCell, if_pos rfl]
  · rw [Memory.cell_setCell, if_neg hi]

/-- A session with the library takes the smaller of two numbers, and adds to a cell. -/
theorem smaller_taken_and_cell_raised :
    let m : Machine :=
      { Session.standard with memory := Session.standard.memory.setCell 1000 (.int 5) }
    m.Leaves "min" m.stack [.int 4, .int (-2)] [.int (-2)] ∧
      m.Does "+!" ⟨m.stack.pushAll [.int 3, .int 1000], m.memory⟩
        ⟨m.stack, m.memory.setCell 1000 (.int 8)⟩ := by
  have hany (m : Machine) (hstandard : Session.standard = m) (hm : m.paused = false)
      (hbare : m.Bare) (hsize : m.memory.size = 65536) :
      let m : Machine := { m with memory := m.memory.setCell 1000 (.int 5) }
      m.Leaves "min" m.stack [.int 4, .int (-2)] [.int (-2)] ∧
        m.Does "+!" ⟨m.stack.pushAll [.int 3, .int 1000], m.memory⟩
          ⟨m.stack, m.memory.setCell 1000 (.int 8)⟩ := by
    intro held
    have hheld : held.Bare := ⟨hbare.ownerless, hbare.unwatched⟩
    have hsize : (1000 : Int) < held.memory.size := by
      change (1000 : Int) < m.memory.size
      rw [hsize]
      decide
    have hcell : held.memory.cell 1000 = .int 5 := by
      rw [Memory.cell_setCell, if_pos rfl]
    obtain ⟨hmin, -, -, -, -, -, -, -, -, -, -, hplus⟩ :=
      standard_words_specified (m := held) hm hheld (fun _ _ => by rw [hstandard]) m.stack 4 (-2)
    obtain ⟨memory, hdoes, rfl, -⟩ := hplus 3 5 1000 (by decide) hsize hcell
    exact ⟨hmin, hdoes⟩
  obtain ⟨hidle, -⟩ := Session.standard_rests
  exact hany Session.standard rfl hidle.paused Session.standard_reached.bare Session.standard_size

end Run

end Forthline
