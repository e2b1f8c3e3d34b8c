import Forthline.Builtin
import Forthline.Machine.Execution
import Forthline.Proofs.Native
import Forthline.Proofs.Outcomes

/-!
# Functions as words

A function of the host becomes a word that takes as many values as the function has parameters,
calls it with them, the top of the stack being the last, and leaves what the type of its result
says. Nothing below its arguments is touched, whether it succeeds or not.
-/

namespace Forthline

namespace Stack

variable (s : Stack)

@[simp] theorem pushAll_nil : s.pushAll [] = s := rfl

theorem pushAll_append (vs ws : List Value) :
    s.pushAll (vs ++ ws) = (s.pushAll vs).pushAll ws := List.foldl_append

end Stack

namespace Run

def deliver : Yield → List Value → Run Unit
  | .nothing, _ => return
  | .text, results => speak results
  | .values, results => modify fun m => { m with stack := m.stack.pushAll results }

def popEach : Nat → Run (List Value)
  | 0 => return []
  | n + 1 => do
    let v ← pop
    let vs ← popEach n
    return v :: vs

def callWith (apply : List Value → Except Cause (List Value)) (n : Nat) : Run (List Value) := do
  let popped ← popEach n
  lift (apply popped.reverse)

/-- A call as it is made for each number of arguments: with up to two, each is popped by itself. -/
def callByArity (apply : List Value → Except Cause (List Value)) : Nat → Run (List Value)
  | 0 => lift (apply [])
  | 1 => do
    let a ← pop
    lift (apply [a])
  | 2 => do
    let a ← pop
    let b ← pop
    lift (apply [b, a])
  | n => callWith apply n

variable {apply : List Value → Except Cause (List Value)}

private theorem popMany_eq (n : Nat) :
    popMany n = popEach n >>= fun vs => pure vs.reverse := by
  induction n with
  | zero => rfl
  | succ n ih => simp [popMany, popEach, ih]

theorem code_function (n : Nat) (y : Yield) :
    code (.function n y apply) = callWith apply n >>= deliver y := by
  simp only [code, callWith, popMany_eq, bind_assoc, pure_bind]
  cases y with
  | nothing | text | values => rfl

/-- The calls with few arguments are made like all others. -/
theorem callByArity_eq (n : Nat) : callByArity apply n = callWith apply n := by
  match n with
  | 0 | 1 | 2 => simp [callByArity, callWith, popEach]
  | n + 3 => rfl

section Arguments

variable {m : Machine} {below : Stack}

theorem popEach_of_pushAll (vs : List Value) (hstack : m.stack = below.pushAll vs.reverse) :
    (popEach vs.length).on m = (.ok vs, { m with stack := below }) := by
  induction vs generalizing m with
  | nil =>
    rw [List.reverse_nil, Stack.pushAll_nil] at hstack
    rw [← hstack]
    rfl
  | cons v vs ih =>
    rw [List.reverse_cons, Stack.pushAll_append] at hstack
    have hpop := pop_of_push (s := below.pushAll vs.reverse) (v := v) hstack
    have hrest := ih (m := { m with stack := below.pushAll vs.reverse }) rfl
    rw [List.length_cons, popEach, on_bind_ok hpop, on_bind_ok hrest]
    rfl

theorem popEach_of_lt {n : Nat} (h : m.stack.depth < n) :
    (popEach n).on m =
      (.error (.failed { cause := .underflow m.stack.name }),
        { m with stack := m.stack.clear }) := by
  induction n generalizing m with
  | zero => exact absurd h (Nat.not_lt_zero _)
  | succ n ih =>
    rcases hstack : m.stack with ⟨name, _ | ⟨v, items⟩⟩
    · have hpop : pop.on m = (.error (.failed { cause := .underflow name }), m) := by
        rw [pop, on_get_bind, hstack]
        rfl
      have hsame : { m with stack := { name } } = m := by rw [← hstack]
      rw [popEach, on_bind_error hpop]
      exact congrArg (Prod.mk _) hsame.symm
    · have hpop := pop_of_push (s := { name, items }) (v := v) hstack
      rw [hstack] at h
      have hrest := ih (m := { m with stack := { name, items } }) (Nat.lt_of_succ_lt_succ h)
      rw [popEach, on_bind_ok hpop, on_bind_error hrest]
      rfl

variable {xs : List Value}

variable (apply) in
theorem callWith_of_pushAll (hstack : m.stack = below.pushAll xs) :
    (callWith apply xs.length).on m = (lift (apply xs)).on { m with stack := below } := by
  have htwice : m.stack = below.pushAll xs.reverse.reverse := by
    rw [List.reverse_reverse, hstack]
  have hpop := popEach_of_pushAll xs.reverse htwice
  rw [List.length_reverse] at hpop
  rw [callWith, on_bind_ok hpop, List.reverse_reverse]

variable {y : Yield} {rs : List Value} {c : Cause}

theorem code_of_ok (hstack : m.stack = below.pushAll xs) (happly : apply xs = .ok rs) :
    (code (.function xs.length y apply)).on m = (deliver y rs).on { m with stack := below } := by
  have hcall := callWith_of_pushAll apply hstack
  rw [happly] at hcall
  rw [code_function, on_bind_ok hcall]

theorem code_of_error (hstack : m.stack = below.pushAll xs) (happly : apply xs = .error c) :
    (code (.function xs.length y apply)).on m =
      (.error (.failed { cause := c }), { m with stack := below }) := by
  have hcall := callWith_of_pushAll apply hstack
  rw [happly] at hcall
  rw [code_function, on_bind_error hcall]

theorem code_of_lt {n : Nat} (h : m.stack.depth < n) :
    (code (.function n y apply)).on m =
      (.error (.failed { cause := .underflow m.stack.name }),
        { m with stack := m.stack.clear }) := by
  have hcall : (callWith apply n).on m = _ := on_bind_error (popEach_of_lt h) _
  rw [code_function, on_bind_error hcall]

end Arguments

end Run

def WrittenType.IsSingle (t : WrittenType) : Prop :=
  t ≠ .void ∧ t ≠ .named "NoneType" ∧ t ≠ .named "Output" ∧ t ≠ .text "Output" ∧
    (t.group? = none ∨ ∃ inner, t.group? = some [inner])

/-- What a function of some result type leaves of its results: values on the stack, and text. A
tuple counts for as many results as it names types. One that names no types counts for none, and
one that names a single type is itself the result. -/
inductive WrittenType.Leaves : WrittenType → List Value → List Value → String → Prop where
  | void (rs : List Value) : Leaves .void rs [] ""
  | nothing (rs : List Value) : Leaves (.named "NoneType") rs [] ""
  | output (text : String) : Leaves (.named "Output") [.text text] [] text
  | writtenOutput (text : String) : Leaves (.text "Output") [.text text] [] text
  | unnamed {t : WrittenType} (rs : List Value) : t.group? = some [] → Leaves t rs [] ""
  | single {t : WrittenType} (v : Value) : t.IsSingle → Leaves t [v] [v] ""
  | group {t : WrittenType} {types : List WrittenType} (rs : List Value) :
      t.group? = some types → 2 ≤ types.length → Leaves t rs rs ""

namespace Signature

open Run

variable {e : Effects} {t : WrittenType} {outputs : List Shape} {valency : Int}

private theorem valency_of_group {types : List WrittenType} (hgroup : t.group? = some types)
    (h : results t = .ok (outputs, valency)) : valency = types.length := by
  unfold results at h
  split at h
  · cases hgroup
  · cases hgroup
  · cases hgroup
  · cases hgroup
  · rw [hgroup] at h
    obtain ⟨shapes, hshapes, h⟩ := except_bind_eq_ok.mp h
    cases h
    rw [length_of_mapM hshapes]

private theorem valency_of_single (hsingle : t.IsSingle) (h : results t = .ok (outputs, valency)) :
    valency = 1 := by
  obtain ⟨hvoid, hnothing, houtput, hwritten, hgroup⟩ := hsingle
  rcases hgroup with hgroup | ⟨inner, hgroup⟩
  · unfold results at h
    split at h
    · exact absurd rfl hvoid
    · exact absurd rfl hnothing
    · exact absurd rfl houtput
    · exact absurd rfl hwritten
    · rw [hgroup] at h
      obtain ⟨shape, -, h⟩ := except_bind_eq_ok.mp h
      cases h
      rfl
  · rw [valency_of_group hgroup h]
    rfl

private theorem deliver_of_leaves {rs pushed : List Value} {written : String}
    (hleaves : t.Leaves rs pushed written) (h : results t = .ok (outputs, e.valency))
    (m : Machine) :
    (deliver e.yield rs).on m =
      (.ok (), { m with stack := m.stack.pushAll pushed, output := m.output ++ written }) := by
  have hvalues (hcount : 1 ≤ e.valency) :
      (deliver e.yield rs).on m =
        (.ok (), { m with stack := m.stack.pushAll rs, output := m.output ++ "" }) := by
    rw [Effects.yield, if_neg (by omega), if_neg (by omega), String.append_empty]
    rfl
  have hnothing (hcount : e.valency = 0) :
      (deliver e.yield rs).on m =
        (.ok (), { m with stack := m.stack.pushAll [], output := m.output ++ "" }) := by
    rw [Effects.yield, hcount, String.append_empty]
    rfl
  cases hleaves with
  | void | nothing =>
    simp only [results, Except.ok.injEq, Prod.mk.injEq] at h
    exact hnothing h.2.symm
  | output text | writtenOutput text =>
    simp only [results, Except.ok.injEq, Prod.mk.injEq] at h
    rw [Effects.yield, ← h.2]
    rfl
  | unnamed rs hgroup =>
    have hcount := valency_of_group hgroup h
    exact hnothing hcount
  | single v hsingle =>
    have hcount := valency_of_single hsingle h
    exact hvalues (by omega)
  | group rs hgroup htypes =>
    have hcount := valency_of_group hgroup h
    exact hvalues (by omega)

/-- The parameters are positional and have these types, and none stands for the machine itself. -/
structure Takes (s : Signature) (types : List WrittenType) : Prop where
  positional : ∀ p ∈ s.parameters, p.kind = .positional
  typed : s.parameters.map Parameter.type = types.map some
  alone : ∀ t, types = [t] → t.isContext = false

variable {s : Signature} {types : List WrittenType} {inputs : List Shape}

private theorem effects_of_takes (h : s.Takes types) (hinputs : types.mapM WrittenType.normalize =
    .ok inputs) (hresult : s.result = some t) (houtputs : results t = .ok (outputs, valency))
    (name : String) :
    s.effects name = .ok
      { contextual := false, inputs := inputs.reverse, outputs := outputs.reverse, valency } := by
  have hvariadic : s.parameters.any (·.kind = .variadic) = false := by
    simp only [List.any_eq_false, decide_eq_true_eq]
    intro p hp hkind
    rw [h.positional p hp] at hkind
    cases hkind
  have hpositional : s.parameters.filter (·.kind = .positional) = s.parameters := by
    simpa only [List.filter_eq_self, decide_eq_true_eq] using h.positional
  have hwritten : s.parameters.filterMap Parameter.type = types := by
    have hmap : s.parameters.filterMap Parameter.type =
        (s.parameters.map Parameter.type).filterMap id := by
      rw [List.filterMap_map]
      rfl
    rw [hmap, h.typed, List.filterMap_map]
    exact List.filterMap_some
  have hmissing : s.parameters.filter (·.type.isNone) = [] := by
    simp only [List.filter_eq_nil_iff, Option.isNone_iff_eq_none]
    intro p hp hnone
    have htype := List.mem_map_of_mem (f := Parameter.type) hp
    rw [h.typed, hnone] at htype
    simp at htype
  unfold effects
  simp only [hvariadic, hpositional, hwritten, hmissing, hresult, houtputs, hinputs,
    Bool.false_eq_true, if_false, List.map_nil, List.isEmpty_nil, Bool.not_true]
  rcases types with _ | ⟨a, _ | ⟨b, rest⟩⟩
  · rfl
  · simp only [h.alone a rfl]
    rfl
  · rfl

private theorem wrap_of_takes (h : s.Takes types) (hinputs : types.mapM WrittenType.normalize =
    .ok inputs) (hresult : s.result = some t) (houtputs : results t = .ok (outputs, valency))
    (name : String) (apply : List Value → Except Cause (List Value)) :
    ∃ e : Effects, e.valency = valency ∧
      s.wrap name apply = .ok (.native name (.function types.length e.yield apply)) := by
  have heffects := effects_of_takes h hinputs hresult houtputs name
  have hlength : inputs.reverse.length = types.length := by
    rw [List.length_reverse, length_of_mapM hinputs]
  refine ⟨{ contextual := false, inputs := inputs.reverse, outputs := outputs.reverse, valency },
    rfl, ?_⟩
  unfold wrap
  rw [heffects, ← hlength]
  rfl

/-- A function whose parameters and result have types that can be read becomes a word. The word
calls the function with the arguments on the stack, the top being the last, and leaves what the
result type says, or nothing if the function fails. With too few values on the stack, the word
empties it and fails. -/
theorem wrapped_function_obeys_signature (h : s.Takes types)
    (hinputs : types.mapM WrittenType.normalize = .ok inputs) (hresult : s.result = some t)
    (houtputs : results t = .ok (outputs, valency)) (name : String)
    (apply : List Value → Except Cause (List Value)) :
    ∃ y, s.wrap name apply = .ok (.native name (.function types.length y apply)) ∧
      (∀ (m : Machine) (below : Stack) (xs : List Value), xs.length = types.length →
        m.stack = below.pushAll xs →
        (∀ rs pushed written, apply xs = .ok rs → t.Leaves rs pushed written →
          (native name (.function types.length y apply)).on m =
            (.ok (), { m with
              stack := below.pushAll pushed, output := m.output ++ written })) ∧
        (∀ c, apply xs = .error c →
          (native name (.function types.length y apply)).on m =
            (.error (.failed (Failure.during { cause := c } (.native name))),
              { m with stack := below }))) ∧
      (∀ m : Machine, m.stack.depth < types.length →
        (native name (.function types.length y apply)).on m =
          (.error (.failed
              { cause := .underflow m.stack.name, running := some (.native name) }),
            { m with stack := m.stack.clear })) ∧
      code (.function types.length y apply) = callByArity apply types.length >>= deliver y ∧
      callByArity apply types.length = callWith apply types.length := by
  obtain ⟨e, rfl, hwrap⟩ := wrap_of_takes h hinputs hresult houtputs name apply
  refine ⟨e.yield, hwrap, ?_, ?_, ?_, callByArity_eq _⟩
  · intro m below xs hlength hstack
    rw [← hlength]
    constructor
    · intro rs pushed written happly hleaves
      have hdelivered := deliver_of_leaves hleaves houtputs { m with stack := below }
      exact native_of_ok name ((code_of_ok hstack happly).trans hdelivered)
    · intro c happly
      exact native_of_error name (code_of_error hstack happly)
  · intro m hdepth
    exact native_of_error name (code_of_lt hdepth)
  · rw [callByArity_eq, code_function]

private def turning : Signature where
  parameters := ["c", "b", "a"].map fun name => { name, type := some .any }
  result := some (.generic "tuple" [.any, .any, .any])

/-- On a stack of four values, a word that turns the top three leaves the lowest alone. -/
theorem wrapped_rotation_turns_three :
    ∃ y, turning.wrap "turn" Builtin.rot = .ok (.native "turn" (.function 3 y Builtin.rot)) ∧
      (native "turn" (.function 3 y Builtin.rot)).on
          { stack := .ofList "Stack" [.int 9, .int 1, .int 2, .int 3] } =
        (.ok (), { stack := .ofList "Stack" [.int 9, .int 2, .int 3, .int 1] }) := by
  have htakes : turning.Takes [.any, .any, .any] := by
    refine ⟨?_, rfl, nofun⟩
    intro p hp
    obtain ⟨name, -, rfl⟩ := List.mem_map.mp hp
    rfl
  obtain ⟨y, hwrap, hruns, -⟩ := wrapped_function_obeys_signature htakes rfl rfl rfl "turn"
    Builtin.rot
  refine ⟨y, hwrap, ?_⟩
  have hrun := hruns { stack := .ofList "Stack" [.int 9, .int 1, .int 2, .int 3] }
    (.ofList "Stack" [.int 9]) [.int 1, .int 2, .int 3] rfl rfl
  exact hrun.1 _ _ _ rfl (.group _ rfl (by decide))

private def pairing : Signature where
  parameters := []
  result := some (.named "tuple")

/-- The two results of a function are lost if its result type does not name theirs. -/
theorem bare_tuple_leaves_nothing :
    ∃ w, pairing.wrap "pair" (fun _ => .ok [.int 1, .int 2]) = .ok w ∧
      (word w).on { stack := .ofList "Stack" [.int 9] } =
        (.ok (), { stack := .ofList "Stack" [.int 9] }) ∧
      Stack.ofList "Stack" [.int 9] ≠ (Stack.ofList "Stack" [.int 9]).pushAll [.int 1, .int 2] :=
  ⟨_, rfl, rfl, by decide⟩

end Signature

end Forthline
