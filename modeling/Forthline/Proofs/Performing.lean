import Forthline.Proofs.Addresses
import Forthline.Proofs.CountedLoops
import Forthline.Proofs.Keys
import Forthline.Proofs.Wrapping
import Mathlib.Logic.Relation

/-!
# What words make of the stack

The nodes of a definition act one after another, on top of whatever goes on. What each makes of the
stack and of the memory adds up to what the definition makes of them; of the rest of the machine
only the count of steps changes.
-/

namespace Forthline

structure Machine.Bare (m : Machine) : Prop where
  ownerless : ∀ a, m.rack.owners.get? a = none
  unwatched : m.Unwatched

structure Holding where
  stack : Stack
  memory : Memory Subscription

def Machine.holding (m : Machine) (h : Holding) : Machine :=
  { m with stack := h.stack, memory := h.memory }

namespace Run

section Sessions

private theorem bare_grounded : Grounded Machine.Bare where
  ground := by
    intro m n hm hmemory hrack
    refine ⟨fun a => ?_, unwatched_grounded.ground hm.unwatched hmemory hrack⟩
    rw [hrack]
    exact hm.ownerless a
  spare := fun _ _ hm hw => ⟨hm.ownerless, unwatched_grounded.spare hm.unwatched hw⟩
  declare := fun _ _ _ _ hm hdeclared =>
    ⟨hm.ownerless, unwatched_grounded.declare hm.unwatched hdeclared⟩

private theorem store_bare (act : Nat → PortAction → Run PortAnswer) (address value : Value)
    (size : Int) : Keeps Machine.Bare (store act address value size) := by
  apply Keeps.of_on
  intro m hm
  cases hw : m.memory.write address value size with
  | error c =>
    rw [store, on_get_bind, hw]
    exact hm
  | ok w =>
    rw [store_of_unwatched hm.unwatched hw]
    exact ⟨hm.ownerless, (Memory.watchers_write hw).1.trans hm.unwatched⟩

theorem bare_persists : Persists Machine.Bare :=
  bare_grounded.persists fun _ ht => bare_grounded.writingTask_keeps (store_bare withinLine) ht

end Sessions

section Cells

variable {m : Machine} {s : Stack} {address v : Value} {place : Nat}

theorem code_fetch (hstack : m.stack = s.push address)
    (hplace : m.memory.locate address 1 = .ok place) :
    (code (.task .fetch)).on m = (.ok (), { m with stack := s.push (m.memory.peek place) }) := by
  rw [code, task, on_bind_ok (pop_of_push hstack), on_get_bind, Memory.read_single hplace]
  rfl

theorem code_store (hstack : m.stack = s.pushAll [v, address]) (hm : m.Bare)
    (hplace : m.memory.locate address 1 = .ok place) :
    (code (.task .store)).on m =
      (.ok (), { m with stack := s, memory := m.memory.setCell place v }) := by
  have haddress := pop_of_push (s := s.push v) (v := address) hstack
  have hvalue := pop_of_push (m := { m with stack := s.push v }) (s := s) (v := v) rfl
  have hcheck : m.rack.checkWrite address = .ok () := by
    rw [Rack.checkWrite, Rack.ownerOf?, Memory.toInt?_of_locate hplace, Option.bind_some,
      hm.ownerless]
  have hstore : (store withinLine address v 1).on { m with stack := s } = _ :=
    store_of_unwatched (m := { m with stack := s }) hm.unwatched (Memory.write_single hplace v)
  rw [code, task, on_bind_ok haddress, on_bind_ok hvalue, on_get_bind, hcheck,
    on_bind_ok (on_lift_ok _ _)]
  exact hstore

end Cells

/-- Turn after turn of its frames, the machine goes on as the other one. -/
theorem run_of_turned {m m' : Machine} (h : Relation.ReflTransGen Turned m m') :
    ∃ t, ∀ fuel, (run (t + fuel)).on m = (run fuel).on m' := by
  induction h with
  | refl => exact ⟨0, fun fuel => by rw [Nat.zero_add]⟩
  | tail _ hturned ih =>
    obtain ⟨t, ht⟩ := ih
    obtain ⟨f, fs, hready, hturn⟩ := hturned
    refine ⟨t + 1, fun fuel => ?_⟩
    rw [Nat.add_right_comm, Nat.add_assoc, ht, run_frame fuel hready, on_bind_ok hturn]

/-- On top of whatever goes on, the word comes to its end, and what was going on goes on with the
other machine. -/
def Performs (w : Word) (m m' : Machine) : Prop :=
  ∃ t, ∀ fuel, (execute (t + fuel) w).on m = (run fuel).on m'

/-- On top of any frames, the nodes come to their end, and make of one holding the other. -/
def Makes (m : Machine) (ns : List Node) (a b : Holding) : Prop :=
  ∃ k, ∀ steps fs, Relation.ReflTransGen Turned
    { m.holding a with steps, frames := .sequence ns :: fs }
    { m.holding b with steps := steps + k, frames := fs }

namespace Makes

variable {m : Machine} {name : String} {rest : List Node} {a b e : Holding}

theorem done (hm : m.paused = false) : Makes m [] a a :=
  ⟨0, fun _ _ => .single ⟨_, _, ⟨hm, rfl⟩, rfl⟩⟩

theorem native (hm : m.paused = false) {c : Code}
    (hcode : ∀ steps frames, (code c).on { m.holding a with steps, frames } =
      (.ok (), { m.holding b with steps, frames }))
    (hrest : Makes m rest b e) : Makes m (.action (.native name c) :: rest) a e := by
  obtain ⟨k, hk⟩ := hrest
  refine ⟨1 + k, fun steps fs => ?_⟩
  have hturned : Turned
      { m.holding a with steps, frames := .sequence (.action (.native name c) :: rest) :: fs }
      { m.holding b with steps := steps + 1, frames := .sequence rest :: fs } :=
    ⟨_, _, ⟨hm, rfl⟩, (advance_native name c rest _).trans (native_of_ok name (hcode _ _))⟩
  rw [← Nat.add_assoc]
  exact .head hturned (hk (steps + 1) fs)

theorem call (hm : m.paused = false) {body : List Node} {permanent : Bool}
    (hbody : Makes m body a b) (hrest : Makes m rest b e) :
    Makes m (.action (.definition name body permanent) :: rest) a e := by
  obtain ⟨j, hj⟩ := hbody
  obtain ⟨k, hk⟩ := hrest
  refine ⟨1 + j + k, fun steps fs => ?_⟩
  have hturned : Turned
      { m.holding a with
        steps, frames := .sequence (.action (.definition name body permanent) :: rest) :: fs }
      { m.holding a with
        steps := steps + 1, frames := .sequence body :: .sequence rest :: fs } :=
    ⟨_, _, ⟨hm, rfl⟩, rfl⟩
  rw [← Nat.add_assoc, ← Nat.add_assoc]
  exact .head hturned ((hj (steps + 1) (.sequence rest :: fs)).trans (hk (steps + 1 + j) fs))

theorem conditional (hm : m.paused = false) {consequent alternative : List Node} {s : Stack}
    {v : Value} (ha : a.stack = s.push v)
    (hbranch : Makes m (if v.same (.int 0) then alternative else consequent)
      { a with stack := s } b) (hrest : Makes m rest b e) :
    Makes m (.conditional consequent alternative :: rest) a e := by
  obtain ⟨j, hj⟩ := hbranch
  obtain ⟨k, hk⟩ := hrest
  refine ⟨1 + j + k, fun steps fs => ?_⟩
  have hpop := pop_of_push (s := s) (v := v)
    (m := { m.holding a with steps := steps + 1, frames := .sequence rest :: fs }) ha
  have hturned : Turned
      { m.holding a with
        steps, frames := .sequence (.conditional consequent alternative :: rest) :: fs }
      { m.holding { a with stack := s } with
        steps := steps + 1
        frames := .sequence (if v.same (.int 0) then alternative else consequent) ::
          .sequence rest :: fs } := by
    refine ⟨_, _, ⟨hm, rfl⟩, ?_⟩
    rw [advance, setFrame, on_modify_bind, node, on_modify_bind]
    exact on_bind_ok hpop _
  rw [← Nat.add_assoc, ← Nat.add_assoc]
  exact .head hturned ((hj (steps + 1) (.sequence rest :: fs)).trans (hk (steps + 1 + j) fs))

section Values

variable {s : Stack} {memory : Memory Subscription} {xs rs : List Value}
  {apply : List Value → Except Cause (List Value)}

theorem push (hm : m.paused = false) {v : Value} (hrest : Makes m rest ⟨s.push v, memory⟩ e) :
    Makes m (.action (.native name (.push v)) :: rest) ⟨s, memory⟩ e :=
  native hm (fun _ _ => rfl) hrest

theorem function (hm : m.paused = false) (xs rs : List Value) (happly : apply xs = .ok rs)
    (hrest : Makes m rest ⟨s.pushAll rs, memory⟩ e) :
    Makes m (.action (.native name (.function xs.length .values apply)) :: rest)
      ⟨s.pushAll xs, memory⟩ e :=
  native hm (fun _ _ => code_of_ok (show _ = s.pushAll xs from rfl) happly) hrest

theorem procedure (hm : m.paused = false) (xs rs : List Value) (happly : apply xs = .ok rs)
    (hrest : Makes m rest ⟨s, memory⟩ e) :
    Makes m (.action (.native name (.function xs.length .nothing apply)) :: rest)
      ⟨s.pushAll xs, memory⟩ e :=
  native hm (fun _ _ => code_of_ok (show _ = s.pushAll xs from rfl) happly) hrest

variable {address : Value} {place : Nat}

theorem fetch (hm : m.paused = false) (hplace : memory.locate address 1 = .ok place)
    (hrest : Makes m rest ⟨s.push (memory.peek place), memory⟩ e) :
    Makes m (.action (.native name (.task .fetch)) :: rest) ⟨s.push address, memory⟩ e := by
  refine native hm (fun steps frames => ?_) hrest
  exact code_fetch (m := { m.holding ⟨s.push address, memory⟩ with steps, frames }) rfl hplace

theorem store (hm : m.paused = false) (hbare : ∀ a, m.rack.owners.get? a = none)
    (hwatchers : memory.watchers = []) (hplace : memory.locate address 1 = .ok place) (v : Value)
    (hrest : Makes m rest ⟨s, memory.setCell place v⟩ e) :
    Makes m (.action (.native name (.task .store)) :: rest) ⟨s.pushAll [v, address], memory⟩ e := by
  refine native hm (fun steps frames => ?_) hrest
  have hholding : { m.holding ⟨s.pushAll [v, address], memory⟩ with steps, frames }.Bare :=
    ⟨hbare, hwatchers⟩
  exact code_store rfl hholding hplace

end Values

/-- What the call of a word makes of a holding, the word performs. -/
theorem performs {w : Word} (h : Makes m [.action w] a b) :
    ∃ k, ∀ steps frames, Performs w { m.holding a with steps, frames }
      { m.holding b with steps := steps + k, frames } := by
  obtain ⟨k, hk⟩ := h
  exact ⟨k, fun steps frames => run_of_turned (hk steps frames)⟩

end Makes

end Run

namespace Session

theorem Reached.bare {m : Machine} (h : Reached m) : m.Bare := by
  induction h with
  | @start fuel c m _ _ _ h =>
    obtain ⟨threshold, hload⟩ := load_of_start h
    have hkept := (Run.load_keeps Run.bare_persists fuel c.loadLibrary).on
      (m := blank c threshold) ⟨fun _ => rfl, rfl⟩
    rwa [hload] at hkept
  | @call fuel call m m' o _ hrun _ ih =>
    have hcall : Run.Keeps Machine.Bare (call.run fuel) := by
      apply Call.keeps_of Run.bare_persists fuel
      · intro key m a _ hm _
        exact (Run.store_bare _ _ _ _).on hm
      · intro address value size _
        exact Run.store_bare _ _ _ _
    have hkept := hcall.on ih
    rwa [hrun] at hkept

end Session

end Forthline
