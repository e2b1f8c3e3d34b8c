import Forthline.Proofs.Addresses
import Forthline.Proofs.Isolation
import Forthline.Proofs.Sparing
import Mathlib.Logic.Function.Basic

/-!
# Storing and fetching

What is stored in a cell is fetched from it until something else is stored there, unless it counts
as missing. Subscribers may write to ports of their device in between, so this holds of the cells
that they spare.
-/

namespace Forthline

def Value.fetched (v : Value) : Value := if v.isVoid then .int 0 else v

def Value.Kept : Value → Prop
  | int _ => True
  | real x => x.isZero = false
  | text s => s ≠ ""
  | truth b => b = true
  | nothing => False

theorem Value.fetched_eq_self_iff (v : Value) : v.fetched = v ↔ v.Kept := by
  cases v with
  | int n => by_cases hzero : n = 0 <;> simp [fetched, isVoid, Kept, hzero]
  | real x => cases hzero : x.isZero <;> simp [fetched, isVoid, Kept, hzero]
  | text s => by_cases hempty : s = "" <;> simp [fetched, isVoid, Kept, hempty]
  | truth b => cases b <;> simp [fetched, isVoid, Kept]
  | nothing => simp [fetched, isVoid, Kept]

theorem Value.fetched_of_not_kept {v : Value} (h : ¬v.Kept) : v.fetched = .int 0 := by
  rw [← fetched_eq_self_iff] at h
  unfold fetched at h ⊢
  split
  · rfl
  · rename_i hvoid
    exact absurd (if_neg hvoid) h

structure Deposit where
  value : Value
  address : Value

namespace Run

def deposit (d : Deposit) : Run Unit := do
  push d.value
  push d.address
  word (.native "!" (.task .store))

def fetch (address : Value) : Run Unit := do
  push address
  word (.native "@" (.task .fetch))

end Run

namespace Machine

variable {m n : Machine} {region : Nat → Prop} {held : Nat → Value}

/-- The cell that a store to an address goes to. Those of read-only ports refuse it. -/
def target? (m : Machine) (address : Value) : Option Nat :=
  match m.memory.locate address 1, m.rack.checkWrite address with
  | .ok a, .ok () => some a
  | _, _ => none

def leave (m : Machine) (cells : Nat → Value) (d : Deposit) : Nat → Value :=
  match m.target? d.address with
  | some a => Function.update cells a d.value
  | none => cells

def leaveAll (m : Machine) (ds : List Deposit) : Nat → Value := ds.foldl m.leave m.memory.cell

def depositAll (m : Machine) (ds : List Deposit) : Machine :=
  ds.foldl (fun n d => ((Run.deposit d).on n).2) m

theorem checkWrite_eq_ok_iff {r : Rack} {address : Value} {a : Int}
    (h : address.address? = some a) :
    r.checkWrite address = .ok () ↔ ∀ o, r.owners.get? a = some o → o.port.access ≠ .read := by
  simp only [Rack.checkWrite, Rack.ownerOf?, Value.toInt?_of_address? h, Option.bind_some]
  cases r.owners.get? a with
  | none => simp
  | some o => by_cases hread : o.port.access = .read <;> simp [hread]

theorem target?_eq_some {address : Value} {a : Nat} :
    m.target? address = some a ↔
      m.memory.locate address 1 = .ok a ∧ m.rack.checkWrite address = .ok () := by
  unfold target?
  cases m.memory.locate address 1 with
  | error c => simp
  | ok a => cases m.rack.checkWrite address <;> simp

/-- A store goes to the cell of its address, if that lies in the memory and does not belong to a
read-only port. -/
theorem target?_eq_some_iff {address : Value} {a : Nat} :
    m.target? address = some a ↔ address.address? = some (a : Int) ∧ (a : Int) < m.memory.size ∧
      ∀ o, m.rack.owners.get? a = some o → o.port.access ≠ .read := by
  rw [target?_eq_some, Memory.locate_eq_ok_iff_address?]
  constructor
  · rintro ⟨⟨haddress, hupper⟩, hcheck⟩
    exact ⟨haddress, by omega, (checkWrite_eq_ok_iff haddress).mp hcheck⟩
  · rintro ⟨haddress, hupper, hwritable⟩
    exact ⟨⟨haddress, by omega⟩, (checkWrite_eq_ok_iff haddress).mpr hwritable⟩

theorem Holds.target?_eq (h : m.Holds region held n) (address : Value) :
    n.target? address = m.target? address := by
  simp only [target?, Memory.locate, Memory.inRange, h.rack, h.size]

section Leave

variable {cells : Nat → Value} {a : Nat} {v : Value} {d : Deposit}

theorem leave_of_some (h : m.target? d.address = some a) :
    m.leave cells d = Function.update cells a d.value := by
  rw [leave, h]

theorem leave_of_none (h : m.target? d.address = none) : m.leave cells d = cells := by
  rw [leave, h]

theorem leave_update (h : m.target? d.address ≠ some a) :
    m.leave (Function.update cells a v) d = Function.update (m.leave cells d) a v := by
  cases htarget : m.target? d.address with
  | none => rw [leave_of_none htarget, leave_of_none htarget]
  | some b =>
    have hne : a ≠ b := fun hsame => h (by rw [htarget, hsame])
    rw [leave_of_some htarget, leave_of_some htarget, Function.update_comm hne]

theorem foldl_leave_update {ds : List Deposit} (h : ∀ d ∈ ds, m.target? d.address ≠ some a) :
    ds.foldl m.leave (Function.update cells a v) =
      Function.update (ds.foldl m.leave cells) a v := by
  induction ds generalizing cells with
  | nil => rfl
  | cons d ds ih =>
    obtain ⟨hd, hds⟩ := List.forall_mem_cons.mp h
    rw [List.foldl_cons, List.foldl_cons, leave_update hd, ih hds]

end Leave

end Machine

namespace Run

open Machine

variable {m n : Machine} {region : Nat → Prop} {held : Nat → Value}

def checkedStore (d : Deposit) : Run Unit := do
  lift ((← get).rack.checkWrite d.address)
  store withinLine d.address d.value 1

theorem deposit_of_ok {d : Deposit} {n' : Machine} (h : (checkedStore d).on n = (.ok (), n')) :
    (deposit d).on n = (.ok (), n') := by
  have hcode : (code (.task .store)).on
      { n with stack := (n.stack.push d.value).push d.address } = (.ok (), n') := h
  exact native_of_ok "!" hcode

theorem deposit_of_error {d : Deposit} {n' : Machine} {stop : Stop}
    (h : (checkedStore d).on n = (.error stop, n')) :
    (deposit d).on n = (.error (blamed "!" stop), n') := by
  have hcode : (code (.task .store)).on
      { n with stack := (n.stack.push d.value).push d.address } = (.error stop, n') := h
  exact native_of_error "!" hcode

theorem deposit_on (d : Deposit) (n : Machine) :
    ((deposit d).on n).2 = ((checkedStore d).on n).2 ∧
      ∀ stop, ((deposit d).on n).1 = .error stop →
        ∃ stop', ((checkedStore d).on n).1 = .error stop' := by
  rcases hresult : (checkedStore d).on n with ⟨stop | _, n'⟩
  · rw [deposit_of_error hresult]
    exact ⟨rfl, fun _ _ => ⟨stop, rfl⟩⟩
  · rw [deposit_of_ok hresult]
    refine ⟨rfl, fun stop h => ?_⟩
    cases h

theorem checkedStore_of_deposit {d : Deposit} {n' : Machine}
    (h : (deposit d).on n = (.ok (), n')) : (checkedStore d).on n = (.ok (), n') := by
  rcases hresult : (checkedStore d).on n with ⟨stop | _, k⟩
  · rw [deposit_of_error hresult] at h
    cases h
  · rw [deposit_of_ok hresult] at h
    rw [← h]

theorem checkedStore_of_target {d : Deposit} {a : Nat}
    (h : n.target? d.address = some a) :
    (checkedStore d).on n = (store withinLine d.address d.value 1).on n := by
  have hcheck := (target?_eq_some.mp h).2
  rw [checkedStore, on_get_bind, hcheck, on_bind_ok (on_lift_ok _ _)]

theorem checkedStore_of_none {d : Deposit} (h : n.target? d.address = none) :
    ((checkedStore d).on n).2 = n := by
  rw [checkedStore, on_get_bind]
  cases hcheck : n.rack.checkWrite d.address with
  | error c => rfl
  | ok _ =>
    rw [on_bind_ok (on_lift_ok _ _), store, on_get_bind]
    cases hw : n.memory.write d.address d.value 1 with
    | error c => rfl
    | ok w =>
      obtain ⟨a, -, hlocate, -⟩ := Memory.write_eq hw
      rw [target?_eq_some.mpr ⟨hlocate, hcheck⟩] at h
      cases h

/-- One store leaves in the region what it put there, and what was there before. -/
theorem deposit_holds (hn : m.Holds region held n) (d : Deposit) :
    m.Holds region (m.leave held d) ((deposit d).on n).2 := by
  have hsame := hn.target?_eq d.address
  rw [(deposit_on d n).1]
  cases htarget : n.target? d.address with
  | none =>
    rw [checkedStore_of_none htarget, leave_of_none (hsame.symm.trans htarget)]
    exact hn
  | some a =>
    have hlocate := (target?_eq_some.mp htarget).1
    rw [checkedStore_of_target htarget, leave_of_some (hsame.symm.trans htarget)]
    apply store_holds (fun number _ => perform_holds nestingLimit number) hn
      (Memory.write_single hlocate d.value)
    intro i hi
    rw [Memory.cell_setCell, Function.update_apply]
    split
    · rfl
    · exact hn.cells i hi

theorem depositAll_holds (hn : m.Holds region held n) (ds : List Deposit) :
    m.Holds region (ds.foldl m.leave held) (n.depositAll ds) := by
  induction ds generalizing n held with
  | nil => exact hn
  | cons d ds ih => exact ih (deposit_holds hn d)

theorem fetch_on {address : Value} {a : Nat} (hlocate : n.memory.locate address 1 = .ok a) :
    (fetch address).on n =
      (.ok (), { n with stack := n.stack.push (n.memory.cell a).fetched }) := by
  have hcode : (code (.task .fetch)).on { n with stack := n.stack.push address } =
      (do push (← lift (n.memory.read address 1)) : Run Unit).on n := rfl
  have hfetch : (code (.task .fetch)).on { n with stack := n.stack.push address } =
      (.ok (), { n with stack := n.stack.push (n.memory.cell a).fetched }) := by
    rw [hcode, Memory.read_single hlocate]
    rfl
  exact native_of_ok "@" hfetch

end Run

namespace Session

open Run

/-- What is stored with `!` at a writable address is fetched with `@` from any address that is worth
the same, whatever is stored elsewhere in between, exactly if it is an integer, a text but the empty
one, or a real but zero; else the integer zero is fetched. This holds of the cells that the
subscribers spare; in every session these are all that belong to no port, and all cells if no
subscriber writes. A store fails only if a subscriber does. -/
theorem stored_values_are_fetched {m : Machine} {address : Value} {a : Nat}
    (haddress : address.address? = some (a : Int)) (hupper : (a : Int) < m.memory.size)
    (hwritable : ∀ o, m.rack.owners.get? a = some o → o.port.access ≠ .read) (v : Value)
    (others : List Deposit) (hothers : ∀ d ∈ others, d.address.address? ≠ some (a : Int))
    {o : Except Stop Unit} {n : Machine} (hon : (deposit ⟨v, address⟩).on m = (o, n)) :
    (∀ stop, o = .error stop → ∃ s ∈ m.memory.watchersAt a, ∃ action ∈ s.actions,
      ∃ (k : Machine) (stop' : Stop), k.rack = m.rack ∧
        ((withinLine s.binding action).on k).1 = .error stop') ∧
    (Furnished m → m.Spares fun i => m.rack.owners.get? i = none) ∧
    ((∀ w ∈ m.memory.watchers, allTargets w.2.actions = []) → m.Spares fun _ => True) ∧
    ∀ region, m.Spares region → region a →
      (∀ again : Value, again.address? = some (a : Int) →
        (fetch again).on (n.depositAll others) = (.ok (), { n.depositAll others with
          stack := (n.depositAll others).stack.push v.fetched })) ∧
      (v.fetched = v ↔ v.Kept) ∧ (¬v.Kept → v.fetched = .int 0) ∧
      ∀ i, region i → i ≠ a → (n.depositAll others).memory.cell i = m.leaveAll others i := by
  have htarget : m.target? address = some a :=
    Machine.target?_eq_some_iff.mpr ⟨haddress, hupper, hwritable⟩
  refine ⟨?_, fun h => h.spares, spares_of_silent, ?_⟩
  · intro stop hstop
    have hfailed : ((deposit ⟨v, address⟩).on m).1 = .error stop := by rw [hon, hstop]
    obtain ⟨stop', hstop'⟩ := (deposit_on ⟨v, address⟩ m).2 stop hfailed
    rw [checkedStore_of_target htarget] at hstop'
    have hwrite := Memory.write_single (Machine.target?_eq_some.mp htarget).1 v
    obtain ⟨s, hs, action, haction, k, hk, herror⟩ :=
      store_fails (.withinLine nestingLimit) hwrite hstop'
    exact ⟨s, hs, action, haction, k, stop', hk, herror⟩
  · intro region hspares ha
    have helsewhere (d : Deposit) (hd : d ∈ others) : m.target? d.address ≠ some a := by
      intro hsame
      exact hothers d hd (Machine.target?_eq_some_iff.mp hsame).1
    have hdeposit := deposit_holds hspares.holds ⟨v, address⟩
    rw [hon, Machine.leave_of_some htarget] at hdeposit
    have hafter := depositAll_holds hdeposit others
    rw [Machine.foldl_leave_update helsewhere] at hafter
    refine ⟨?_, v.fetched_eq_self_iff, Value.fetched_of_not_kept, ?_⟩
    · intro again hagain
      have hlocate : (n.depositAll others).memory.locate again 1 = .ok a := by
        rw [Memory.locate_eq_ok_iff_address?, hafter.size]
        exact ⟨hagain, by omega⟩
      rw [fetch_on hlocate, hafter.cells a ha, Function.update_self]
    · intro i hi hne
      rw [hafter.cells i hi, Function.update_of_ne hne]
      rfl

/-- The empty text and a real zero are not fetched as what was stored. -/
theorem empty_text_is_not_fetched :
    (((Call.readLine ".\" \" 2000 ! 2000 @").run 100).on builtin).2.stack.items = [.int 0] ∧
    (((Call.readLine "0.0 2000 ! 2000 @").run 100).on builtin).2.stack.items = [.int 0] ∧
    (Value.text "").fetched ≠ .text "" := by
  refine ⟨by decide +kernel, by decide +kernel, by decide⟩

private def echo : Offer :=
  { name := some "echo"
    ports := some [.port "in" 1 "readwrite" "", .port "out" 1 "readwrite" ""]
    onAttach := some [.port (.subscribe "in" "heard" [.set "out" (.int 7)])] }

private def echoing : Machine := ((attach 100 echo).on builtin).2

private def lettered : Machine := ((deposit ⟨.text "hi", .int 2000⟩).on echoing).2

private def elsewhere : List Deposit := [⟨.int 5, .int 0x1000⟩, ⟨.int 6, .int 70000⟩]

/-- A text is fetched from the real address of its cell, although the device wrote to its port. -/
theorem text_is_fetched_while_echoing :
    Furnished echoing ∧
    (fetch (.real (Binary64.round false 2000 1))).on (lettered.depositAll elsewhere) =
      (.ok (), { lettered.depositAll elsewhere with
        stack := (lettered.depositAll elsewhere).stack.push (.text "hi") }) ∧
    (lettered.depositAll elsewhere).memory.cell 2001 = echoing.leaveAll elsewhere 2001 := by
  have hdecent : echo.Decent := ⟨by decide, decent_of_single rfl, nofun⟩
  have hfurnished : Furnished echoing :=
    .attach 100 (.start builtin_start) hdecent (.inl staysHome_of_single)
  have hupper : ((2000 : Nat) : Int) < echoing.memory.size := by decide +kernel
  have hfree : echoing.rack.owners.get? ((2000 : Nat) : Int) = none := by decide +kernel
  have hfree' : echoing.rack.owners.get? ((2001 : Nat) : Int) = none := by decide +kernel
  have hreal : (Value.real (Binary64.round false 2000 1)).address? = some ((2000 : Nat) : Int) := by
    decide +kernel
  have hinteger : (Value.int 2000).address? = some ((2000 : Nat) : Int) := rfl
  have hwritable (o : Owner) (ho : echoing.rack.owners.get? ((2000 : Nat) : Int) = some o) :
      o.port.access ≠ .read := by
    rw [hfree] at ho
    cases ho
  obtain ⟨o, hon⟩ : ∃ o, (deposit ⟨.text "hi", .int 2000⟩).on echoing = (o, lettered) := by
    unfold lettered
    exact ⟨_, (Prod.eta _).symm⟩
  obtain ⟨-, hspares, -, hstored⟩ := stored_values_are_fetched hinteger hupper hwritable
    (.text "hi") elsewhere (by decide) hon
  obtain ⟨hfetch, hkept, -, hothers⟩ := hstored _ (hspares hfurnished) hfree
  refine ⟨hfurnished, ?_, hothers 2001 hfree' (by decide)⟩
  rw [hfetch _ hreal, hkept.mpr (show "hi" ≠ "" by decide)]

end Session

end Forthline
