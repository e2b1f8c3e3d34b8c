import Forthline.Proofs.Native

/-!
# Native words come to an end

Native words need no fuel: each gives a value or fails. They leave the frames and the count of
steps alone, and all but two of them the return stack as well.
-/

namespace Forthline

def Code.sparesReturns : Code → Bool
  | .task .toReturn | .task .fromReturn => false
  | _ => true

namespace Run

variable {α β : Type}

/-- The program comes to an end, and leaves the frames, the return stack and the count of steps as
they are. -/
def Contained (p : Run α) : Prop :=
  ∀ m, (p.on m).1 ≠ .error .exhausted ∧ (p.on m).2.frames = m.frames ∧
    (p.on m).2.returns = m.returns ∧ (p.on m).2.steps = m.steps

namespace Contained

variable {p : Run α} {k : α → Run β}

protected theorem pure (a : α) : Contained (pure a) := fun _ => ⟨nofun, rfl, rfl, rfl⟩

protected theorem fail (c : Cause) : Contained (fail c : Run α) := fun _ => ⟨nofun, rfl, rfl, rfl⟩

protected theorem lift (x : Except Cause α) : Contained (lift x) := by
  cases x with
  | ok a => exact Contained.pure a
  | error c => exact Contained.fail c

protected theorem bind (hp : Contained p) (hk : ∀ a, Contained (k a)) :
    Contained (p >>= k) := by
  intro m
  have hfirst := hp m
  rw [on_bind]
  rcases hm : p.on m with ⟨s | a, n⟩
  · rw [hm] at hfirst
    refine ⟨?_, hfirst.2⟩
    intro hstop
    cases hstop
    exact hfirst.1 rfl
  · rw [hm] at hfirst
    obtain ⟨hends, hframes, hreturns, hsteps⟩ := hk a n
    exact ⟨hends, hframes.trans hfirst.2.1, hreturns.trans hfirst.2.2.1,
      hsteps.trans hfirst.2.2.2⟩

theorem get_bind {k : Machine → Run β} (h : ∀ m, Contained (k m)) :
    Contained ((get : Run Machine) >>= k) := fun m => h m m

protected theorem modify {f : Machine → Machine}
    (hf : ∀ m, (f m).frames = m.frames ∧ (f m).returns = m.returns ∧ (f m).steps = m.steps) :
    Contained (modify f : Run PUnit) := fun m => ⟨nofun, hf m⟩

theorem modify_bind {f : Machine → Machine} {k : PUnit → Run β} (hk : Contained (k ⟨⟩))
    (hf : ∀ m, (f m).frames = m.frames ∧ (f m).returns = m.returns ∧ (f m).steps = m.steps) :
    Contained (modify f >>= k) :=
  (Contained.modify hf).bind fun _ => hk

protected theorem ite (c : Prop) [Decidable c] {q : Run α} (hp : Contained p)
    (hq : Contained q) : Contained (if c then p else q) := by
  split
  · exact hp
  · exact hq

protected theorem map (f : α → β) (hp : Contained p) : Contained (f <$> p) := by
  rw [← bind_pure_comp]
  exact hp.bind fun a => Contained.pure (f a)

protected theorem discard (hp : Contained p) : Contained (discard p) := hp.map _

protected theorem forM {γ : Type} (xs : List γ) {f : γ → Run PUnit}
    (h : ∀ x, Contained (f x)) : Contained (xs.forM f) := by
  induction xs with
  | nil => exact Contained.pure _
  | cons x xs ih => exact (h x).bind fun _ => ih

end Contained

private theorem emit_contained (e : Event) : Contained (emit e) :=
  Contained.modify fun _ => ⟨rfl, rfl, rfl⟩

theorem reportText_contained (level : Level) (category : String)
    (message : Except Cause String) : Contained (reportText level category message) := by
  apply Contained.get_bind
  intro m
  apply Contained.ite _ _ (Contained.pure _)
  apply (Contained.lift message).bind
  intro text
  exact Contained.modify_bind (Contained.forM _ fun _ => emit_contained _) fun _ => ⟨rfl, rfl, rfl⟩

theorem push_contained (v : Value) : Contained (push v) :=
  Contained.modify fun _ => ⟨rfl, rfl, rfl⟩

theorem pop_contained : Contained pop := by
  apply Contained.get_bind
  intro m
  apply (Contained.lift _).bind
  intro r
  exact Contained.modify_bind (Contained.pure _) fun _ => ⟨rfl, rfl, rfl⟩

private theorem popMany_contained (count : Nat) : Contained (popMany count) := by
  induction count with
  | zero => exact Contained.pure _
  | succ count ih => exact pop_contained.bind fun top => ih.bind fun below => Contained.pure _

private theorem write_contained (text : String) : Contained (write text) :=
  Contained.modify fun _ => ⟨rfl, rfl, rfl⟩

theorem nextToken_contained : Contained nextToken := by
  apply Contained.get_bind
  intro m
  cases m.source with
  | none => exact Contained.pure _
  | some s => exact Contained.modify_bind (Contained.lift _) fun _ => ⟨rfl, rfl, rfl⟩

theorem peekToken_contained : Contained peekToken := by
  apply Contained.get_bind
  intro m
  cases m.source with
  | none => exact Contained.pure _
  | some s => exact Contained.modify_bind (Contained.lift _) fun _ => ⟨rfl, rfl, rfl⟩

theorem addWord_contained (name : String) (word : Word) (permanent : Bool) :
    Contained (addWord name word permanent) := by
  apply Contained.get_bind
  intro m
  apply (Contained.lift _).bind
  intro d
  exact Contained.modify_bind (reportText_contained _ _ _) fun _ => ⟨rfl, rfl, rfl⟩

theorem redefine_contained (name : String) (aim : Dictionary.Aim) (permanent : Bool) :
    Contained (redefine name aim permanent) := by
  apply Contained.get_bind
  intro m
  apply (Contained.lift _).bind
  intro d
  exact Contained.modify_bind (reportText_contained _ _ _) fun _ => ⟨rfl, rfl, rfl⟩

private theorem portValue_contained (device port : String) :
    Contained (portValue device port) := by
  apply Contained.get_bind
  intro m
  exact (Contained.lift _).bind fun _ => Contained.lift _

section Wires

variable {act : Nat → PortAction → Run PortAnswer} (hact : ∀ number a, Contained (act number a))

include hact

private theorem store_contained (address value : Value) (size : Int) :
    Contained (store act address value size) := by
  apply Contained.get_bind
  intro m
  apply (Contained.lift _).bind
  intro w
  refine Contained.modify_bind (Contained.forM _ fun s => ?_) fun _ => ⟨rfl, rfl, rfl⟩
  exact (emit_contained _).bind fun _ => Contained.forM _ fun a => (hact s.binding a).discard

private theorem setPort_contained (device port : String) (value : Value) :
    Contained (setPort act device port value) := by
  apply Contained.get_bind
  intro m
  apply (Contained.lift _).bind
  intro place
  dsimp only
  split
  · exact (Contained.fail _).bind fun _ => store_contained hact _ _ _
  · exact store_contained hact _ _ _

private theorem updatePort_contained (device port : String) (value : Value) :
    Contained (updatePort act device port value) := by
  apply Contained.get_bind
  intro m
  exact (Contained.lift _).bind fun _ => store_contained hact _ _ _

end Wires

private theorem subscribe_contained (number : Nat) (b : PortBinding) (port label : String)
    (actions : List PortAction) : Contained (subscribe number b port label actions) := by
  intro m
  rcases subscribe_cases number b port label actions m with ⟨c, hon⟩ | ⟨a, hon⟩
  · rw [hon]
    exact ⟨nofun, rfl, rfl, rfl⟩
  · rw [hon]
    exact ⟨nofun, rfl, rfl, rfl⟩

private theorem closeBinding_contained (number : Nat) : Contained (closeBinding number) := by
  intro m
  rw [closeBinding, on_get_bind]
  cases m.bindings[number]? with
  | none => exact ⟨nofun, rfl, rfl, rfl⟩
  | some b => exact ⟨nofun, rfl, rfl, rfl⟩

private theorem perform_contained {reader : String → Run PortAnswer}
    (hreader : ∀ text, Contained (reader text)) (depth number : Nat) (action : PortAction) :
    Contained (perform reader depth number action) := by
  induction depth generalizing number action with
  | zero => exact Contained.fail _
  | succ depth ih =>
    apply Contained.get_bind
    intro m
    cases m.bindings[number]? with
    | none => exact Contained.pure _
    | some b =>
      cases action with
      | set port value => exact (setPort_contained ih _ port value).bind fun _ => Contained.pure _
      | update port value =>
        exact (updatePort_contained ih _ port value).bind fun _ => Contained.pure _
      | get port => exact (portValue_contained _ port).map _
      | address port =>
        apply Contained.get_bind
        intro n
        exact (Contained.lift _).bind fun _ => Contained.pure _
      | subscribe port label actions =>
        exact (subscribe_contained number b port label actions).bind fun _ => Contained.pure _
      | line text => exact hreader text
      | close => exact (closeBinding_contained number).bind fun _ => Contained.pure _
      | fail message => exact Contained.fail _

private theorem withinLine_contained (number : Nat) (action : PortAction) :
    Contained (withinLine number action) :=
  perform_contained (fun _ => Contained.fail _) nestingLimit number action

private theorem pause_contained : Contained pause := fun _ => ⟨nofun, rfl, rfl, rfl⟩

private theorem wake_contained (continuation : Nat) : Contained (wake continuation) := by
  intro m
  rw [wake, on_get_bind]
  split
  · exact Contained.fail _ m
  · refine ⟨?_, rfl, rfl, rfl⟩
    intro hstop
    cases hstop

private theorem schedule_contained (delay : Binary64) (continuation : Nat) :
    Contained (schedule delay continuation) := by
  apply Contained.get_bind
  intro m
  cases m.scheduler with
  | missing => exact Contained.fail _
  | recording => exact Contained.modify fun _ => ⟨rfl, rfl, rfl⟩
  | immediate => exact wake_contained continuation

private theorem hold_contained : Contained hold :=
  pause_contained.bind fun _ => Contained.modify fun _ => ⟨rfl, rfl, rfl⟩

private theorem draw_contained : Contained draw := by
  apply Contained.get_bind
  intro m
  cases m.random with
  | nil => exact Contained.pure _
  | cons x rest => exact Contained.modify_bind (Contained.pure _) fun _ => ⟨rfl, rfl, rfl⟩

private theorem bound_contained (device : Option String) : Contained (bound device) := by
  cases device with
  | none => exact Contained.fail _
  | some d => exact Contained.pure _

private theorem handKey_contained (key : Value) : Contained (handKey key) := by
  apply Contained.get_bind
  intro m
  cases m.waiting with
  | none => exact Contained.pure _
  | some c =>
    have hpush : Contained (push key >>= fun _ => pure (some c)) :=
      (push_contained key).bind fun _ => Contained.pure _
    exact Contained.modify_bind hpush fun _ => ⟨rfl, rfl, rfl⟩

private theorem deliverKey_contained (key : Value) : Contained (deliverKey withinLine key) := by
  rw [deliverKey_eq]
  apply Contained.get_bind
  intro m
  cases m.memory.addressOf? "last-key" with
  | none => exact handKey_contained key
  | some a =>
    exact (store_contained withinLine_contained _ key 1).bind fun _ => handKey_contained key

private theorem task_contained {t : Task} (ht : (Code.task t).sparesReturns = true) :
    Contained (task t) := by
  cases t with
  | printTop =>
    exact pop_contained.bind fun v => (Contained.lift _).bind fun shown => write_contained _
  | printStack =>
    exact Contained.get_bind fun m => (Contained.lift _).bind fun shown => write_contained _
  | copyReturn offset =>
    exact Contained.get_bind fun m => (Contained.lift _).bind fun v => push_contained v
  | toReturn | fromReturn => cases ht
  | store =>
    refine pop_contained.bind fun address => pop_contained.bind fun value => ?_
    refine Contained.get_bind fun m => (Contained.lift _).bind fun _ => ?_
    exact store_contained withinLine_contained address value 1
  | fetch =>
    refine pop_contained.bind fun address => Contained.get_bind fun m => ?_
    exact (Contained.lift _).bind fun v => push_contained v
  | allot =>
    refine pop_contained.bind fun v => (Contained.lift _).bind fun size => ?_
    refine Contained.get_bind fun m => (Contained.lift _).bind fun r => ?_
    exact Contained.modify fun _ => ⟨rfl, rfl, rfl⟩
  | define =>
    refine pop_contained.bind fun name => pop_contained.bind fun target => ?_
    refine (Contained.lift _).bind fun name => (Contained.lift _).bind fun target => ?_
    refine Contained.get_bind fun m => (Contained.lift _).bind fun w => ?_
    exact addWord_contained name w false
  | transform =>
    refine pop_contained.bind fun name => pop_contained.bind fun target => ?_
    refine (Contained.lift _).bind fun name => (Contained.lift _).bind fun target => ?_
    exact redefine_contained name (.name target) false
  | random =>
    refine pop_contained.bind fun v => draw_contained.bind fun x => ?_
    exact (Contained.lift _).bind fun p => (Contained.lift _).bind fun r => push_contained _
  | sleep =>
    refine pop_contained.bind fun delay => (reportText_contained _ _ _).bind fun _ => ?_
    exact (Contained.lift _).bind fun x => pause_contained.bind fun c => schedule_contained _ c
  | key =>
    refine (reportText_contained _ _ _).bind fun _ => pause_contained.bind fun c => ?_
    exact Contained.modify fun _ => ⟨rfl, rfl, rfl⟩
  | quote =>
    refine nextToken_contained.bind fun t => ?_
    cases t with
    | none => exact Contained.fail _
    | some t => exact push_contained _
  | readPort device port => exact (portValue_contained device port).bind fun v => push_contained v
  | bumpPort device port =>
    refine (bound_contained device).bind fun d => (portValue_contained d port).bind fun v => ?_
    exact (Contained.lift _).bind fun w => setPort_contained withinLine_contained d port w
  | storePort device port =>
    refine pop_contained.bind fun v => (bound_contained device).bind fun d => ?_
    exact setPort_contained withinLine_contained d port v
  | hold count => exact Contained.forM _ fun _ => hold_contained
  | holdAndFail kind message => exact hold_contained.bind fun _ => Contained.fail _
  | touch => exact pause_contained.bind fun c => wake_contained c
  | depth => exact Contained.get_bind fun m => push_contained _
  | sendKey =>
    refine pop_contained.bind fun key => (deliverKey_contained key).bind fun c => ?_
    cases c with
    | none => exact Contained.pure _
    | some c => exact wake_contained c
  | readLine text => exact Contained.fail _

private theorem speak_contained (vs : List Value) : Contained (speak vs) := by
  cases vs with
  | nil => exact Contained.pure _
  | cons v vs =>
    cases v with
    | nothing => exact Contained.pure _
    | _ => exact (Contained.lift _).bind fun shown => write_contained shown

private theorem code_contained {c : Code} (hc : c.sparesReturns = true) : Contained (code c) := by
  cases c with
  | push v => exact push_contained v
  | function arity yield apply =>
    refine (popMany_contained arity).bind fun arguments => (Contained.lift _).bind fun results => ?_
    cases yield with
    | nothing => exact Contained.pure _
    | text => exact speak_contained results
    | values => exact Contained.modify fun _ => ⟨rfl, rfl, rfl⟩
  | task t => exact task_contained hc

theorem native_on (name : String) (c : Code) (m : Machine) :
    ((native name c).on m).2 = ((code c).on m).2 ∧
      (((code c).on m).1 ≠ .error .exhausted → ((native name c).on m).1 ≠ .error .exhausted) := by
  rw [native, on_tryCatch]
  rcases (code c).on m with ⟨(f | _) | _, n⟩
  · refine ⟨rfl, fun _ hstop => ?_⟩
    cases hstop
  · exact ⟨rfl, fun h => absurd rfl h⟩
  · refine ⟨rfl, fun _ hstop => ?_⟩
    cases hstop

theorem native_contained (name : String) {c : Code} (hc : c.sparesReturns = true) :
    Contained (native name c) := by
  intro m
  obtain ⟨hleft, hends⟩ := native_on name c m
  rw [hleft]
  exact ⟨hends (code_contained hc m).1, (code_contained hc m).2⟩

private theorem task_ends_of_returns {t : Task} (ht : (Code.task t).sparesReturns = false)
    (m : Machine) : ((task t).on m).1 ≠ .error .exhausted ∧
      ((task t).on m).2.frames = m.frames ∧ ((task t).on m).2.steps = m.steps := by
  cases t with
  | toReturn =>
    have hpop := pop_contained m
    rw [task, on_bind]
    rcases hm : pop.on m with ⟨s | v, n⟩
    · rw [hm] at hpop
      refine ⟨?_, hpop.2.1, hpop.2.2.2⟩
      intro hstop
      cases hstop
      exact hpop.1 rfl
    · rw [hm] at hpop
      exact ⟨nofun, hpop.2.1, hpop.2.2.2⟩
  | fromReturn =>
    rw [task, popReturn, bind_assoc, on_get_bind]
    cases m.returns.pop with
    | error c => exact ⟨nofun, rfl, rfl⟩
    | ok r => exact ⟨nofun, rfl, rfl⟩
  | _ => cases ht

/-- Every native word comes to an end, and leaves the frames and the count of steps alone. -/
theorem native_ends (name : String) (c : Code) (m : Machine) :
    ((native name c).on m).1 ≠ .error .exhausted ∧
      ((native name c).on m).2.frames = m.frames ∧ ((native name c).on m).2.steps = m.steps := by
  cases hc : c.sparesReturns with
  | true =>
    obtain ⟨hends, hframes, -, hsteps⟩ := native_contained name hc m
    exact ⟨hends, hframes, hsteps⟩
  | false =>
    obtain ⟨hleft, hends⟩ := native_on name c m
    rw [hleft]
    cases c with
    | task t =>
      have hcode := task_ends_of_returns hc m
      exact ⟨hends hcode.1, hcode.2⟩
    | push v => cases hc
    | function arity yield apply => cases hc

end Run

end Forthline
