import Forthline.Machine

/-!
# Programs side by side

What a program makes of a machine, and when two programs match: started on related machines they
give the same outcome and leave related machines. A relation that holds of a machine and itself
exactly if the machine has some property turns matching into an invariant.
-/

namespace Forthline

variable {α β : Type}

theorem except_bind_eq_ok {ε : Type} {x : Except ε α} {f : α → Except ε β} {b : β} :
    x >>= f = .ok b ↔ ∃ a, x = .ok a ∧ f a = .ok b := by
  cases x with
  | error e => simp [bind, Except.bind]
  | ok a => simp [bind, Except.bind]

namespace Run

def on (p : Run α) (m : Machine) : Except Stop α × Machine := StateT.run (ExceptT.run p) m

@[simp] theorem on_pure (a : α) (m : Machine) : (pure a : Run α).on m = (.ok a, m) := rfl

@[simp] theorem on_throw (s : Stop) (m : Machine) : (throw s : Run α).on m = (.error s, m) := rfl

theorem on_bind (p : Run α) (k : α → Run β) (m : Machine) :
    (p >>= k).on m =
      match p.on m with
      | (.ok a, n) => (k a).on n
      | (.error s, n) => (.error s, n) := by
  unfold on
  simp only [ExceptT.run_bind, StateT.run_bind]
  rcases StateT.run (ExceptT.run p) m with ⟨_ | _, n⟩ <;> rfl

theorem on_bind_ok {p : Run α} {m n : Machine} {a : α} (h : p.on m = (.ok a, n))
    (k : α → Run β) : (p >>= k).on m = (k a).on n := by
  rw [on_bind, h]

theorem on_bind_error {p : Run α} {m n : Machine} {s : Stop} (h : p.on m = (.error s, n))
    (k : α → Run β) : (p >>= k).on m = (.error s, n) := by
  rw [on_bind, h]

theorem on_bind_eq_ok {p : Run α} {k : α → Run β} {m n : Machine} {b : β}
    (h : (p >>= k).on m = (.ok b, n)) :
    ∃ a m₁, p.on m = (.ok a, m₁) ∧ (k a).on m₁ = (.ok b, n) := by
  rcases hp : p.on m with ⟨s | a, m₁⟩
  · rw [on_bind_error hp] at h
    cases h
  · rw [on_bind_ok hp] at h
    exact ⟨a, m₁, rfl, h⟩

theorem discard_bind (p : Run α) (k : PUnit → Run β) :
    (discard p >>= k) = p >>= fun _ => k ⟨⟩ := by
  change ((fun _ => PUnit.unit) <$> p) >>= k = _
  rw [← bind_pure_comp, bind_assoc]
  simp only [pure_bind]

theorem on_bind_pure_snd (p : Run α) (f : α → β) (m : Machine) :
    ((p >>= fun a => pure (f a)).on m).2 = (p.on m).2 := by
  rw [on_bind]
  rcases p.on m with ⟨_ | _, n⟩ <;> rfl

/-- What follows a program can be replaced by something that does the same wherever it does not run
out of fuel. -/
theorem on_bind_congr {p : Run α} {k l : α → Run β} {m : Machine}
    (h : ((p >>= k).on m).1 ≠ .error .exhausted)
    (hl : ∀ a n, p.on m = (.ok a, n) → ((k a).on n).1 ≠ .error .exhausted →
      (l a).on n = (k a).on n) :
    (p >>= l).on m = (p >>= k).on m := by
  rcases hp : p.on m with ⟨s | a, n⟩
  · rw [on_bind_error hp, on_bind_error hp]
  · rw [on_bind_ok hp] at h ⊢
    rw [on_bind_ok hp]
    exact hl a n hp h

@[simp] theorem on_get_bind (k : Machine → Run β) (m : Machine) :
    ((get : Run Machine) >>= k).on m = (k m).on m := rfl

@[simp] theorem on_set_bind (n : Machine) (k : PUnit → Run β) (m : Machine) :
    ((set n : Run PUnit) >>= k).on m = (k ⟨⟩).on n := rfl

@[simp] theorem on_modify_bind (f : Machine → Machine) (k : PUnit → Run β) (m : Machine) :
    ((modify f : Run PUnit) >>= k).on m = (k ⟨⟩).on (f m) := rfl

theorem on_tryCatch (p : Run α) (h : Stop → Run α) (m : Machine) :
    (tryCatch p h : Run α).on m =
      match p.on m with
      | (.ok a, n) => (.ok a, n)
      | (.error s, n) => (h s).on n := by
  change StateT.run (ExceptT.run (ExceptT.tryCatch p h)) m = _
  unfold on ExceptT.tryCatch
  simp only [ExceptT.run, ExceptT.mk, StateT.run_bind]
  rcases StateT.run p m with ⟨_ | _, n⟩ <;> rfl

@[simp] theorem on_lift_ok (a : α) (m : Machine) : (lift (.ok a)).on m = (.ok a, m) := rfl

@[simp] theorem on_lift_error (c : Cause) (m : Machine) :
    (lift (.error c) : Run α).on m = (.error (.failed { cause := c }), m) := rfl

theorem pop_of_push {m : Machine} {s : Stack} {v : Value} (h : m.stack = s.push v) :
    pop.on m = (.ok v, { m with stack := s }) := by
  rw [pop, on_get_bind, h]
  rfl

theorem on_lift_bind_eq_ok {x : Except Cause α} {k : α → Run β} {m n : Machine} {b : β}
    (h : (lift x >>= k).on m = (.ok b, n)) : ∃ a, x = .ok a ∧ (k a).on m = (.ok b, n) := by
  cases x with
  | error c => cases h
  | ok a => exact ⟨a, rfl, h⟩

theorem result_of_any {o : Except Stop α × Machine} {P : α → Bool}
    (h : o.1.toOption.any P = true) : ∃ x, P x = true ∧ o = (.ok x, o.2) := by
  obtain ⟨stop | x, m⟩ := o
  · cases h
  · exact ⟨x, h, rfl⟩

theorem eq_of_isOk {o : Except Stop α × Machine} (h : o.1.isOk = true) : ∃ a, o = (.ok a, o.2) := by
  obtain ⟨stop | a, n⟩ := o
  · cases h
  · exact ⟨a, rfl⟩

def failing : Except Stop α × Machine → Bool
  | (.error (.failed _), _) => true
  | _ => false

theorem failure_of_failing {o : Except Stop α × Machine} (h : failing o = true) :
    ∃ f m, o = (.error (.failed f), m) := by
  unfold failing at h
  split at h
  · exact ⟨_, _, rfl⟩
  · cases h

/-- Started on related machines, the programs have the same outcome and leave related machines. -/
def Matches (R : Machine → Machine → Prop) (p q : Run α) : Prop :=
  ∀ ⦃m n⦄, R m n → (p.on m).1 = (q.on n).1 ∧ R (p.on m).2 (q.on n).2

namespace Matches

variable {R : Machine → Machine → Prop} {p q : Run α} {k l : α → Run β}

protected theorem pure (a : α) : Matches R (pure a) (pure a) := fun _ _ h => ⟨rfl, h⟩

protected theorem throw (s : Stop) : Matches R (throw s : Run α) (throw s) := fun _ _ h => ⟨rfl, h⟩

protected theorem fail (c : Cause) : Matches R (fail c : Run α) (fail c) := fun _ _ h => ⟨rfl, h⟩

protected theorem lift (x : Except Cause α) : Matches R (lift x) (lift x) := by
  cases x with
  | ok a => exact Matches.pure a
  | error c => exact Matches.fail c

theorem bind_on {m n : Machine} (hpq : (p.on m).1 = (q.on n).1 ∧ R (p.on m).2 (q.on n).2)
    (hk : ∀ ⦃a m'⦄, p.on m = (.ok a, m') → Matches R (k a) (l a)) :
    ((p >>= k).on m).1 = ((q >>= l).on n).1 ∧ R ((p >>= k).on m).2 ((q >>= l).on n).2 := by
  rw [on_bind, on_bind]
  rcases hm : p.on m with ⟨_ | a, m'⟩ <;> rcases hn : q.on n with ⟨_ | b, n'⟩ <;>
    rw [hm, hn] at hpq
  · cases hpq.1
    exact ⟨rfl, hpq.2⟩
  · cases hpq.1
  · cases hpq.1
  · cases hpq.1
    exact hk hm hpq.2

theorem bind_of {Q : α → Prop} (hp : Matches R p q)
    (hQ : ∀ ⦃m n m' a⦄, R m n → p.on m = (.ok a, m') → Q a)
    (hk : ∀ a, Q a → Matches R (k a) (l a)) : Matches R (p >>= k) (q >>= l) :=
  fun _ _ h => bind_on (hp h) fun a _ hm => hk a (hQ h hm)

protected theorem bind (hp : Matches R p q) (hk : ∀ a, Matches R (k a) (l a)) :
    Matches R (p >>= k) (q >>= l) :=
  bind_of (Q := fun _ => True) hp (fun _ _ _ _ _ _ => trivial) fun a _ => hk a

protected theorem ite (c : Prop) [Decidable c] {p' q' : Run α} (hp : Matches R p q)
    (hp' : Matches R p' q') : Matches R (if c then p else p') (if c then q else q') := by
  split
  · exact hp
  · exact hp'

protected theorem get_bind {k l : Machine → Run β}
    (h : ∀ ⦃m n⦄, R m n → Matches R (k m) (l n)) :
    Matches R ((get : Run Machine) >>= k) ((get : Run Machine) >>= l) :=
  fun _ _ hmn => h hmn hmn

protected theorem modify {f g : Machine → Machine} (h : ∀ ⦃m n⦄, R m n → R (f m) (g n)) :
    Matches R (modify f : Run PUnit) (modify g) := fun _ _ hmn => ⟨rfl, h hmn⟩

protected theorem map (f : α → β) (hp : Matches R p q) : Matches R (f <$> p) (f <$> q) := by
  rw [← bind_pure_comp, ← bind_pure_comp]
  exact hp.bind fun a => Matches.pure (f a)

protected theorem discard (hp : Matches R p q) : Matches R (discard p) (discard q) :=
  hp.map _

protected theorem tryCatch (hp : Matches R p q) {h h' : Stop → Run α}
    (hh : ∀ s, Matches R (h s) (h' s)) : Matches R (tryCatch p h) (tryCatch q h') := by
  intro m n hmn
  have hpq := hp hmn
  rw [on_tryCatch, on_tryCatch]
  rcases hm : p.on m with ⟨s | _, m'⟩ <;> rcases hn : q.on n with ⟨_ | _, n'⟩ <;>
    rw [hm, hn] at hpq
  · cases hpq.1
    exact hh s hpq.2
  · cases hpq.1
  · cases hpq.1
  · exact hpq

theorem forM_of_mem {γ : Type} {xs : List γ} {f g : γ → Run PUnit}
    (h : ∀ x ∈ xs, Matches R (f x) (g x)) : Matches R (xs.forM f) (xs.forM g) := by
  induction xs with
  | nil => exact Matches.pure _
  | cons x xs ih =>
    have hxs := ih fun y hy => h y (List.mem_cons_of_mem _ hy)
    exact (h x List.mem_cons_self).bind fun _ => hxs

protected theorem forM {γ : Type} (xs : List γ) {f g : γ → Run PUnit}
    (h : ∀ x, Matches R (f x) (g x)) : Matches R (xs.forM f) (xs.forM g) :=
  forM_of_mem fun x _ => h x

protected theorem mapM {γ : Type} (xs : List γ) {f g : γ → Run α}
    (h : ∀ x, Matches R (f x) (g x)) : Matches R (xs.mapM f) (xs.mapM g) := by
  induction xs with
  | nil => exact Matches.pure _
  | cons x xs ih =>
    rw [List.mapM_cons, List.mapM_cons]
    exact (h x).bind fun _ => ih.bind fun _ => Matches.pure _

end Matches

/-- Wherever the first program gives a value, so does the second, and the machines are related
again. -/
def Follows (R : Machine → Machine → Prop) (p q : Run α) : Prop :=
  ∀ ⦃m n m' a⦄, R m n → p.on m = (.ok a, m') → ∃ n', q.on n = (.ok a, n') ∧ R m' n'

theorem Matches.follows {R : Machine → Machine → Prop} {p q : Run α} (h : Matches R p q) :
    Follows R p q := by
  intro m n m' a hR hp
  have hpq := h hR
  rw [hp] at hpq
  exact ⟨(q.on n).2, Prod.ext hpq.1.symm rfl, hpq.2⟩

theorem Follows.get_bind {R : Machine → Machine → Prop} {k l : Machine → Run β}
    (h : ∀ ⦃m n⦄, R m n → Follows R (k m) (l n)) :
    Follows R ((get : Run Machine) >>= k) ((get : Run Machine) >>= l) :=
  fun _ _ _ _ hR hk => h hR hR hk

theorem Follows.bind {R : Machine → Machine → Prop} {p q : Run α} {k l : α → Run β}
    (hp : Follows R p q) (hk : ∀ a, Follows R (k a) (l a)) :
    Follows R (p >>= k) (q >>= l) := by
  intro m n m' b hR h
  obtain ⟨a, m₁, hpm, hkm⟩ := on_bind_eq_ok h
  obtain ⟨n₁, hqn, hR₁⟩ := hp hR hpm
  obtain ⟨n', hln, hR'⟩ := hk a hR₁ hkm
  exact ⟨n', (on_bind_ok hqn l).trans hln, hR'⟩

end Run

end Forthline
