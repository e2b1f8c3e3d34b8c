import Forthline.Proofs.Native
import Mathlib.Data.List.Nodup
import Mathlib.Data.List.Perm.Basic

/-!
# Subscriptions

Who subscribes to a cell gets a function to unsubscribe. That function does not know its own
subscription: it takes away the oldest one to the same cell whose callback is equal. The callbacks
that a write calls are therefore, of each callback, its latest subscriptions, as many as are left of
them; they are those of the open subscriptions as long as no callback is subscribed to a cell twice.
-/

namespace Forthline

namespace Memory

variable {σ : Type}

/-- What subscribers and writers ask of a memory. The unsubscribe functions are numbered in the
order in which they were returned. -/
inductive Demand (σ : Type) where
  | subscribe (address : Value) (callback : σ)
  | unsubscribe (number : Nat)
  | write (address value : Value) (size : Int)

structure Told (σ : Type) where
  callback : σ
  value : Value
  size : Int

structure Signup (σ : Type) where
  cell : Nat
  callback : σ
  calls : Nat := 0

/-- A memory with the subscriptions that were ever made, in their order, and with the number of
those that are left, for each cell and each callback. -/
structure Desk (σ : Type) where
  memory : Memory σ
  signups : List (Signup σ) := []
  left : Nat × σ → Nat := fun _ => 0

/-- The last occurrences of each callback, as many as are left of it. -/
def latest [DecidableEq σ] (left : σ → Nat) : List σ → List σ
  | [] => []
  | c :: cs => if (c :: cs).count c ≤ left c then c :: latest left cs else latest left cs

section Latest

variable [DecidableEq σ] {left left' : σ → Nat} {c : σ} {cs : List σ}

theorem count_latest (left : σ → Nat) (c : σ) (cs : List σ) :
    (latest left cs).count c = min (left c) (cs.count c) := by
  induction cs with
  | nil => simp [latest]
  | cons b bs ih =>
    by_cases hb : b = c
    · subst hb
      by_cases hkept : (b :: bs).count b ≤ left b
      · rw [latest, if_pos hkept, List.count_cons_self, ih]
        rw [List.count_cons_self] at hkept ⊢
        omega
      · rw [latest, if_neg hkept, ih]
        rw [List.count_cons_self] at hkept ⊢
        omega
    · by_cases hkept : (b :: bs).count b ≤ left b
      · rw [latest, if_pos hkept, List.count_cons_of_ne hb, List.count_cons_of_ne hb, ih]
      · rw [latest, if_neg hkept, List.count_cons_of_ne hb, ih]

theorem latest_sublist (left : σ → Nat) (cs : List σ) : (latest left cs).Sublist cs := by
  induction cs with
  | nil => exact List.Sublist.refl _
  | cons b bs ih =>
    unfold latest
    split
    · exact ih.cons_cons b
    · exact ih.cons b

private theorem latest_congr
    (h : ∀ c ∈ cs, min (left c) (cs.count c) = min (left' c) (cs.count c)) :
    latest left cs = latest left' cs := by
  induction cs with
  | nil => rfl
  | cons b bs ih =>
    have hrest : latest left bs = latest left' bs := by
      apply ih
      intro c hc
      have hmin := h c (List.mem_cons_of_mem b hc)
      have hle : bs.count c ≤ (b :: bs).count c := List.count_le_count_cons
      omega
    have hkept : (b :: bs).count b ≤ left b ↔ (b :: bs).count b ≤ left' b := by
      have hmin := h b List.mem_cons_self
      omega
    rw [latest, latest, hrest]
    simp only [hkept]

private theorem latest_append (left : σ → Nat) (c : σ) (cs : List σ) :
    latest (Function.update left c (left c + 1)) (cs ++ [c]) = latest left cs ++ [c] := by
  induction cs with
  | nil => simp [latest]
  | cons b bs ih =>
    rw [List.cons_append, latest, latest, ih]
    by_cases hb : b = c
    · subst hb
      have hkept : (b :: (bs ++ [b])).count b ≤ left b + 1 ↔ (b :: bs).count b ≤ left b := by
        simp [List.count_append]
      simp only [Function.update_self, hkept]
      split <;> rfl
    · have hcount : (b :: (bs ++ [c])).count b = (b :: bs).count b := by
        simp [List.count_append, Ne.symm hb]
      rw [Function.update_of_ne hb, hcount]
      split <;> rfl

private theorem erase_latest (h : left c ≤ cs.count c) :
    (latest left cs).erase c = latest (Function.update left c (left c - 1)) cs := by
  induction cs with
  | nil => rfl
  | cons b bs ih =>
    by_cases hb : b = c
    · subst hb
      rw [List.count_cons_self] at h
      by_cases hkept : (b :: bs).count b ≤ left b
      · rw [latest, if_pos hkept, List.erase_cons_head, latest, if_neg]
        · apply latest_congr
          intro c hc
          by_cases hcb : c = b
          · subst hcb
            rw [List.count_cons_self] at hkept
            rw [Function.update_self]
            omega
          · rw [Function.update_of_ne hcb]
        · rw [List.count_cons_self] at hkept ⊢
          rw [Function.update_self]
          omega
      · rw [latest, if_neg hkept, latest, if_neg, ih]
        · rw [List.count_cons_self] at hkept
          omega
        · rw [Function.update_self]
          omega
    · rw [List.count_cons_of_ne hb] at h
      rw [latest, latest, Function.update_of_ne hb, ← ih h]
      by_cases hkept : (b :: bs).count b ≤ left b
      · rw [if_pos hkept, if_pos hkept, List.erase_cons_tail (by simpa using hb)]
      · rw [if_neg hkept, if_neg hkept]

end Latest

def callbacksAt (a : Nat) (signups : List (Signup σ)) : List σ :=
  (signups.filter fun s => s.cell = a).map Signup.callback

namespace Desk

def opened (m : Memory σ) : Desk σ := { memory := { m with watchers := [] } }

def subscribers (d : Desk σ) (a : Nat) : List σ := callbacksAt a d.signups

def stillOpen (d : Desk σ) (a : Nat) : List σ :=
  callbacksAt a (d.signups.filter fun s => s.calls = 0)

variable [DecidableEq σ]

def serve (d : Desk σ) : Demand σ → List (Told σ) × Desk σ
  | .subscribe address callback =>
    match d.memory.watch address callback with
    | .ok (a, memory) =>
      ([], {
        memory
        signups := d.signups ++ [{ cell := a, callback }]
        left := Function.update d.left (a, callback) (d.left (a, callback) + 1) })
    | .error _ => ([], d)
  | .unsubscribe number =>
    match d.signups[number]? with
    | some s =>
      ([], {
        memory := d.memory.unwatch s.cell s.callback
        signups := d.signups.set number { s with calls := s.calls + 1 }
        left := Function.update d.left (s.cell, s.callback) (d.left (s.cell, s.callback) - 1) })
    | none => ([], d)
  | .write address value size =>
    match d.memory.write address value size with
    | .ok w =>
      (w.watchers.map fun callback => { callback, value := w.value, size },
        { d with memory := w.memory })
    | .error _ => ([], d)

def serveAll (d : Desk σ) (demands : List (Demand σ)) : Desk σ :=
  demands.foldl (fun d q => (d.serve q).2) d

end Desk

section Watchers

variable {m m' : Memory σ} {a : Nat} {c : σ}

private theorem value_of_write {address value : Value} {size : Int} {w : Written σ}
    (h : m.write address value size = .ok w) :
    (if 1 < size then value.toInteger.map Value.int else .ok value) = .ok w.value := by
  obtain ⟨a, -, h⟩ := except_bind_eq_ok.mp h
  by_cases hsize : 1 < size
  · rw [if_pos hsize] at h ⊢
    obtain ⟨n, hn, h⟩ := except_bind_eq_ok.mp h
    cases h
    rw [hn]
    rfl
  · rw [if_neg hsize] at h ⊢
    split at h
    · cases h
      rfl
    · cases h

private theorem watchersAt_watch {address : Value} (h : m.watch address c = .ok (a, m')) (b : Nat) :
    m'.watchersAt b = m.watchersAt b ++ if a = b then [c] else [] := by
  obtain ⟨place, -, h⟩ := except_bind_eq_ok.mp h
  cases h
  by_cases hb : a = b
  · simp [watchersAt, List.filter_append, hb]
  · simp [watchersAt, List.filter_append, hb]

private theorem watchersAt_unwatch [DecidableEq σ] (m : Memory σ) (a : Nat) (c : σ) (b : Nat) :
    (m.unwatch a c).watchersAt b =
      if a = b then (m.watchersAt b).erase c else m.watchersAt b := by
  unfold unwatch watchersAt
  simp only
  induction m.watchers with
  | nil => simp
  | cons w ws ih =>
    obtain ⟨place, e⟩ := w
    by_cases hfirst : place = a ∧ e = c
    · obtain ⟨rfl, rfl⟩ := hfirst
      by_cases hb : place = b
      · simp [hb]
      · simp [hb]
    · have hlater : (place == a && e == c) = false := by simpa using hfirst
      rw [List.eraseP_cons_of_neg (by simp [hlater])]
      by_cases hplace : place = b
      · subst hplace
        by_cases ha : a = place
        · have he : ¬e = c := fun he => hfirst ⟨ha.symm, he⟩
          simpa [ha, he] using ih
        · simpa [ha] using ih
      · simpa [hplace] using ih

end Watchers

section Callbacks

variable (a : Nat) (s : Signup σ) (ss ts : List (Signup σ))

private theorem callbacksAt_append :
    callbacksAt a (ss ++ ts) = callbacksAt a ss ++ callbacksAt a ts := by
  simp [callbacksAt]

private theorem callbacksAt_cons :
    callbacksAt a (s :: ss) =
      if s.cell = a then s.callback :: callbacksAt a ss else callbacksAt a ss := by
  by_cases hs : s.cell = a
  · simp [callbacksAt, hs]
  · simp [callbacksAt, hs]

variable [DecidableEq σ] (c : σ)

private theorem count_callbacksAt :
    (callbacksAt a (ss ++ s :: ts)).count c =
      (callbacksAt a ss).count c + (if s.cell = a ∧ s.callback = c then 1 else 0) +
        (callbacksAt a ts).count c := by
  rw [callbacksAt_append, List.count_append, callbacksAt_cons]
  by_cases hs : s.cell = a
  · by_cases hc : s.callback = c
    · simp [hs, hc]
      omega
    · simp [hs, hc]
  · simp [hs]

private theorem count_open_le :
    (callbacksAt a (ss.filter fun s => s.calls = 0)).count c ≤ (callbacksAt a ss).count c := by
  apply List.Sublist.count_le
  apply List.Sublist.map
  exact (List.filter_sublist).filter _

private theorem count_open :
    (callbacksAt a ((ss ++ s :: ts).filter fun s => s.calls = 0)).count c =
      (callbacksAt a (ss.filter fun s => s.calls = 0)).count c +
        (if s.calls = 0 ∧ s.cell = a ∧ s.callback = c then 1 else 0) +
        (callbacksAt a (ts.filter fun s => s.calls = 0)).count c := by
  rw [List.filter_append, List.filter_cons]
  by_cases hs : s.calls = 0
  · simp only [hs, decide_true, if_true, true_and]
    exact count_callbacksAt a s _ _ c
  · simp [hs, callbacksAt_append]

private theorem count_open_called
    (h : s.calls = 0 ∨ (callbacksAt s.cell (ss ++ s :: ts)).count s.callback ≤ 1) :
    (callbacksAt s.cell ((ss ++ { s with calls := s.calls + 1 } :: ts).filter
        fun s => s.calls = 0)).count s.callback =
      (callbacksAt s.cell ((ss ++ s :: ts).filter fun s => s.calls = 0)).count s.callback - 1 := by
  rw [count_open, count_open]
  by_cases hcalls : s.calls = 0
  · simp only [hcalls, and_self, if_true]
    simp
  · -- Called before, it makes no difference only if it is the only one with its callback.
    have hle := h.resolve_left hcalls
    have hss := count_open_le s.cell ss s.callback
    have hts := count_open_le s.cell ts s.callback
    rw [count_callbacksAt, if_pos ⟨rfl, rfl⟩] at hle
    simp only [hcalls, false_and, if_false]
    simp only [Nat.add_eq_zero_iff, Nat.one_ne_zero, and_false, false_and, if_false]
    omega

end Callbacks

namespace Desk

variable [DecidableEq σ] {d : Desk σ}

/-- What the subscriptions that are left have to do with those that were made. -/
structure Kept (d : Desk σ) : Prop where
  watchers : ∀ a, d.memory.watchersAt a = latest (fun c => d.left (a, c)) (d.subscribers a)
  left_le : ∀ a c, d.left (a, c) ≤ (d.subscribers a).count c
  left_eq : ∀ a c, (∀ s ∈ d.signups, s.cell = a → s.callback = c → s.calls ≤ 1) ∨
    (d.subscribers a).count c ≤ 1 → d.left (a, c) = (d.stillOpen a).count c

theorem kept_opened (m : Memory σ) : (opened m).Kept :=
  ⟨fun _ => rfl, fun _ _ => Nat.le_refl _, fun _ _ _ => rfl⟩

private theorem update_here (left : Nat × σ → Nat) (a : Nat) (c : σ) (n : Nat) :
    (fun e => Function.update left (a, c) n (a, e)) =
      Function.update (fun e => left (a, e)) c n := by
  funext e
  by_cases he : e = c
  · simp [he]
  · simp [Function.update_of_ne, he]

private theorem update_elsewhere (left : Nat × σ → Nat) {a b : Nat} (h : a ≠ b) (c : σ) (n : Nat) :
    (fun e => Function.update left (a, c) n (b, e)) = fun e => left (b, e) := by
  funext e
  simp [Function.update_of_ne, Ne.symm h]

theorem kept_subscribe (h : d.Kept) (address : Value) (c : σ) :
    (d.serve (.subscribe address c)).2.Kept := by
  cases hm : d.memory.watch address c with
  | error cause => simpa only [serve, hm] using h
  | ok placed =>
    obtain ⟨a, m⟩ := placed
    simp only [serve, hm]
    have hcount (b : Nat) (e : σ) := count_callbacksAt b { cell := a, callback := c } d.signups [] e
    have hopen (b : Nat) (e : σ) := count_open b { cell := a, callback := c } d.signups [] e
    constructor
    · intro b
      simp only [subscribers, callbacksAt_append, callbacksAt_cons]
      rw [watchersAt_watch hm, h.watchers]
      by_cases hb : a = b
      · subst hb
        rw [if_pos rfl, if_pos rfl, update_here]
        exact (latest_append _ c _).symm
      · rw [if_neg hb, if_neg hb, update_elsewhere _ hb]
        simp [subscribers, callbacksAt]
    · intro b e
      have hle := h.left_le b e
      simp only [subscribers] at hle ⊢
      rw [hcount]
      by_cases hbe : (b, e) = (a, c)
      · cases hbe
        simp
        omega
      · rw [Function.update_of_ne hbe]
        omega
    · intro b e hyp
      have hold : d.left (b, e) = (d.stillOpen b).count e := by
        apply h.left_eq
        apply hyp.imp
        · intro hcalls s hs
          exact hcalls s (List.mem_append_left _ hs)
        · intro hle
          simp only [subscribers] at hle ⊢
          rw [hcount] at hle
          omega
      simp only [stillOpen] at hold ⊢
      rw [hopen]
      by_cases hbe : (b, e) = (a, c)
      · cases hbe
        simp [hold, callbacksAt]
      · rw [Function.update_of_ne hbe, hold]
        have hne : ¬(a = b ∧ c = e) := fun ⟨hb, he⟩ => hbe (by rw [hb, he])
        simp [hne, callbacksAt]

/-- An unsubscribe function takes away a subscription with its callback to its cell, if any is left.
Its own subscription is closed then, whichever it was that went. -/
theorem kept_unsubscribe (h : d.Kept) (number : Nat) :
    (d.serve (.unsubscribe number)).2.Kept := by
  cases hs : d.signups[number]? with
  | none => simpa only [serve, hs] using h
  | some s =>
    simp only [serve, hs]
    let s' : Signup σ := { s with calls := s.calls + 1 }
    obtain ⟨hlt, hget⟩ := List.getElem?_eq_some_iff.mp hs
    obtain ⟨ss, ts, hsignups, hset⟩ : ∃ ss ts, d.signups = ss ++ s :: ts ∧
        d.signups.set number s' = ss ++ s' :: ts := by
      obtain ⟨ss, ts, hsignups, -, hset⟩ := List.exists_of_set hlt
      rw [hget] at hsignups
      exact ⟨ss, ts, hsignups, hset⟩
    rw [hset]
    have hsame (b : Nat) : callbacksAt b (ss ++ s' :: ts) = d.subscribers b := by
      simp only [subscribers, hsignups, callbacksAt_append, callbacksAt_cons, s']
    constructor
    · intro b
      simp only [subscribers]
      rw [hsame, watchersAt_unwatch, h.watchers]
      by_cases hb : s.cell = b
      · subst hb
        rw [if_pos rfl, update_here]
        exact erase_latest (h.left_le _ _)
      · rw [if_neg hb, update_elsewhere _ hb]
    · intro b e
      have hle := h.left_le b e
      simp only [subscribers] at hle ⊢
      rw [hsame]
      by_cases hbe : (b, e) = (s.cell, s.callback)
      · cases hbe
        rw [Function.update_self]
        exact Nat.le_trans (Nat.sub_le _ _) hle
      · rw [Function.update_of_ne hbe]
        exact hle
    · intro b e hyp
      simp only [subscribers, hsame] at hyp
      have hold : d.left (b, e) = (d.stillOpen b).count e := by
        apply h.left_eq
        apply hyp.imp
        · intro hcalls t ht hcell hcallback
          rw [hsignups] at ht
          simp only [List.mem_append, List.mem_cons] at ht hcalls
          rcases ht with ht | rfl | ht
          · exact hcalls t (.inl ht) hcell hcallback
          · have := hcalls s' (.inr (.inl rfl)) hcell hcallback
            exact Nat.le_of_succ_le this
          · exact hcalls t (.inr (.inr ht)) hcell hcallback
        · exact id
      rw [stillOpen, hsignups] at hold
      simp only [stillOpen]
      by_cases hbe : (b, e) = (s.cell, s.callback)
      · cases hbe
        rw [Function.update_self, hold]
        apply (count_open_called s ss ts _).symm
        rcases hyp with hcalls | hle
        · have hfirst : s.calls + 1 ≤ 1 := hcalls s' (by simp) rfl rfl
          exact .inl (by omega)
        · rw [hsignups] at hle
          exact .inr hle
      · have hne : ¬(s.cell = b ∧ s.callback = e) := fun ⟨hb, he⟩ => hbe (by rw [hb, he])
        rw [Function.update_of_ne hbe, hold, count_open, count_open]
        simp only [s', hne, and_false, if_false]

theorem kept_write (h : d.Kept) (address value : Value) (size : Int) :
    (d.serve (.write address value size)).2.Kept := by
  cases hm : d.memory.write address value size with
  | error cause => simpa only [serve, hm] using h
  | ok w =>
    simp only [serve, hm]
    obtain ⟨-, cells, -, hmemory, -⟩ := write_eq hm
    refine ⟨?_, h.left_le, h.left_eq⟩
    intro a
    rw [hmemory]
    exact h.watchers a

theorem kept_serveAll (h : d.Kept) (demands : List (Demand σ)) : (d.serveAll demands).Kept := by
  induction demands generalizing d with
  | nil => exact h
  | cons q qs ih =>
    apply ih
    cases q with
    | subscribe address c => exact kept_subscribe h address c
    | unsubscribe number => exact kept_unsubscribe h number
    | write address value size => exact kept_write h address value size

/-- A write that fails calls nobody, and one that succeeds calls each callback that is left of its
cell once, in the order of the subscriptions. Left are, of each callback, its latest subscriptions:
each new one adds one, each call of an unsubscribe function takes one away, if there is one. These
are the open subscriptions, unless a function is called twice and its callback was subscribed to the
cell twice. -/
theorem write_calls_latest_subscriptions (m : Memory σ) (demands : List (Demand σ))
    (address value : Value) (size : Int) :
    let d := (opened m).serveAll demands
    let served := d.serve (.write address value size)
    (∀ c, d.memory.write address value size = .error c → served = ([], d)) ∧
    ∀ w, d.memory.write address value size = .ok w →
      (if 1 < size then value.toInteger.map Value.int else .ok value) = .ok w.value ∧
      ∃ a told, d.memory.locate address size = .ok a ∧
        served.1 = told.map (fun callback => { callback, value := w.value, size }) ∧
        told = latest (fun c => d.left (a, c)) (d.subscribers a) ∧
        (∀ c, (∀ s ∈ d.signups, s.cell = a → s.callback = c → s.calls ≤ 1) →
          told.count c = (d.stillOpen a).count c) ∧
        ((d.subscribers a).Nodup → told = d.stillOpen a) := by
  intro d served
  have hkept : d.Kept := kept_serveAll (kept_opened m) demands
  constructor
  · intro c hc
    simp only [served, serve, hc]
  · intro w hw
    obtain ⟨a, cells, hlocate, -, hwatchers⟩ := write_eq hw
    have hleft := hkept.watchers a
    have hcount (c : σ) : (d.memory.watchersAt a).count c = d.left (a, c) := by
      rw [hleft, count_latest]
      exact Nat.min_eq_left (hkept.left_le a c)
    refine ⟨?_, a, d.memory.watchersAt a, hlocate, ?_, hleft, ?_, ?_⟩
    · exact value_of_write hw
    · simp only [served, serve, hw, hwatchers]
    · intro c hcalls
      rw [hcount, hkept.left_eq a c (.inl hcalls)]
    · intro hnodup
      have hsub : (d.memory.watchersAt a).Sublist (d.subscribers a) := by
        rw [hleft]
        exact latest_sublist _ _
      have hopen : (d.stillOpen a).Sublist (d.subscribers a) :=
        ((List.filter_sublist).filter _).map _
      apply (List.Nodup.perm_iff_eq_of_sublist hnodup hsub hopen).mp
      rw [List.perm_iff_count]
      intro c
      rw [hcount]
      exact hkept.left_eq a c (.inr (List.nodup_iff_count_le_one.mp hnodup c))

private def shared : List (Demand String) :=
  [.subscribe (.int 300) "f", .subscribe (.int 300) "g", .subscribe (.int 301) "f",
    .unsubscribe 0, .unsubscribe 0]

theorem other_callback_is_called :
    let d := (opened {}).serveAll shared
    (d.subscribers 300).Nodup ∧ d.stillOpen 300 = ["g"] ∧
    (∀ s ∈ d.signups, s.cell = 300 → s.callback = "g" → s.calls ≤ 1) ∧
    (∃ w, d.memory.write (.int 300) (.int 7) 1 = .ok w) ∧
    let called := (d.serve (.write (.int 300) (.int 7) 1)).1
    called = [{ callback := "g", value := .int 7, size := 1 }] ∧
      (called.map Told.callback).count "g" = (d.stillOpen 300).count "g" := by
  intro d
  have hnodup : (d.subscribers 300).Nodup := by decide
  have hcalls : ∀ s ∈ d.signups, s.cell = 300 → s.callback = "g" → s.calls ≤ 1 := by decide
  have hwrite : ∃ w, d.memory.write (.int 300) (.int 7) 1 = .ok w := ⟨_, rfl⟩
  obtain ⟨w, hw⟩ := hwrite
  obtain ⟨hvalue, a, told, hlocate, hserved, -, hcount, htold⟩ :=
    (write_calls_latest_subscriptions {} shared (.int 300) (.int 7) 1).2 w hw
  have ha : a = 300 := by
    cases hlocate
    rfl
  subst ha
  have hw' : w.value = .int 7 := by
    simpa using hvalue.symm
  have hcalled : told = ["g"] := htold hnodup
  refine ⟨hnodup, rfl, hcalls, ⟨w, hw⟩, ?_, ?_⟩
  · rw [hserved, hcalled, hw']
    rfl
  · rw [hserved, List.map_map]
    simpa [Function.comp_def] using hcount "g" hcalls

/-- A function that is called again takes away the other subscription of its callback, whose own
function was not called. -/
theorem repeated_unsubscribe_hits_other :
    let d := (opened {}).serveAll
      [.subscribe (.int 300) "f", .subscribe (.int 300) "f", .unsubscribe 0, .unsubscribe 0]
    d.stillOpen 300 = ["f"] ∧ (d.serve (.write (.int 300) (.int 7) 1)).1 = [] ∧
      (d.memory.write (.int 300) (.int 7) 1).toOption.isSome := by
  exact ⟨rfl, rfl, rfl⟩

end Desk

end Memory

end Forthline
