import Forthline.Proofs.Defining
import Forthline.Proofs.ReturnStack
import Mathlib.Data.Rat.Floor
import Mathlib.Tactic.Linarith

/-!
# Counted loops

A counted loop between two integers enters its body with one index after another, as long as the
index has not passed the limit in the direction that was fixed when the loop was entered. The
frame of the loop keeps the index; the copy on the return stack is for the body, which may do with
it what it likes as long as it leaves something in its place.
-/

namespace Forthline

theorem Value.greater_int (a b : Int) :
    Value.greater (.int a) (.int b) = .ok (decide (b < a)) := by
  simp [Value.greater, Value.ordered, Value.number?, Number.compare?, Int.compare_eq_gt]

namespace Run

def Turned (m m' : Machine) : Prop :=
  ∃ f fs, Ready (f :: fs) m ∧ (advance f).on m = (.ok (), m')

private theorem Turned.unique {m m₁ m₂ : Machine} {f : Frame} {fs : List Frame}
    (h : Turned m m₂) (hm : Ready (f :: fs) m) (hturn : (advance f).on m = (.ok (), m₁)) :
    m₁ = m₂ := by
  obtain ⟨g, gs, hg, hturn'⟩ := h
  obtain ⟨rfl, -⟩ := List.cons.inj (hm.2.symm.trans hg.2)
  rw [hturn] at hturn'
  cases hturn'
  rfl

/-- Turn after turn, the frames above a depth come to their end. While the line is suspended, the
host does what it likes with the rest of the machine. -/
inductive Completes (depth : Nat) : Machine → Machine → Prop where
  | done {m : Machine} : m.paused = false → m.frames.length = depth → Completes depth m m
  | turned {m m₁ m' : Machine} : depth < m.frames.length → Turned m m₁ → Completes depth m₁ m' →
      Completes depth m m'
  | awaited {m m₁ m' : Machine} : depth < m.frames.length → m.paused = true →
      m₁.frames = m.frames → Completes depth m₁ m' → Completes depth m m'

section Frames

variable {m m' : Machine} {fs : List Frame}

private def Above (fs : List Frame) (m : Machine) : Prop := ∃ gs, m.frames = gs ++ fs

private theorem Above.of_frames (hm : Above fs m) (h : m'.frames = m.frames) : Above fs m' := by
  obtain ⟨gs, hgs⟩ := hm
  exact ⟨gs, h.trans hgs⟩

private theorem Above.of_contained {α : Type} {p : Run α} (hm : Above fs m) (hp : Contained p)
    {o : Except Stop α} (h : p.on m = (o, m')) : Above fs m' := by
  have hkept := (hp m).2.1
  rw [h] at hkept
  exact hm.of_frames hkept

private theorem Above.pushFrame {f : Frame} (hm : Above fs m)
    (h : (Run.pushFrame f).on m = (.ok (), m')) : Above fs m' := by
  obtain ⟨gs, hgs⟩ := hm
  cases h
  exact ⟨f :: gs, congrArg (f :: ·) hgs⟩

private theorem word_above {w : Word} (hm : Above fs m) (h : (word w).on m = (.ok (), m')) :
    Above fs m' := by
  cases w with
  | native name c =>
    have hkept := (native_ends name c m).2.1
    change (native name c).on m = _ at h
    rw [h] at hkept
    exact hm.of_frames hkept
  | definition name body permanent => exact hm.pushFrame h
  | control c => cases h
  | stray shown => cases h

private theorem node_above {n : Node} (hm : Above fs m) (h : (node n).on m = (.ok (), m')) :
    Above fs m' := by
  unfold node at h
  rw [on_modify_bind] at h
  replace hm : Above fs { m with steps := m.steps + 1 } := hm
  cases n with
  | action w => exact word_above hm h
  | conditional consequent alternative =>
    obtain ⟨v, m₁, hpop, h⟩ := on_bind_eq_ok h
    exact (hm.of_contained pop_contained hpop).pushFrame h
  | counted body stepped =>
    obtain ⟨start, m₁, hstart, h⟩ := on_bind_eq_ok h
    obtain ⟨limit, m₂, hlimit, h⟩ := on_bind_eq_ok h
    obtain ⟨forwards, -, h⟩ := on_lift_bind_eq_ok h
    exact ((hm.of_contained pop_contained hstart).of_contained pop_contained hlimit).pushFrame h
  | indefinite body => exact hm.pushFrame h

private theorem Turn.above {f : Frame} {r r' : Stack} (h : Turn fs f r m.frames r') :
    Above fs m := by
  generalize hframes : m.frames = frames at h
  cases h with
  | word => exact ⟨[_], hframes⟩
  | enter | first | next | again => exact ⟨[_, _], hframes⟩
  | done | leave => exact ⟨[], hframes⟩

private theorem advance_above {f : Frame} (hm : m.frames = f :: fs)
    (h : (advance f).on m = (.ok (), m')) : Above fs m' := by
  cases f with
  | sequence rest =>
    cases rest with
    | nil =>
      cases h
      exact ⟨[], congrArg List.tail hm⟩
    | cons n rest =>
      rw [advance, setFrame, on_modify_bind, hm] at h
      exact node_above ⟨[.sequence rest], rfl⟩ h
  | counted body stepped index limit forwards running => exact (turn_of_iterate hm h).above
  | indefinite body running => exact (turn_of_repeatBody hm h).above

theorem Completes.ready {gs : List Frame} (h : Completes fs.length m m')
    (hm : m.frames = gs ++ fs) : Ready fs m' := by
  induction h generalizing gs with
  | done hpaused hlength =>
    rw [hm, List.length_append] at hlength
    have hgs : gs = [] := List.eq_nil_of_length_eq_zero (by omega)
    exact ⟨hpaused, by rw [hm, hgs, List.nil_append]⟩
  | turned hlength hturned _ ih =>
    obtain ⟨f, rest, hready, hturn⟩ := hturned
    cases gs with
    | nil =>
      rw [hm] at hlength
      exact absurd hlength (Nat.lt_irrefl _)
    | cons g gs =>
      have hsame := hready.2.symm.trans hm
      rw [List.cons_append, List.cons.injEq] at hsame
      obtain ⟨hs, hhs⟩ := advance_above (hready.2.trans (by rw [hsame.2])) hturn
      exact ih (hhs.trans (List.append_assoc hs gs fs).symm)
  | awaited _ _ hframes _ ih => exact ih (hframes.trans hm)

end Frames

theorem popReturn_of_push {m : Machine} {r : Stack} {v : Value}
    (h : m.returns = r.push v) : popReturn.on m = (.ok v, { m with returns := r }) := by
  rw [popReturn, on_get_bind, h]
  rfl

theorem discard_popReturn_of_push {m : Machine} {r : Stack} {v : Value}
    (h : m.returns = r.push v) :
    (discard popReturn).on m = (.ok (), { m with returns := r }) := by
  change (popReturn >>= fun _ => pure ()).on m = _
  rw [on_bind_ok (popReturn_of_push h)]
  rfl

theorem nextIndex_plain {m : Machine} {r : Stack} {v : Value} (h : m.returns = r.push v)
    (i : Int) :
    (nextIndex false (.int i)).on m = (.ok (.int (i + 1)), { m with returns := r }) := by
  rw [nextIndex, on_bind_ok (discard_popReturn_of_push h)]
  rfl

end Run

structure CountedLoop where
  body : List Node
  stepped : Bool
  start : Int
  limit : Int
  below : List Frame

structure Lap where
  entered : Machine
  left : Machine

namespace Lap

def step (stepped : Bool) (lap : Lap) : Int :=
  if stepped then
    match lap.left.stack.items with
    | .int d :: _ => d
    | _ => 0
  else 1

/-- The body leaves the return stack as deep as it was, and an integer to step by if it has to. -/
def Normal (stepped : Bool) (lap : Lap) : Prop :=
  lap.left.returns.depth = lap.entered.returns.depth ∧
    (stepped = true → ∃ (s : Stack) (d : Int), lap.left.stack = s.push (.int d))

def SparesBelow (lap : Lap) : Prop :=
  ∃ (r : Stack) (v w : Value), lap.entered.returns = r.push v ∧ lap.left.returns = r.push w

end Lap

namespace CountedLoop

open Run

variable (l : CountedLoop)

def Covers (i : Int) : Prop := if l.start < l.limit then i < l.limit else l.limit ≤ i

instance (i : Int) : Decidable (l.Covers i) := by
  unfold Covers
  infer_instance

theorem covers_start : l.Covers l.start := by
  unfold Covers
  split
  · assumption
  · omega

def frame (i : Int) (running : Bool) : Frame :=
  .counted l.body l.stepped (.int i) (.int l.limit) (decide (l.start < l.limit)) running

def index (laps : List Lap) : Int := l.start + (laps.map (Lap.step l.stepped)).sum

structure Entered (i : Int) (m : Machine) : Prop where
  ready : Ready (.sequence l.body :: l.frame i true :: l.below) m
  returns : ∃ r : Stack, m.returns = r.push (.int i)

def Left (m : Machine) : Prop := Ready l.below m

/-- The iterations of the loop from its first machine on: at each the turn of the loop puts the
body on top of its frame, and the body is run to its end. -/
inductive Laps (first : Machine) : List Lap → Machine → Prop where
  | none : Laps first [] first
  | more {laps : List Lap} {m e c : Machine} : Laps first laps m → Turned m e →
      e.frames.length = l.below.length + 2 → Completes (l.below.length + 1) e c →
      Laps first (laps ++ [⟨e, c⟩]) c

variable {l}

@[simp] theorem index_nil : l.index [] = l.start := by simp [index]

@[simp] theorem index_snoc (laps : List Lap) (lap : Lap) :
    l.index (laps ++ [lap]) = l.index laps + lap.step l.stepped := by
  simp [index, Int.add_assoc]

private theorem Stack.push_inj {s t : Stack} {v w : Value} (h : s.push v = t.push w) :
    s = t ∧ v = w := by
  obtain ⟨name, items⟩ := s
  obtain ⟨name', items'⟩ := t
  cases h
  exact ⟨rfl, rfl⟩

private theorem exists_push_of_depth {s : Stack} {n : Nat} (h : s.depth = n + 1) :
    ∃ (r : Stack) (v : Value), s = r.push v ∧ r.depth = n := by
  obtain ⟨name, items⟩ := s
  cases items with
  | nil => cases h
  | cons v items => exact ⟨⟨name, items⟩, v, rfl, Nat.succ.inj h⟩

private theorem goesOn_int (l : CountedLoop) (i : Int) :
    goesOn (.int i) (.int l.limit) (decide (l.start < l.limit)) = .ok (decide (l.Covers i)) := by
  unfold goesOn Covers
  by_cases h : l.start < l.limit
  · simp [h, Value.less, Value.ordered, Value.number?, Number.compare?, Int.compare_eq_lt]
  · have hcompare : decide (compare i l.limit ≠ .lt) = decide (l.limit ≤ i) :=
      decide_eq_decide.mpr (by rw [Ne, Int.compare_eq_lt, Int.not_lt])
    simpa [h, Value.atLeast, Value.ordered, Value.number?, Number.compare?] using hcompare

theorem started {m : Machine} {s : Stack} {rest : List Node} {base : List Frame}
    (hbelow : l.below = .sequence rest :: base)
    (hm : Ready (.sequence (.counted l.body l.stepped :: rest) :: base) m)
    (hstack : m.stack = (s.push (.int l.limit)).push (.int l.start)) :
    (advance (.sequence (.counted l.body l.stepped :: rest))).on m =
      (.ok (), { m with
        frames := l.frame l.start false :: l.below, steps := m.steps + 1, stack := s }) := by
  let k : Machine := { m with frames := .sequence rest :: base, steps := m.steps + 1 }
  have hstart : pop.on k = (.ok (.int l.start), { k with stack := s.push (.int l.limit) }) :=
    pop_of_push hstack
  rw [advance, setFrame, on_modify_bind, hm.2]
  unfold node
  rw [on_modify_bind]
  change (pop >>= _).on k = _
  rw [on_bind_ok hstart, on_bind_ok (pop_of_push rfl), Value.greater_int,
    on_bind_ok (on_lift_ok _ _), hbelow]
  rfl

section Laps

variable {first m : Machine} {laps : List Lap} {i : Int}

def visited (l : CountedLoop) (i : Int) (k : Machine) : Machine :=
  if l.Covers i then
    { k with
      returns := k.returns.push (.int i), frames := .sequence l.body :: l.frame i true :: l.below }
  else { k with frames := l.below }

private theorem visit_on {k : Machine} (hk : k.frames.tail = l.below) :
    (visit l.body l.stepped (.int i) (.int l.limit) (decide (l.start < l.limit))).on k =
      (.ok (), visited l i k) := by
  rw [visit, goesOn_int, on_bind_ok (on_lift_ok _ k), visited]
  by_cases h : l.Covers i
  · simp only [h, decide_true, if_true]
    rw [← hk]
    rfl
  · simp only [h, decide_false, Bool.false_eq_true, if_false]
    rw [← hk]
    rfl

private theorem nextIndex_on {r : Stack} {v : Value} {lap : Lap}
    (hreturns : lap.left.returns = r.push v) (hlap : lap.Normal l.stepped) :
    ∃ s, (nextIndex l.stepped (.int i)).on lap.left =
      (.ok (.int (i + lap.step l.stepped)), { lap.left with returns := r, stack := s }) := by
  cases hstepped : l.stepped with
  | false => exact ⟨lap.left.stack, nextIndex_plain hreturns i⟩
  | true =>
    obtain ⟨s, d, hstack⟩ := hlap.2 hstepped
    refine ⟨s, ?_⟩
    have hstep : lap.step true = d := by simp [Lap.step, hstack, Stack.push]
    rw [nextIndex, on_bind_ok (discard_popReturn_of_push hreturns), if_pos rfl,
      on_bind_ok (pop_of_push (m := { lap.left with returns := r }) hstack), hstep]
    rfl

theorem advance_first {k : Machine} (hk : Ready (l.frame i false :: l.below) k) :
    (advance (l.frame i false)).on k = (.ok (), visited l i k) := by
  rw [frame, advance, iterate_first, visit_on (by rw [hk.2, List.tail_cons])]

theorem advance_next {c k : Machine} {j : Int} (hc : Ready (l.frame i true :: l.below) c)
    (hnext : (nextIndex l.stepped (.int i)).on c = (.ok (.int j), k)) (hk : k.frames = c.frames) :
    (advance (l.frame i true)).on c = (.ok (), visited l j k) := by
  rw [frame, advance, iterate_next, on_bind_ok hnext, setFrame, on_modify_bind,
    visit_on (by rw [List.tail_cons, hk, hc.2, List.tail_cons]), visited, visited]

private theorem covers_of_visited {k : Machine}
    (h : (visited l i k).frames.length = l.below.length + 2) : l.Covers i := by
  by_cases hcovers : l.Covers i
  · exact hcovers
  · rw [visited, if_neg hcovers] at h
    change l.below.length = l.below.length + 2 at h
    omega

private theorem advance_of_lap {k : Machine} {lap : Lap} (hcovers : l.Covers i)
    (hentered : lap.entered = visited l i k)
    (hcompletes : Completes (l.below.length + 1) lap.entered lap.left)
    (hlap : lap.Normal l.stepped) :
    ∃ k', Ready (l.frame i true :: l.below) lap.left ∧
      (advance (l.frame i true)).on lap.left =
        (.ok (), visited l (i + lap.step l.stepped) k') ∧
      k'.paused = false ∧ k'.returns.depth = k.returns.depth ∧
      (lap.SparesBelow → k'.returns = k.returns) := by
  rw [visited, if_pos hcovers] at hentered
  have hframes : lap.entered.frames = [.sequence l.body] ++ (l.frame i true :: l.below) := by
    rw [hentered]
    rfl
  have hreturns : lap.entered.returns = k.returns.push (.int i) := by rw [hentered]
  have hdone : Completes (l.frame i true :: l.below).length lap.entered lap.left := hcompletes
  have hleft : Ready (l.frame i true :: l.below) lap.left := hdone.ready hframes
  have hdepth : lap.left.returns.depth = k.returns.depth + 1 := by
    rw [hlap.1, hreturns]
    rfl
  obtain ⟨r, v, hr, hrdepth⟩ := exists_push_of_depth hdepth
  obtain ⟨s, hnext⟩ := nextIndex_on (i := i) hr hlap
  refine ⟨{ lap.left with returns := r, stack := s }, hleft, advance_next hleft hnext rfl, hleft.1,
    hrdepth, ?_⟩
  rintro ⟨r', v', w, hentry, hexit⟩
  have hback : k.returns = r' := (Stack.push_inj (hreturns.symm.trans hentry)).1
  have hforth : r = r' := (Stack.push_inj (hr.symm.trans hexit)).1
  exact hforth.trans hback.symm

private theorem standing (hfirst : Ready (l.frame l.start false :: l.below) first)
    (h : l.Laps first laps m) (hlaps : ∀ lap ∈ laps, lap.Normal l.stepped) :
    ∃ f k, Ready (f :: l.below) m ∧ (advance f).on m = (.ok (), visited l (l.index laps) k) ∧
      k.paused = false ∧ k.returns.depth = first.returns.depth ∧
      ((∀ lap ∈ laps, lap.SparesBelow) → k.returns = first.returns) := by
  induction h with
  | none =>
    refine ⟨_, first, hfirst, ?_, hfirst.1, rfl, fun _ => rfl⟩
    rw [index_nil, advance_first hfirst]
  | @more laps m e c _ hturned hlength hcompletes ih =>
    obtain ⟨f, k, hm, hturn, hpaused, hdepth, hsame⟩ :=
      ih fun lap hlap => hlaps lap (List.mem_append_left _ hlap)
    obtain rfl : visited l (l.index laps) k = e := hturned.unique hm hturn
    obtain ⟨k', hc, hadvance, hpaused', hdepth', hsame'⟩ :=
      advance_of_lap (covers_of_visited hlength) rfl hcompletes
        (hlaps _ (List.mem_append_right _ List.mem_cons_self))
    refine ⟨_, k', hc, ?_, hpaused', hdepth'.trans hdepth, ?_⟩
    · rw [index_snoc, hadvance]
    · intro hspares
      rw [hsame' (hspares _ (List.mem_append_right _ List.mem_cons_self))]
      exact hsame fun lap hlap => hspares lap (List.mem_append_left _ hlap)

private theorem entered_of_laps (hfirst : Ready (l.frame l.start false :: l.below) first)
    (h : l.Laps first laps m) (hlaps : ∀ lap ∈ laps, lap.Normal l.stepped)
    {before after : List Lap} {lap : Lap} (hsplit : laps = before ++ lap :: after) :
    l.Covers (l.index before) ∧ l.Entered (l.index before) lap.entered := by
  induction h generalizing after with
  | none => simp at hsplit
  | @more laps m e c hrun hturned hlength _ ih =>
    have hnormal : ∀ lap ∈ laps, lap.Normal l.stepped :=
      fun lap hlap => hlaps lap (List.mem_append_left _ hlap)
    rcases List.eq_nil_or_concat after with rfl | ⟨after, last, rfl⟩
    · obtain ⟨rfl, hlast⟩ := List.append_inj' hsplit rfl
      cases hlast
      obtain ⟨f, k, hm, hturn, hpaused, -⟩ := standing hfirst hrun hnormal
      obtain rfl := hturned.unique hm hturn
      have hcovers := covers_of_visited hlength
      refine ⟨hcovers, ?_⟩
      rw [visited, if_pos hcovers]
      exact ⟨⟨hpaused, rfl⟩, k.returns, rfl⟩
    · rw [List.concat_eq_append, ← List.cons_append, ← List.append_assoc] at hsplit
      exact ih hnormal (List.append_inj' hsplit rfl).1

private theorem enters (hfirst : Ready (l.frame l.start false :: l.below) first)
    (h : l.Laps first laps m) (hlaps : ∀ lap ∈ laps, lap.Normal l.stepped)
    (hcovers : l.Covers (l.index laps)) : ∃ e, Turned m e ∧ l.Entered (l.index laps) e := by
  obtain ⟨f, k, hm, hturn, hpaused, -⟩ := standing hfirst h hlaps
  refine ⟨_, ⟨f, l.below, hm, hturn⟩, ?_⟩
  rw [visited, if_pos hcovers]
  exact ⟨⟨hpaused, rfl⟩, k.returns, rfl⟩

private theorem leaves (hfirst : Ready (l.frame l.start false :: l.below) first)
    (h : l.Laps first laps m) (hlaps : ∀ lap ∈ laps, lap.Normal l.stepped)
    (hcovers : ¬l.Covers (l.index laps)) :
    ∃ x, Turned m x ∧ l.Left x ∧ x.returns.depth = first.returns.depth ∧
      ((∀ lap ∈ laps, lap.SparesBelow) → x.returns = first.returns) := by
  obtain ⟨f, k, hm, hturn, hpaused, hdepth, hsame⟩ := standing hfirst h hlaps
  refine ⟨_, ⟨f, l.below, hm, hturn⟩, ?_⟩
  rw [visited, if_neg hcovers]
  exact ⟨⟨hpaused, rfl⟩, hdepth, hsame⟩

private theorem not_covers_of_left {x : Machine}
    (hfirst : Ready (l.frame l.start false :: l.below) first)
    (h : l.Laps first laps m) (hlaps : ∀ lap ∈ laps, lap.Normal l.stepped) (hturned : Turned m x)
    (hx : l.Left x) : ¬l.Covers (l.index laps) := by
  intro hcovers
  obtain ⟨e, ⟨f, fs, hm, hturn⟩, hentered⟩ := enters hfirst h hlaps hcovers
  obtain rfl := hturned.unique hm hturn
  have hlength := congrArg List.length (hx.2.symm.trans hentered.ready.2)
  simp only [List.length_cons] at hlength
  omega

variable (l first) in
/-- Each time the body is entered it can be run to its end, with the property. -/
def Always (P : Lap → Prop) : Prop :=
  ∀ laps m e, l.Laps first laps m → (∀ lap ∈ laps, P lap) → Turned m e →
    l.Entered (l.index laps) e → ∃ c, Completes (l.below.length + 1) e c ∧ P ⟨e, c⟩

variable (l first) in
/-- Iterations with the property lead out of the loop, and whenever they do they are as many as
the count says. -/
def Takes (P : Lap → Prop) (count : Int) : Prop :=
  (∃ laps m x, l.Laps first laps m ∧ (∀ lap ∈ laps, P lap) ∧ laps.length = count ∧
    Turned m x ∧ l.Left x) ∧
  ∀ laps m x, l.Laps first laps m → (∀ lap ∈ laps, P lap) → Turned m x → l.Left x →
    laps.length = count

private theorem laps_of_always {P : Lap → Prop} (count : Nat)
    (hfirst : Ready (l.frame l.start false :: l.below) first)
    (hP : ∀ lap, P lap → lap.Normal l.stepped) (hbody : l.Always first P)
    (hcovers : ∀ laps m, l.Laps first laps m → (∀ lap ∈ laps, P lap) → laps.length < count →
      l.Covers (l.index laps)) :
    ∃ laps m, l.Laps first laps m ∧ (∀ lap ∈ laps, P lap) ∧ laps.length = count := by
  induction count with
  | zero => exact ⟨[], first, Laps.none, List.forall_mem_nil _, rfl⟩
  | succ count ih =>
    obtain ⟨laps, m, hrun, hlaps, hlength⟩ :=
      ih fun laps m hrun hlaps hlt => hcovers laps m hrun hlaps (Nat.lt_succ_of_lt hlt)
    obtain ⟨e, hturned, hentered⟩ := enters hfirst hrun (fun lap hlap => hP lap (hlaps lap hlap))
      (hcovers laps m hrun hlaps (by omega))
    obtain ⟨c, hcompletes, hlap⟩ := hbody laps m e hrun hlaps hturned hentered
    refine ⟨laps ++ [⟨e, c⟩], c, .more hrun hturned ?_ hcompletes, ?_, ?_⟩
    · rw [hentered.ready.2]
      rfl
    · intro lap hmem
      rcases List.mem_append.mp hmem with hmem | hmem
      · exact hlaps lap hmem
      · rw [List.mem_singleton.mp hmem]
        exact hlap
    · rw [List.length_append, hlength]
      rfl

private theorem takes_of_covers {P : Lap → Prop} {count : Int}
    (hfirst : Ready (l.frame l.start false :: l.below) first)
    (hP : ∀ lap, P lap → lap.Normal l.stepped) (hbody : l.Always first P)
    (hcovers : ∀ laps, (∀ lap ∈ laps, P lap) → (l.Covers (l.index laps) ↔ laps.length < count)) :
    l.Takes first P count := by
  have hcount : 0 < count := by
    have hstart := (hcovers [] (List.forall_mem_nil _)).mp (index_nil (l := l) ▸ l.covers_start)
    exact hstart
  constructor
  · obtain ⟨laps, m, hrun, hlaps, hlength⟩ := laps_of_always count.toNat hfirst hP hbody
      fun laps m _ hlaps hlt => (hcovers laps hlaps).mpr (by omega)
    have hnot : ¬l.Covers (l.index laps) := by
      rw [hcovers laps hlaps]
      omega
    obtain ⟨x, hturned, hleft, -⟩ :=
      leaves hfirst hrun (fun lap hlap => hP lap (hlaps lap hlap)) hnot
    exact ⟨laps, m, x, hrun, hlaps, by omega, hturned, hleft⟩
  · intro laps m x hrun hlaps hturned hleft
    have hnormal : ∀ lap ∈ laps, lap.Normal l.stepped := fun lap hlap => hP lap (hlaps lap hlap)
    have hnot := not_covers_of_left hfirst hrun hnormal hturned hleft
    rw [hcovers laps hlaps] at hnot
    -- The last iteration was still covered, so there are not more than the count.
    rcases List.eq_nil_or_concat laps with rfl | ⟨before, last, rfl⟩
    · simp only [List.length_nil] at hnot ⊢
      omega
    · rw [List.concat_eq_append] at hrun hlaps hnormal hnot ⊢
      have hlast := (entered_of_laps hfirst hrun hnormal rfl).1
      rw [hcovers before fun lap hlap => hlaps lap (List.mem_append_left _ hlap)] at hlast
      rw [List.length_append, List.length_singleton] at hnot ⊢
      omega

private theorem index_of_steps {d : Int} (h : ∀ lap ∈ laps, lap.step l.stepped = d) :
    l.index laps = l.start + laps.length * d := by
  have hmap : laps.map (Lap.step l.stepped) = List.replicate laps.length d := by
    rw [List.eq_replicate_iff]
    exact ⟨List.length_map _, fun i hi => by
      obtain ⟨lap, hlap, rfl⟩ := List.mem_map.mp hi
      exact h lap hlap⟩
  rw [index, hmap, List.sum_replicate, nsmul_eq_mul]

private theorem covers_iff_lt_ceil {d : Int} (hd : 0 < d) (hlimit : l.start < l.limit)
    (h : ∀ lap ∈ laps, lap.step l.stepped = d) :
    l.Covers (l.index laps) ↔ (laps.length : Int) < ⌈((l.limit - l.start : Int) : ℚ) / d⌉ := by
  have hdq : (0 : ℚ) < d := by exact_mod_cast hd
  rw [Covers, if_pos hlimit, index_of_steps h, Int.lt_ceil, lt_div_iff₀ hdq]
  norm_cast
  omega

private theorem covers_iff_lt_floor {d : Int} (hd : d < 0) (hlimit : l.limit ≤ l.start)
    (h : ∀ lap ∈ laps, lap.step l.stepped = d) :
    l.Covers (l.index laps) ↔
      (laps.length : Int) < ⌊((l.start - l.limit : Int) : ℚ) / (-d : Int)⌋ + 1 := by
  have hdq : (0 : ℚ) < (-d : Int) := by exact_mod_cast Int.neg_pos_of_neg hd
  rw [Covers, if_neg (by omega), index_of_steps h, Int.lt_add_one_iff, Int.le_floor,
    le_div_iff₀ hdq]
  norm_cast
  rw [Int.mul_neg]
  omega

end Laps

/-- The law of counted loops. The body of a loop between two integers is entered with the index that
the steps so far lead to, as long as the loop covers the index; then the loop is left, and the
return stack is as deep as it was before the loop. With a constant step the number of iterations is
known, and a loop that counts up from its limit is never left. -/
theorem counted_loop_law (l : CountedLoop) {m : Machine} {s : Stack} {rest : List Node}
    {base : List Frame} (hbelow : l.below = .sequence rest :: base)
    (hm : Ready (.sequence (.counted l.body l.stepped :: rest) :: base) m)
    (hstack : m.stack = (s.push (.int l.limit)).push (.int l.start)) :
    ∃ first, (advance (.sequence (.counted l.body l.stepped :: rest))).on m = (.ok (), first) ∧
      (∀ laps n, l.Laps first laps n → (∀ lap ∈ laps, lap.Normal l.stepped) →
        (∀ before lap after, laps = before ++ lap :: after →
          l.Covers (l.index before) ∧ l.Entered (l.index before) lap.entered) ∧
        (l.Covers (l.index laps) → ∃ e, Turned n e ∧ l.Entered (l.index laps) e) ∧
        (¬l.Covers (l.index laps) → ∃ x, Turned n x ∧ l.Left x ∧
          x.returns.depth = m.returns.depth ∧
          ((∀ lap ∈ laps, lap.SparesBelow) → x.returns = m.returns))) ∧
      (l.stepped = false → l.Always first (Lap.Normal l.stepped) →
        (l.start < l.limit → l.Takes first (Lap.Normal l.stepped) (l.limit - l.start)) ∧
        (l.limit ≤ l.start →
          (∀ count, ∃ laps n, l.Laps first laps n ∧ (∀ lap ∈ laps, lap.Normal l.stepped) ∧
            laps.length = count) ∧
          ∀ laps n x, l.Laps first laps n → (∀ lap ∈ laps, lap.Normal l.stepped) → Turned n x →
            ¬l.Left x)) ∧
      ∀ d, l.Always first (fun lap => lap.Normal l.stepped ∧ lap.step l.stepped = d) →
        (0 < d → l.start < l.limit →
          l.Takes first (fun lap => lap.Normal l.stepped ∧ lap.step l.stepped = d)
            ⌈((l.limit - l.start : Int) : ℚ) / d⌉) ∧
        (d < 0 → l.limit ≤ l.start →
          l.Takes first (fun lap => lap.Normal l.stepped ∧ lap.step l.stepped = d)
            (⌊((l.start - l.limit : Int) : ℚ) / (-d : Int)⌋ + 1)) := by
  obtain ⟨first, hturn, hfirst, hreturns⟩ : ∃ first,
      (advance (.sequence (.counted l.body l.stepped :: rest))).on m = (.ok (), first) ∧
      Ready (l.frame l.start false :: l.below) first ∧ first.returns = m.returns :=
    ⟨_, started hbelow hm hstack, ⟨hm.1, rfl⟩, rfl⟩
  refine ⟨first, hturn, ?_, ?_, ?_⟩
  · intro laps n hrun hlaps
    rw [← hreturns]
    exact ⟨fun before lap after => entered_of_laps hfirst hrun hlaps,
      enters hfirst hrun hlaps, leaves hfirst hrun hlaps⟩
  · intro hstepped hbody
    have hone (lap : Lap) : lap.step l.stepped = 1 := by rw [Lap.step, hstepped]; rfl
    constructor
    · intro hlimit
      apply takes_of_covers hfirst (fun _ => id) hbody
      intro laps _
      rw [covers_iff_lt_ceil Int.one_pos hlimit fun lap _ => hone lap]
      simp only [Int.cast_one, div_one, Int.ceil_intCast]
    · intro hlimit
      have hcovers (laps : List Lap) : l.Covers (l.index laps) := by
        rw [Covers, if_neg (by omega), index_of_steps fun lap _ => hone lap]
        omega
      refine ⟨fun count => ?_, ?_⟩
      · exact laps_of_always count hfirst (fun _ => id) hbody fun laps _ _ _ _ => hcovers laps
      · intro laps n x hrun hlaps hturned hleft
        exact not_covers_of_left hfirst hrun hlaps hturned hleft (hcovers laps)
  · intro d hbody
    constructor
    · intro hd hlimit
      apply takes_of_covers hfirst (fun _ h => h.1) hbody
      exact fun laps hlaps => covers_iff_lt_ceil hd hlimit fun lap hlap => (hlaps lap hlap).2
    · intro hd hlimit
      apply takes_of_covers hfirst (fun _ h => h.1) hbody
      exact fun laps hlaps => covers_iff_lt_floor hd hlimit fun lap hlap => (hlaps lap hlap).2

private def striding : CountedLoop where
  body := [.action (.native "2" (.push (.int 2)))]
  stepped := true
  start := 0
  limit := 5
  below := [.sequence []]

private def aboutToStride : Machine where
  stack := { name := "Stack", items := [.int 0, .int 5] }
  frames := [.sequence [.counted striding.body true]]

private theorem striding_always (first : Machine) :
    striding.Always first fun lap => lap.Normal true ∧ lap.step true = 2 := by
  intro laps m e _ _ _ hentered
  have hready := hentered.ready
  generalize striding.index laps = i at hready
  let pushed : Machine := { e with
    stack := e.stack.push (.int 2)
    steps := e.steps + 1
    frames := .sequence [] :: e.frames.tail }
  have hpush : (advance (.sequence striding.body)).on e = (.ok (), pushed) := rfl
  have hpushed : Ready (.sequence [] :: striding.frame i true :: striding.below) pushed := by
    refine ⟨hready.1, ?_⟩
    change Frame.sequence [] :: e.frames.tail = _
    rw [hready.2, List.tail_cons]
  have hleft : Ready (striding.frame i true :: striding.below)
      { pushed with frames := striding.frame i true :: striding.below } := ⟨hready.1, rfl⟩
  have hdrop : (advance (.sequence [])).on pushed =
      (.ok (), { pushed with frames := striding.frame i true :: striding.below }) := by
    rw [advance, dropFrame]
    change (Except.ok (), { pushed with frames := pushed.frames.tail }) = _
    rw [hpushed.2, List.tail_cons]
  refine ⟨_, .turned ?_ ⟨_, _, hready, hpush⟩ (.turned ?_ ⟨_, _, hpushed, hdrop⟩
    (.done hleft.1 rfl)), ⟨rfl, fun _ => ⟨e.stack, 2, rfl⟩⟩, rfl⟩
  · rw [hready.2]
    exact Nat.lt_succ_self _
  · rw [hpushed.2]
    exact Nat.lt_succ_self _

/-- The loop takes three iterations, at 0, 2 and 4. -/
theorem striding_takes_three :
    Ready [.sequence [.counted striding.body true]] aboutToStride ∧
    ∃ first, (advance (.sequence [.counted striding.body true])).on aboutToStride =
        (.ok (), first) ∧
      striding.Takes first (fun lap => lap.Normal true ∧ lap.step true = 2) 3 := by
  refine ⟨⟨rfl, rfl⟩, ?_⟩
  obtain ⟨first, hfirst, -, -, hcount⟩ := counted_loop_law striding (m := aboutToStride)
    (s := { name := "Stack" }) rfl ⟨rfl, rfl⟩ rfl
  have htakes := (hcount 2 (striding_always first)).1 (by decide) (by decide)
  have hthree : ⌈((striding.limit - striding.start : Int) : ℚ) / (2 : Int)⌉ = 3 := by
    rw [show striding.limit - striding.start = 5 from rfl, Int.ceil_eq_iff]
    norm_num
  rw [hthree] at htakes
  exact ⟨first, hfirst, htakes⟩

private def meddling : CountedLoop where
  body := [.action (.native "r>" (.task .fromReturn)), .action (.native "r>" (.task .fromReturn)),
    .action (.native "8" (.push (.int 8))), .action (.native ">r" (.task .toReturn)),
    .action (.native ">r" (.task .toReturn))]
  stepped := false
  start := 0
  limit := 1
  below := [.sequence []]

private def aboutToMeddle : Machine where
  stack := { name := "Stack", items := [.int 0, .int 1] }
  returns := { name := "Return Stack", items := [.int 7] }
  frames := [.sequence [.counted meddling.body false]]

private def turned? (m : Machine) : Option Machine :=
  match m.frames with
  | [] => none
  | f :: _ =>
    match m.paused, (advance f).on m with
    | false, (.ok _, m') => some m'
    | _, _ => none

private theorem turned_of_turned? {m m' : Machine} (h : turned? m = some m') : Turned m m' := by
  unfold turned? at h
  split at h
  · cases h
  · rename_i f fs hframes
    split at h
    · rename_i hpaused hturn
      cases h
      exact ⟨f, fs, ⟨hpaused, hframes⟩, hturn⟩
    · cases h

private def completed? (depth : Nat) : Nat → Machine → Option Machine
  | 0, _ => none
  | fuel + 1, m =>
    if depth < m.frames.length then (turned? m).bind (completed? depth fuel)
    else if !m.paused && m.frames.length == depth then some m
    else none

private theorem completes_of_completed? {depth fuel : Nat} {m c : Machine}
    (h : completed? depth fuel m = some c) : Completes depth m c := by
  induction fuel generalizing m with
  | zero => cases h
  | succ fuel ih =>
    unfold completed? at h
    split at h
    · rename_i hdepth
      obtain ⟨m', hturned, hrest⟩ := Option.bind_eq_some_iff.mp h
      exact .turned hdepth (turned_of_turned? hturned) (ih hrest)
    · split at h
      · rename_i hdone
        simp only [Bool.and_eq_true, Bool.not_eq_true', beq_iff_eq] at hdone
        cases h
        exact .done hdone.1 hdone.2
      · cases h

/-- A body can leave the return stack as deep as it was and still change it for good: it is then
not what it was when the loop is left. -/
theorem loop_can_change_return_stack :
    (∃ first laps n x,
      (advance (.sequence [.counted meddling.body false])).on aboutToMeddle = (.ok (), first) ∧
      meddling.Laps first laps n ∧ (∀ lap ∈ laps, lap.Normal meddling.stepped) ∧
      Turned n x ∧ meddling.Left x ∧
      aboutToMeddle.returns.items = [.int 7] ∧ x.returns.items = [.int 8]) ∧
    ((readLine 100 "t").on (afterLines [": t 7 >r 1 0 do r> r> 8 >r >r loop r> ;"])).1.toOption.any
      (fun r => r.failure.isNone && r.stack = [.int 0, .int 8]) = true := by
  refine ⟨?_, by decide +kernel⟩
  obtain ⟨first, hturn, hfirst⟩ : ∃ first,
      (advance (.sequence [.counted meddling.body false])).on aboutToMeddle = (.ok (), first) ∧
      Ready (meddling.frame meddling.start false :: meddling.below) first :=
    ⟨_, started (l := meddling) (s := { name := "Stack" }) rfl ⟨rfl, rfl⟩ rfl, rfl, rfl⟩
  have hcomputed : turned? aboutToMeddle = some first := by
    change (match false, (advance (.sequence [.counted meddling.body false])).on aboutToMeddle with
      | false, (.ok _, m') => some m'
      | _, _ => none) = _
    rw [hturn]
  have htest : ((turned? aboutToMeddle).any fun first => (turned? first).any fun e =>
      (completed? 2 10 e).any fun c => (turned? c).any fun x =>
        e.frames.length = 3 && c.returns.depth = e.returns.depth && x.returns.items = [.int 8]) =
      true := by
    decide +kernel
  rw [hcomputed, Option.any_some] at htest
  obtain ⟨e, he, htest⟩ := (Option.any_eq_true _ _).mp htest
  obtain ⟨c, hc, htest⟩ := (Option.any_eq_true _ _).mp htest
  obtain ⟨x, hx, htest⟩ := (Option.any_eq_true _ _).mp htest
  simp only [Bool.and_eq_true, decide_eq_true_eq] at htest
  obtain ⟨⟨hlength, hdepth⟩, hitems⟩ := htest
  have hlaps : meddling.Laps first [⟨e, c⟩] c :=
    .more .none (turned_of_turned? he) hlength (completes_of_completed? hc)
  have hnormal : ∀ lap ∈ [(⟨e, c⟩ : Lap)], lap.Normal meddling.stepped := by
    intro lap hlap
    rw [List.mem_singleton.mp hlap]
    exact ⟨hdepth, nofun⟩
  have hcovers : ¬meddling.Covers (meddling.index [⟨e, c⟩]) := by
    change ¬meddling.Covers 1
    decide
  obtain ⟨y, ⟨f, fs, hready, hlast⟩, hleft, -⟩ := leaves hfirst hlaps hnormal hcovers
  obtain rfl := (turned_of_turned? hx).unique hready hlast
  exact ⟨first, _, c, y, hturn, hlaps, hnormal, turned_of_turned? hx, hleft, rfl, hitems⟩

end CountedLoop

end Forthline
