import Forthline.Proofs.Contained
import Forthline.Proofs.Invariants
import Forthline.Proofs.Vocabulary

/-!
# The return stack

Of the native words only two move values to the return stack or from it. The others leave it alone,
and with it the frames; what else happens to it is up to the loops. A counted loop keeps the index
of the iteration under way on the return stack. So the return stack holds, on top of what it held
when the frames were started, the indices of the loops that are running.
-/

namespace Forthline

theorem builtin_spares_returns : ∀ e ∈ Builtin.installed, e.1 ≠ ">r" → e.1 ≠ "r>" →
    e.2.Within fun c => c.sparesReturns = true := by
  have hall : Builtin.installed.all (fun e =>
      e.1 == ">r" || e.1 == "r>" || e.2.codes.all Code.sparesReturns) = true := by
    decide +kernel
  intro e he hto hfrom c hc
  have hcodes := List.all_eq_true.mp hall e he
  simp only [beq_iff_eq, Bool.or_eq_true, hto, hfrom, false_or] at hcodes
  exact List.all_eq_true.mp hcodes c hc

def Frame.index? : Frame → Option Value
  | .counted _ _ index _ _ true => some index
  | _ => none

/-- The indices of the loops that are running, the innermost first. -/
def Machine.loopIndices (m : Machine) : List Value := m.frames.filterMap Frame.index?

theorem Stack.push_of_pop {s rest : Stack} {v : Value} (h : s.pop = .ok (v, rest)) :
    s = rest.push v := by
  obtain ⟨name, items⟩ := s
  cases items with
  | nil => cases h
  | cons top items =>
    cases h
    rfl

namespace Run

variable {α : Type}

/-- What a turn of the innermost frame makes of the frames and the return stack, where the other
frames are given. -/
inductive Turn (fs : List Frame) : Frame → Stack → List Frame → Stack → Prop where
  | word {n : Node} {rest : List Node} {r : Stack} :
      Turn fs (.sequence (n :: rest)) r (.sequence rest :: fs) r
  | enter {n : Node} {rest : List Node} {g : Frame} {r : Stack} (hindex : g.index? = none)
      (hnodes : ∀ ok, Hereditary ok → ok (n :: rest) → ok g.nodes) :
      Turn fs (.sequence (n :: rest)) r (g :: .sequence rest :: fs) r
  | done {f : Frame} {r : Stack} (hindex : f.index? = none) : Turn fs f r fs r
  | first {body : List Node} {stepped : Bool} {index limit : Value} {forwards : Bool} {r : Stack} :
      Turn fs (.counted body stepped index limit forwards false) r
        (.sequence body :: .counted body stepped index limit forwards true :: fs) (r.push index)
  | next {body : List Node} {stepped : Bool} {index limit : Value} {forwards : Bool} {r : Stack}
      {v : Value} (index' : Value) :
      Turn fs (.counted body stepped index limit forwards true) (r.push v)
        (.sequence body :: .counted body stepped index' limit forwards true :: fs) (r.push index')
  | leave {body : List Node} {stepped : Bool} {index limit : Value} {forwards : Bool} {r : Stack}
      {v : Value} : Turn fs (.counted body stepped index limit forwards true) (r.push v) fs r
  | again {body : List Node} {running : Bool} {r : Stack} :
      Turn fs (.indefinite body running) r (.sequence body :: .indefinite body true :: fs) r

section Turns

variable {m m' : Machine} {fs : List Frame}

theorem kept_of_contained {p : Run α} (hp : Contained p) {result : Except Stop α}
    (h : p.on m = (result, m')) : m'.frames = m.frames ∧ m'.returns = m.returns := by
  have hkept := hp m
  rw [h] at hkept
  exact ⟨hkept.2.1, hkept.2.2.1⟩

theorem returns_of_popReturn {v : Value} (h : popReturn.on m = (.ok v, m')) :
    m'.frames = m.frames ∧ m.returns = m'.returns.push v := by
  rw [popReturn, on_get_bind] at h
  obtain ⟨⟨top, rest⟩, hpop, h⟩ := on_lift_bind_eq_ok h
  cases h
  exact ⟨rfl, Stack.push_of_pop hpop⟩

private theorem returns_of_nextIndex {stepped : Bool} {index index' : Value}
    (h : (nextIndex stepped index).on m = (.ok index', m')) :
    m'.frames = m.frames ∧ ∃ v, m.returns = m'.returns.push v := by
  obtain ⟨_, m₁, hdiscard, h⟩ := on_bind_eq_ok h
  obtain ⟨v, m₂, hpop, hpure⟩ : ∃ v m₂, popReturn.on m = (.ok v, m₂) ∧
      (pure () : Run Unit).on m₂ = (.ok (), m₁) := on_bind_eq_ok hdiscard
  cases hpure
  have hpopped := returns_of_popReturn hpop
  have hkept : m'.frames = m₁.frames ∧ m'.returns = m₁.returns := by
    cases stepped with
    | false => exact kept_of_contained (Contained.lift _) h
    | true => exact kept_of_contained (pop_contained.bind fun _ => Contained.lift _) h
  exact ⟨hkept.1.trans hpopped.1, v, by rw [hkept.2, hpopped.2]⟩

private theorem turn_of_visit {body : List Node} {stepped : Bool} {index limit : Value}
    {forwards : Bool} (h : (visit body stepped index limit forwards).on m = (.ok (), m')) :
    m'.frames = .sequence body :: .counted body stepped index limit forwards true :: m.frames.tail ∧
      m'.returns = m.returns.push index ∨
    m'.frames = m.frames.tail ∧ m'.returns = m.returns := by
  obtain ⟨more, -, h⟩ := on_lift_bind_eq_ok h
  cases more with
  | true =>
    cases h
    exact .inl ⟨rfl, rfl⟩
  | false =>
    cases h
    exact .inr ⟨rfl, rfl⟩

theorem turn_of_iterate {body : List Node} {stepped : Bool} {index limit : Value}
    {forwards running : Bool} {f : Frame} (hframes : m.frames = f :: fs)
    (h : (iterate body stepped index limit forwards running).on m = (.ok (), m')) :
    Turn fs (.counted body stepped index limit forwards running) m.returns m'.frames
      m'.returns := by
  cases running with
  | false =>
    rw [iterate_first] at h
    rcases turn_of_visit h with ⟨hf, hr⟩ | ⟨hf, hr⟩
    · rw [hf, hr, hframes]
      exact .first
    · rw [hf, hr, hframes]
      exact .done rfl
  | true =>
    rw [iterate_next] at h
    obtain ⟨index', m₁, hnext, h⟩ := on_bind_eq_ok h
    obtain ⟨hf₁, v, hr₁⟩ := returns_of_nextIndex hnext
    rw [setFrame, on_modify_bind] at h
    rw [hr₁]
    rcases turn_of_visit h with ⟨hf, hr⟩ | ⟨hf, hr⟩
    · rw [hf, hr, List.tail_cons, hf₁, hframes]
      exact .next index'
    · rw [hf, hr, List.tail_cons, hf₁, hframes]
      exact .leave

theorem turn_of_repeatBody {body : List Node} {running : Bool} {f : Frame}
    (hframes : m.frames = f :: fs) (h : (repeatBody body running).on m = (.ok (), m')) :
    Turn fs (.indefinite body running) m.returns m'.frames m'.returns := by
  have hround (finished : Bool) {m₁ : Machine}
      (hkept : m₁.frames = m.frames ∧ m₁.returns = m.returns)
      (h : (if finished then dropFrame
        else do
          setFrame (.indefinite body true)
          pushFrame (.sequence body)).on m₁ = (.ok (), m')) :
      Turn fs (.indefinite body running) m.returns m'.frames m'.returns := by
    have htail : m₁.frames.tail = fs := by rw [hkept.1, hframes, List.tail_cons]
    rw [← hkept.2]
    cases finished with
    | true =>
      cases h
      rw [← htail]
      exact .done rfl
    | false =>
      cases h
      rw [← htail]
      exact .again
  cases running with
  | false => exact hround false ⟨rfl, rfl⟩ h
  | true =>
    obtain ⟨v, m₁, hpop, h⟩ := on_bind_eq_ok h
    exact hround _ (kept_of_contained pop_contained hpop) h

private theorem turn_of_enter {n : Node} {rest : List Node} {g : Frame} (hindex : g.index? = none)
    (hnodes : ∀ ok, Hereditary ok → ok (n :: rest) → ok g.nodes) {r : Stack}
    (hm : m.frames = .sequence rest :: fs ∧ m.returns = r)
    (h : (pushFrame g).on m = (.ok (), m')) :
    Turn fs (.sequence (n :: rest)) r m'.frames m'.returns := by
  cases h
  change Turn fs _ r (g :: m.frames) m.returns
  rw [hm.1, hm.2]
  exact .enter hindex hnodes

private theorem turn_of_word {w : Word} {rest : List Node} {r : Stack}
    (hm : m.frames = .sequence rest :: fs ∧ m.returns = r)
    (hspares : ∀ name c, w = .native name c → c.sparesReturns = true)
    (h : (word w).on m = (.ok (), m')) :
    Turn fs (.sequence (.action w :: rest)) r m'.frames m'.returns := by
  cases w with
  | native name c =>
    have hkept := kept_of_contained (native_contained name (hspares name c rfl)) h
    rw [hkept.1, hkept.2, hm.1, hm.2]
    exact .word
  | definition name body permanent =>
    exact turn_of_enter (g := .sequence body) rfl (fun _ hok hn => hok.call hn) hm h
  | control c => cases h
  | stray shown => cases h

private theorem turn_of_node {n : Node} {rest : List Node} {r : Stack}
    (hm : m.frames = .sequence rest :: fs ∧ m.returns = r)
    (hspares : ∀ name c, n = .action (.native name c) → c.sparesReturns = true)
    (h : (node n).on m = (.ok (), m')) :
    Turn fs (.sequence (n :: rest)) r m'.frames m'.returns := by
  unfold node at h
  rw [on_modify_bind] at h
  generalize hstarted : ({ m with steps := m.steps + 1 } : Machine) = m₁ at h
  have hm₁ : m₁.frames = .sequence rest :: fs ∧ m₁.returns = r := by
    subst hstarted
    exact hm
  cases n with
  | action w => exact turn_of_word hm₁ (fun name c hw => hspares name c (hw ▸ rfl)) h
  | conditional consequent alternative =>
    obtain ⟨v, m₂, hpop, h⟩ := on_bind_eq_ok h
    have hkept := kept_of_contained pop_contained hpop
    refine turn_of_enter rfl ?_ ⟨hkept.1.trans hm₁.1, hkept.2.trans hm₁.2⟩ h
    intro ok hok hn
    change ok (if v.same (.int 0) then alternative else consequent)
    split
    · exact (hok.branches hn).2
    · exact (hok.branches hn).1
  | counted body stepped =>
    obtain ⟨start, m₂, hstart, h⟩ := on_bind_eq_ok h
    obtain ⟨limit, m₃, hlimit, h⟩ := on_bind_eq_ok h
    obtain ⟨forwards, m₄, hforwards, h⟩ := on_bind_eq_ok h
    have hkept₂ := kept_of_contained pop_contained hstart
    have hkept₃ := kept_of_contained pop_contained hlimit
    have hkept₄ := kept_of_contained (Contained.lift _) hforwards
    have hm₄ : m₄.frames = .sequence rest :: fs ∧ m₄.returns = r := by
      rw [hkept₄.1, hkept₄.2, hkept₃.1, hkept₃.2, hkept₂.1, hkept₂.2]
      exact hm₁
    exact turn_of_enter (g := .counted body stepped start limit forwards false) rfl
      (fun _ hok hn => hok.counted hn) hm₄ h
  | indefinite body =>
    exact turn_of_enter (g := .indefinite body false) rfl (fun _ hok hn => hok.indefinite hn) hm₁ h

theorem turn_of_advance {f : Frame} (hframes : m.frames = f :: fs)
    (hspares : ∀ name c, f.native? = some (name, c) → c.sparesReturns = true)
    (h : (advance f).on m = (.ok (), m')) : Turn fs f m.returns m'.frames m'.returns := by
  cases f with
  | sequence rest =>
    cases rest with
    | nil =>
      cases h
      change Turn fs _ m.returns m.frames.tail m.returns
      rw [hframes]
      exact .done rfl
    | cons n rest =>
      have hmoved : (node n).on { m with frames := .sequence rest :: fs } = (.ok (), m') := by
        rw [advance, setFrame, on_modify_bind, hframes] at h
        exact h
      exact turn_of_node (m := { m with frames := .sequence rest :: fs }) ⟨rfl, rfl⟩
        (fun name c hn => hspares name c (by rw [hn]; rfl)) hmoved
  | counted body stepped index limit forwards running => exact turn_of_iterate hframes h
  | indefinite body running => exact turn_of_repeatBody hframes h

end Turns

/-- A turn puts a value on the return stack when a loop gets an index, and takes one when a loop
loses its index. When a loop ends an iteration, its index comes first: the frames within the loop
are done, and with them the loops that they ran. -/
theorem Turn.indices {fs frames' : List Frame} {f : Frame} {r r' : Stack}
    {P : List Value → Stack → Prop} (hturn : Turn fs f r frames' r')
    (hpush : ∀ ⦃is r⦄ v, P is r → P (v :: is) (r.push v))
    (hpop : ∀ ⦃is r v w⦄, P (v :: is) (r.push w) → P is r)
    (h : P ((f :: fs).filterMap Frame.index?) r) : P (frames'.filterMap Frame.index?) r' := by
  cases hturn with
  | word => exact h
  | enter hindex _ =>
    rw [List.filterMap_cons_none hindex]
    exact h
  | done hindex =>
    rw [List.filterMap_cons_none hindex] at h
    exact h
  | first => exact hpush _ h
  | next index' => exact hpush index' (hpop h)
  | leave => exact hpop h
  | again => exact h

/-- The return stack holds the indices of the running loops on top of a base. -/
structure Indexed (base : Stack) (frames : List Frame) (r : Stack) : Prop where
  name : r.name = base.name
  items : r.items = frames.filterMap Frame.index? ++ base.items

/-- A turn keeps the indices on the return stack. -/
theorem Turn.indexed {fs frames' : List Frame} {f : Frame} {r r' base : Stack}
    (hturn : Turn fs f r frames' r') (h : Indexed base (f :: fs) r) : Indexed base frames' r' := by
  have hkept : r'.name = base.name ∧ r'.items = frames'.filterMap Frame.index? ++ base.items :=
    hturn.indices (P := fun indices r => r.name = base.name ∧ r.items = indices ++ base.items)
      (fun _ _ v h => ⟨h.1, congrArg (v :: ·) h.2⟩) (fun _ _ _ _ h => ⟨h.1, (List.cons.inj h.2).2⟩)
      ⟨h.name, h.items⟩
  exact ⟨hkept.1, hkept.2⟩

private theorem Indexed.eq_base {base r : Stack} (h : Indexed base [] r) : r = base := by
  obtain ⟨name, items⟩ := r
  cases h.name
  cases h.items
  rfl

private theorem Indexed.peek {base r : Stack} {frames : List Frame} (h : Indexed base frames r)
    {depth : Nat} {v : Value} (hv : (frames.filterMap Frame.index?)[depth]? = some v) :
    r.peek (depth + 1 : Nat) = .ok v := by
  have hdepth : r.items[depth]? = some v := by
    rw [h.items, List.getElem?_append_left (List.getElem?_eq_some_iff.mp hv).1, hv]
  have hoffset : ¬((depth + 1 : Nat) : Int) < 1 := by omega
  rw [Stack.peek, if_neg hoffset]
  simp [hdepth]

/-- The nodes that are run after a turn stood within those that were run before. -/
theorem Turn.nodes {fs frames' : List Frame} {f : Frame} {r r' : Stack}
    (hturn : Turn fs f r frames' r') {ok : List Node → Prop} (hok : Hereditary ok)
    (h : ∀ g ∈ f :: fs, ok g.nodes) : ∀ g ∈ frames', ok g.nodes := by
  have hf : ok f.nodes := h f List.mem_cons_self
  have hfs : ∀ g ∈ fs, ok g.nodes := fun g hg => h g (List.mem_cons_of_mem f hg)
  cases hturn with
  | word => exact List.forall_mem_cons.mpr ⟨hok.rest hf, hfs⟩
  | enter _ hnodes =>
    exact List.forall_mem_cons.mpr ⟨hnodes ok hok hf, List.forall_mem_cons.mpr ⟨hok.rest hf, hfs⟩⟩
  | done | leave => exact hfs
  | first | next | again =>
    exact List.forall_mem_cons.mpr ⟨hf, List.forall_mem_cons.mpr ⟨hf, hfs⟩⟩

/-- The machines between the turns of frames that were started on a machine without any. While the
line is suspended, the host does what it likes with the rest of the machine. -/
inductive Executes (start : Machine) (body : List Node) : Machine → Prop where
  | started (hframes : start.frames = []) :
      Executes start body { start with frames := [.sequence body] }
  | turned {m m' : Machine} {f : Frame} {fs : List Frame} (hm : Executes start body m)
      (hframes : m.frames = f :: fs) (hpaused : m.paused = false)
      (hturn : (advance f).on m = (.ok (), m')) : Executes start body m'
  | awaited {m m' : Machine} (hm : Executes start body m) (hpaused : m.paused = true)
      (hframes : m'.frames = m.frames) (hreturns : m'.returns = m.returns) :
      Executes start body m'

section Executions

variable {start m m' : Machine} {body : List Node}

private theorem native?_within {ok : Code → Prop} {f : Frame} (h : NodesWithin ok f.nodes)
    {name : String} {c : Code} (hc : f.native? = some (name, c)) : ok c := by
  obtain ⟨rest, rfl⟩ := sequence_of_native hc
  exact h c List.mem_cons_self

private theorem Executes.indexed (hbody : NodesWithin (fun c => c.sparesReturns = true) body)
    (h : Executes start body m) :
    Indexed start.returns m.frames m.returns ∧
      ∀ f ∈ m.frames, NodesWithin (fun c => c.sparesReturns = true) f.nodes := by
  induction h with
  | started hframes =>
    refine ⟨⟨rfl, rfl⟩, ?_⟩
    intro f hf
    rw [List.mem_singleton.mp hf]
    exact hbody
  | turned _ hframes _ hturn ih =>
    rw [hframes] at ih
    have hmoves := turn_of_advance hframes
      (fun _ _ hc => native?_within (ih.2 _ List.mem_cons_self) hc) hturn
    exact ⟨hmoves.indexed ih.1, hmoves.nodes hereditary_within ih.2⟩
  | awaited _ _ hframes hreturns ih =>
    rw [hframes, hreturns]
    exact ih

private theorem Executes.run (h : Executes start body m) {fuel : Nat} {done : Bool}
    (hrun : (run fuel).on m = (.ok done, m')) :
    Executes start body m' ∧ (done = true → m'.frames = []) := by
  induction fuel generalizing m with
  | zero => cases hrun
  | succ fuel ih =>
    rw [Run.run, on_get_bind] at hrun
    cases hframes : m.frames with
    | nil =>
      simp only [hframes] at hrun
      cases hrun
      exact ⟨h, fun _ => hframes⟩
    | cons f fs =>
      simp only [hframes] at hrun
      cases hpaused : m.paused with
      | true =>
        rw [hpaused, if_pos rfl] at hrun
        cases hrun
        exact ⟨h, fun hdone => by cases hdone⟩
      | false =>
        rw [hpaused, if_neg (by simp)] at hrun
        obtain ⟨_, m₁, hturn, hrun⟩ := on_bind_eq_ok hrun
        exact ih (h.turned hframes hpaused hturn) hrun

end Executions

def indexWords : List (String × Nat) := [("i", 0), ("j", 1)]

private theorem code_of_indexWord {name : String} {depth : Nat} (h : (name, depth) ∈ indexWords)
    {w : Word} (hw : (name, w) ∈ Builtin.installed) :
    w = .native name (.task (.copyReturn (depth + 1))) := by
  have hfound (name : String) (depth : Nat)
      (hall : Builtin.installed.filter (fun e => e.1 == name) =
        [(name, .native name (.task (.copyReturn (depth + 1))))])
      {w : Word} (hw : (name, w) ∈ Builtin.installed) :
      w = .native name (.task (.copyReturn (depth + 1))) := by
    have hmem : (name, w) ∈ Builtin.installed.filter (fun e => e.1 == name) := by
      simp [hw]
    rw [hall] at hmem
    exact congrArg Prod.snd (List.mem_singleton.mp hmem)
  rcases List.mem_cons.mp h with h | h
  · cases h
    exact hfound "i" 0 rfl hw
  · cases List.mem_singleton.mp h
    exact hfound "j" 1 rfl hw

/-- As long as no word moves values to the return stack or from it, as all builtin words but `>r`
and `r>`, the return stack holds what it held at the start, and on top of it the indices of the
running loops, the outermost first. So `i` gives the index of the innermost loop and `j` that of the
one around it. -/
theorem returns_hold_loop_indices {start m : Machine} {body : List Node}
    (hbody : NodesWithin (fun c => c.sparesReturns = true) body) (h : Executes start body m) :
    (∀ e ∈ Builtin.installed, e.1 ≠ ">r" → e.1 ≠ "r>" →
      e.2.Within fun c => c.sparesReturns = true) ∧
    m.returns.name = start.returns.name ∧
    m.returns.toList = start.returns.toList ++ m.loopIndices.reverse ∧
    (∀ name depth w v rest fs, (name, depth) ∈ indexWords → (name, w) ∈ Builtin.installed →
      m.loopIndices[depth]? = some v → m.frames = .sequence (.action w :: rest) :: fs →
      ∃ m', (advance (.sequence (.action w :: rest))).on m = (.ok (), m') ∧
        m'.stack = m.stack.push v) ∧
    (m.frames = [] → m.returns = start.returns) ∧
    ∀ fuel m', (run fuel).on m = (.ok true, m') → m'.frames = [] ∧ m'.returns = start.returns := by
  have hindexed := (h.indexed hbody).1
  have hrestored {m : Machine} (h : Executes start body m) (hframes : m.frames = []) :
      m.returns = start.returns := by
    have hindexed := (h.indexed hbody).1
    rw [hframes] at hindexed
    exact hindexed.eq_base
  refine ⟨builtin_spares_returns, hindexed.name, ?_, ?_, hrestored h, ?_⟩
  · simp [Stack.toList, hindexed.items, Machine.loopIndices]
  · intro name depth w v rest fs hname hw hv hframes
    cases code_of_indexWord hname hw
    have htask : (code (.task (.copyReturn (depth + 1)))).on
        { m with frames := .sequence rest :: m.frames.tail, steps := m.steps + 1 } =
        (.ok (), { m with
          frames := .sequence rest :: m.frames.tail
          steps := m.steps + 1
          stack := m.stack.push v }) := by
      rw [code, task, on_get_bind]
      dsimp only
      rw [hindexed.peek hv]
      rfl
    refine ⟨_, (advance_native _ _ _ _).trans (native_of_ok _ htask), rfl⟩
  · intro fuel m' hrun
    obtain ⟨hm', hdone⟩ := h.run hrun
    exact ⟨hdone rfl, hrestored hm' (hdone rfl)⟩

def primed : Machine where
  stack := .ofList "Stack" [.int 2, .int 0]
  returns := .ofList "Return Stack" [.int 7]

def indexLoop : List Node := [.counted [.action (.native "i" (.task (.copyReturn 1)))] false]

def primedLooping : Machine :=
  { primed with
    stack := .ofList "Stack" []
    returns := .ofList "Return Stack" [.int 7, .int 0]
    frames := [.sequence [.action (.native "i" (.task (.copyReturn 1)))],
      .counted [.action (.native "i" (.task (.copyReturn 1)))] false (.int 0) (.int 2) true true,
      .sequence []]
    steps := 1 }

theorem primed_holds_index :
    Executes primed indexLoop primedLooping ∧ primedLooping.loopIndices = [.int 0] ∧
    primedLooping.returns.toList = primed.returns.toList ++ [.int 0] ∧
    ∃ m', (run 20).on primedLooping = (.ok true, m') ∧ m'.returns = primed.returns := by
  have hbody : NodesWithin (fun c => c.sparesReturns = true) indexLoop := by
    intro c hc
    cases List.mem_singleton.mp hc
    rfl
  have hfirst : (advance (.sequence indexLoop)).on { primed with frames := [.sequence indexLoop] } =
      (.ok (), { primed with
        stack := .ofList "Stack" []
        frames := [.counted [.action (.native "i" (.task (.copyReturn 1)))] false
          (.int 0) (.int 2) true false, .sequence []]
        steps := 1 }) := by rfl
  have hexecutes : Executes primed indexLoop primedLooping :=
    ((Executes.started rfl).turned rfl rfl hfirst).turned rfl rfl (by rfl)
  obtain ⟨-, -, hreturns, -, -, hrun⟩ := returns_hold_loop_indices hbody hexecutes
  have hdone : ((run 20).on primedLooping).1 = .ok true := rfl
  generalize hend : (run 20).on primedLooping = ended at hdone
  obtain ⟨result, m'⟩ := ended
  cases hdone
  exact ⟨hexecutes, rfl, hreturns, m', rfl, (hrun 20 m' hend).2⟩

end Run

end Forthline
