import Forthline.Proofs.Reachable
import Forthline.Proofs.ReturnStack

/-!
# The return stack after a failure

A line that fails cuts the return stack back to the depth it had when the line was read. Whatever
the line has put on top is gone then: the indices of the loops it was in, and the values it moved
there. What it took from below does not come back.
-/

namespace Forthline

namespace Stack

theorem toList_truncate (s : Stack) (depth : Nat) :
    (s.truncate depth).toList = s.toList.take depth := by
  have hkept : (if (0 : Int) ≤ depth then (depth : Int).toNat
      else ((s.depth : Int) + depth).toNat) = depth := by
    rw [if_pos (Int.natCast_nonneg depth), Int.toNat_natCast]
  unfold truncate toList
  dsimp only
  rw [hkept, List.reverse_drop, Stack.depth]
  by_cases h : depth ≤ s.items.length
  · rw [Nat.sub_sub_self h]
  · rw [List.take_of_length_le (by simp; omega), List.take_of_length_le (by simp; omega)]

theorem depth_eq_length_toList (s : Stack) : s.depth = s.toList.length := by
  rw [toList, List.length_reverse, depth]

theorem depth_truncate_eq_iff (s : Stack) (depth : Nat) :
    (s.truncate depth).depth = depth ↔ depth ≤ s.depth := by
  rw [depth_eq_length_toList, toList_truncate, List.length_take, ← depth_eq_length_toList]
  omega

structure Bears (base : Stack) (count : Nat) (s : Stack) : Prop where
  name : s.name = base.name
  items : ∃ top, s.items = top ++ base.items ∧ count ≤ top.length

namespace Bears

variable {base s : Stack} {count : Nat}

theorem refl (base : Stack) : base.Bears 0 base := ⟨rfl, [], rfl, Nat.le_refl 0⟩

theorem mono (h : base.Bears count s) {least : Nat} (hle : least ≤ count) : base.Bears least s := by
  obtain ⟨top, htop, hcount⟩ := h.items
  exact ⟨h.name, top, htop, Nat.le_trans hle hcount⟩

theorem push (h : base.Bears count s) (v : Value) : base.Bears (count + 1) (s.push v) := by
  obtain ⟨top, htop, hcount⟩ := h.items
  exact ⟨h.name, v :: top, congrArg (v :: ·) htop, Nat.succ_le_succ hcount⟩

theorem of_push {v : Value} (h : base.Bears (count + 1) (s.push v)) : base.Bears count s := by
  obtain ⟨top, htop, hcount⟩ := h.items
  cases top with
  | nil => cases hcount
  | cons w top => exact ⟨h.name, top, (List.cons.inj htop).2, Nat.le_of_succ_le_succ hcount⟩

theorem truncate (h : base.Bears count s) : s.truncate base.depth = base := by
  obtain ⟨top, htop, -⟩ := h.items
  have hsame : (s.truncate base.depth).toList = base.toList := by
    rw [toList_truncate, toList, htop, List.reverse_append, depth_eq_length_toList]
    exact List.take_left
  have hitems := List.reverse_inj.mp hsame
  have hname : (s.truncate base.depth).name = base.name := h.name
  generalize s.truncate base.depth = t at hitems hname
  obtain ⟨name, items⟩ := t
  obtain ⟨name', items'⟩ := base
  dsimp only at hname hitems
  rw [hname, hitems]

end Bears

end Stack

/-- The line of a machine is suspended, and the host does what it likes in the meantime, but leaves
alone what belongs to the line. -/
structure Machine.Awaits (m n : Machine) : Prop where
  paused : m.paused = true
  line : n.line = m.line
  frames : n.frames = m.frames
  returns : n.returns = m.returns

/-- The word `r>` is next: it takes a value from the return stack. -/
def Machine.TakesReturn (m : Machine) : Prop :=
  m.paused = false ∧
    ∃ f fs name, m.frames = f :: fs ∧ f.native? = some (name, .task .fromReturn)

namespace Run

variable {m m' : Machine}

/-- The return stack holds a value for each of the running loops on top of a base. -/
def Laden (base : Stack) (m : Machine) : Prop := base.Bears m.loopIndices.length m.returns

section Tokens

variable {α : Type} {base : Stack}

private theorem Contained.laden {p : Run α} (hp : Contained p) : Keeps (Laden base) p :=
  Keeps.of_on fun m hm => by
    obtain ⟨-, hframes, hreturns, -⟩ := hp m
    rw [Laden, Machine.loopIndices, hframes, hreturns]
    exact hm

private theorem redirect_contained (mode : Mode) (name target : String) (permanent : Bool) :
    Contained (redirect mode name target permanent) := by
  cases mode with
  | following => exact redefine_contained _ _ _
  | capturing =>
    exact Contained.get_bind fun m => (Contained.lift _).bind fun w => redefine_contained _ _ _

private theorem redefinition_contained (permanent : Bool) (name : Token) :
    Contained (redefinition permanent name) := by
  have hother : Contained (if permanent then fail .tildeForm else pure false : Run Bool) :=
    Contained.ite _ (Contained.fail _) (Contained.pure _)
  refine peekToken_contained.bind fun form => ?_
  cases form with
  | none => exact hother
  | some form =>
    dsimp only
    cases redefinitionMode? form with
    | none => exact hother
    | some mode =>
      refine nextToken_contained.discard.bind fun _ => nextToken_contained.bind fun target => ?_
      cases target with
      | none => exact Contained.fail _
      | some target => exact (redirect_contained _ _ _ _).bind fun _ => Contained.pure _

private theorem tryRedefinition_contained (t : Token) : Contained (tryRedefinition t) := by
  rw [tryRedefinition_eq]
  refine Contained.ite _ (nextToken_contained.bind fun name => ?_) (redefinition_contained _ _)
  cases name with
  | none => exact Contained.fail _
  | some name => exact redefinition_contained _ _

private theorem meaning_contained (t : Token) : Contained (meaning t) := by
  refine Contained.ite _ (Contained.pure _) (Contained.get_bind fun m => ?_)
  refine (Contained.lift _).bind fun w => ?_
  cases w with
  | some w => exact Contained.pure _
  | none =>
    dsimp only
    cases Numeral.read? t.value with
    | some n => exact Contained.pure _
    | none => exact (reportText_contained _ _ _).bind fun _ => Contained.pure _

private theorem expectName_contained (code : String) : Contained (expectName code) := by
  refine nextToken_contained.bind fun t => ?_
  cases t with
  | none => exact Contained.fail _
  | some t => exact Contained.pure _

private theorem defining_contained {w : Word} {code : String} {act : String → Run Unit}
    (h : defining? w = some (code, act)) (name : String) : Contained (act name) := by
  unfold defining? at h
  split at h
  · cases h
    refine Contained.get_bind fun m => (Contained.lift _).bind fun r => ?_
    exact Contained.modify_bind ((reportText_contained _ _ _).bind fun _ =>
      addWord_contained _ _ _) fun _ => ⟨rfl, rfl, rfl⟩
  · cases h
    exact pop_contained.bind fun v => (reportText_contained _ _ _).bind fun _ =>
      addWord_contained _ _ _
  · cases h
    exact (reportText_contained _ _ _).bind fun _ => Contained.modify fun _ => ⟨rfl, rfl, rfl⟩
  · cases h

private theorem compileWord_contained (p : Pending) (w : Word) : Contained (compileWord p w) := by
  unfold compileWord
  split
  · refine Contained.modify_bind ((Contained.lift _).bind fun body => ?_) fun _ => ⟨rfl, rfl, rfl⟩
    exact (addWord_contained _ _ _).bind fun _ => reportText_contained _ _ _
  · exact Contained.modify fun _ => ⟨rfl, rfl, rfl⟩

private theorem readAs_contained (t : Token) : Contained (readAs t) := by
  refine (meaning_contained t).bind fun w => ?_
  cases w with
  | none => exact Contained.pure _
  | some w =>
    refine Contained.get_bind fun m => ?_
    cases m.pending with
    | some p => exact (compileWord_contained p w).bind fun _ => Contained.pure _
    | none =>
      dsimp only
      unfold enact
      split
      · rename_i code act h
        exact (expectName_contained code).bind fun name =>
          (defining_contained h name).bind fun _ => Contained.pure _
      · exact Contained.pure _

theorem interpret_contained (t : Token) : Contained (interpret t) := by
  rw [interpret_eq]
  refine Contained.get_bind fun m => Contained.ite _ ?_ (readAs_contained t)
  exact (tryRedefinition_contained t).bind fun handled =>
    Contained.ite _ (Contained.pure _) (readAs_contained t)

private theorem takeToken_laden : Keeps (Laden base) takeToken := by
  have hrecord (t : Token) : Contained (recordToken t) :=
    Contained.modify fun _ => ⟨rfl, rfl, rfl⟩
  refine takeToken_within nextToken_contained.laden (fun t => (interpret_contained t).laden)
    (fun t => (hrecord t).laden) (fun _ _ _ _ _ _ _ => trivial) fun w _ => ?_
  exact Keeps.modify fun _ hm => hm

end Tokens

section Failures

variable {α β : Type} {s : Stop}

def FailsAside (p : Run α) : Prop :=
  ∀ ⦃m s m'⦄, p.on m = (.error s, m') → m'.returns = m.returns

private theorem FailsAside.after {p : Run α} {k : α → Run β}
    (hp : ∀ m, (p.on m).2.returns = m.returns) (hk : ∀ a, FailsAside (k a)) :
    FailsAside (p >>= k) := by
  intro m s m' h
  have hfirst := hp m
  rw [on_bind] at h
  rcases hm : p.on m with ⟨s' | a, n⟩
  · rw [hm] at h hfirst
    cases h
    exact hfirst
  · rw [hm] at h hfirst
    exact (hk a h).trans hfirst

private theorem Contained.failsAside {p : Run α} (hp : Contained p) : FailsAside p :=
  fun _ _ _ h => (kept_of_contained hp h).2

private theorem Contained.andThen {p : Run α} {k : α → Run β} (hp : Contained p)
    (hk : ∀ a, FailsAside (k a)) : FailsAside (p >>= k) :=
  FailsAside.after (fun m => (hp m).2.2.1) hk

private theorem node_failsAside {n : Node}
    (hspares : ∀ name c, n = .action (.native name c) → c.sparesReturns = true) :
    FailsAside (node n) := by
  have hpush (f : Frame) : FailsAside (pushFrame f) := fun _ _ _ h => by cases h
  refine FailsAside.after (fun _ => rfl) fun _ => ?_
  cases n with
  | action w =>
    cases w with
    | native name c => exact (native_contained name (hspares name c rfl)).failsAside
    | definition name body permanent => exact hpush _
    | control c => exact (Contained.fail _).failsAside
    | stray shown => exact (Contained.fail _).failsAside
  | conditional consequent alternative => exact pop_contained.andThen fun _ => hpush _
  | counted body stepped =>
    exact pop_contained.andThen fun _ => pop_contained.andThen fun _ =>
      (Contained.lift _).andThen fun _ => hpush _
  | indefinite body => exact hpush _

private theorem visit_failsAside (body : List Node) (stepped : Bool) (index limit : Value)
    (forwards : Bool) : FailsAside (visit body stepped index limit forwards) := by
  refine (Contained.lift _).andThen fun more => ?_
  cases more with
  | true => exact fun _ _ _ h => by cases h
  | false => exact fun _ _ _ h => by cases h

private theorem popReturn_failsAside : FailsAside popReturn := by
  intro m s m' h
  rw [popReturn, on_get_bind] at h
  cases hpop : m.returns.pop with
  | error c =>
    rw [hpop] at h
    cases h
    rfl
  | ok r =>
    rw [hpop] at h
    cases h

private theorem repeatBody_failsAside (body : List Node) (running : Bool) :
    FailsAside (repeatBody body running) := by
  have hround (finished : Bool) : FailsAside (if finished then dropFrame
      else do
        setFrame (.indefinite body true)
        pushFrame (.sequence body) : Run Unit) := by
    cases finished with
    | true => exact fun _ _ _ h => by cases h
    | false => exact fun _ _ _ h => by cases h
  cases running with
  | false => exact hround false
  | true => exact pop_contained.andThen fun v => hround (v.same (.int (-1)))

private theorem returns_of_failed_iterate {body : List Node} {stepped : Bool}
    {index limit : Value} {forwards running : Bool}
    (h : (iterate body stepped index limit forwards running).on m = (.error s, m')) :
    m'.returns = m.returns ∨ running = true ∧ ∃ v, m.returns = m'.returns.push v := by
  cases running with
  | false =>
    rw [iterate_first] at h
    exact .inl (visit_failsAside _ _ _ _ _ h)
  | true =>
    rw [iterate_next, nextIndex, bind_assoc, discard_bind, on_bind] at h
    rcases hpop : popReturn.on m with ⟨s' | v, n⟩
    · rw [hpop] at h
      cases h
      exact .inl (popReturn_failsAside hpop)
    · rw [hpop] at h
      refine .inr ⟨rfl, v, ?_⟩
      rw [(returns_of_popReturn hpop).2]
      refine congrArg (Stack.push · v) (Eq.symm ?_)
      have hindex : Contained (do
          let step ← if stepped then pop else pure (.int 1)
          lift (Value.add "+=" index step)) := by
        cases stepped with
        | false => exact Contained.lift _
        | true => exact pop_contained.bind fun _ => Contained.lift _
      refine hindex.andThen (fun index => ?_) h
      exact FailsAside.after (fun _ => rfl) fun _ => visit_failsAside _ _ _ _ _

private theorem returns_of_failed_advance {f : Frame}
    (hspares : ∀ name c, f.native? = some (name, c) → c.sparesReturns = true)
    (h : (advance f).on m = (.error s, m')) :
    m'.returns = m.returns ∨ f.index?.isSome ∧ ∃ v, m.returns = m'.returns.push v := by
  cases f with
  | sequence rest =>
    cases rest with
    | nil => cases h
    | cons n rest =>
      refine .inl ?_
      have hnode : FailsAside (node n) :=
        node_failsAside fun name c hn => hspares name c (by rw [hn]; rfl)
      exact FailsAside.after (p := setFrame (.sequence rest)) (fun _ => rfl) (fun _ => hnode) h
  | counted body stepped index limit forwards running =>
    rcases returns_of_failed_iterate h with hsame | ⟨rfl, hpopped⟩
    · exact .inl hsame
    · exact .inr ⟨rfl, hpopped⟩
  | indefinite body running => exact .inl (repeatBody_failsAside _ _ h)

end Failures

section Turns

variable {base : Stack}

/-- After a turn the return stack holds a value for each of the running loops on top of the base.
After one that failed it holds at least the base. -/
def LadenAfter {α : Type} (base : Stack) : Except Stop α × Machine → Prop
  | (.ok _, m) => Laden base m
  | (.error _, m) => base.Bears 0 m.returns

private theorem Laden.after {α : Type} {o : Except Stop α × Machine} (h : Laden base o.2) :
    LadenAfter base o := by
  obtain ⟨s | a, m⟩ := o
  · exact h.mono (Nat.zero_le _)
  · exact h

private theorem laden_of_sparing {f : Frame} {fs : List Frame} (hframes : m.frames = f :: fs)
    (hspares : ∀ name c, f.native? = some (name, c) → c.sparesReturns = true)
    (h : Laden base m) : LadenAfter base ((advance f).on m) := by
  rw [Laden, Machine.loopIndices, hframes] at h
  rcases ha : (advance f).on m with ⟨s | u, m'⟩
  · change base.Bears 0 m'.returns
    rcases returns_of_failed_advance hspares ha with hsame | ⟨hindex, v, hpopped⟩
    · rw [hsame]
      exact h.mono (Nat.zero_le _)
    · obtain ⟨index, hindex⟩ := Option.isSome_iff_exists.mp hindex
      rw [List.filterMap_cons_some hindex, hpopped] at h
      exact h.of_push.mono (Nat.zero_le _)
  · exact (turn_of_advance hframes hspares ha).indices
      (P := fun indices r => base.Bears indices.length r)
      (fun _ _ v h => h.push v) (fun _ _ _ _ h => h.of_push) h

private theorem laden_of_toReturn {name : String} {rest : List Node} {fs : List Frame}
    (hframes : m.frames = .sequence (.action (.native name (.task .toReturn)) :: rest) :: fs)
    (h : Laden base m) :
    LadenAfter base
      ((advance (.sequence (.action (.native name (.task .toReturn)) :: rest))).on m) := by
  refine Laden.after ?_
  rw [advance_native, (native_on name _ _).1, code, task, on_bind]
  generalize hmoved : Machine.mk .. = m₁
  have hm₁ : Laden base m₁ := by
    rw [Laden, Machine.loopIndices, hframes] at h
    rw [← hmoved, Laden, Machine.loopIndices, hframes]
    exact h
  have hpop := pop_contained.laden.on hm₁
  rcases hr : pop.on m₁ with ⟨s | v, n⟩
  · rw [hr] at hpop
    exact hpop
  · rw [hr] at hpop
    exact (Stack.Bears.push hpop v).mono (Nat.le_succ _)

private theorem laden_of_advance {f : Frame} {fs : List Frame} (hframes : m.frames = f :: fs)
    (htakes : ∀ name, f.native? ≠ some (name, .task .fromReturn)) (h : Laden base m) :
    LadenAfter base ((advance f).on m) := by
  by_cases hto : ∃ name, f.native? = some (name, .task .toReturn)
  · obtain ⟨name, hto⟩ := hto
    obtain ⟨rest, rfl⟩ := sequence_of_native hto
    exact laden_of_toReturn hframes h
  · refine laden_of_sparing hframes (fun name c hc => ?_) h
    unfold Code.sparesReturns
    split
    · exact absurd ⟨name, hc⟩ hto
    · exact absurd hc (htakes name)
    · rfl

theorem laden_of_turn (h : Laden base m) (htakes : ¬m.TakesReturn) :
    LadenAfter base (turn.on m) := by
  obtain hm | ⟨f, fs, hm⟩ | hm := ready_or_paused m
  · rw [turn_paused hm]
    exact h
  · have hadvance : LadenAfter base ((advance f).on m) :=
      laden_of_advance hm.2 (fun name hf => htakes ⟨hm.1, f, fs, name, hm.2, hf⟩) h
    rw [turn_frame hm, on_bind]
    rcases ha : (advance f).on m with ⟨s | u, m'⟩
    · rw [ha] at hadvance
      exact hadvance
    · rw [ha] at hadvance
      exact hadvance
  · rw [turn_token hm]
    exact (takeToken_laden.on h).after

private theorem bears_of_ends {f : Failure} {e : Machine} (hends : Ends m (.error f) e)
    (h : Laden base m) (htakes : ∀ n, Reaches m n → ¬n.TakesReturn) :
    base.Bears 0 e.returns := by
  generalize ho : (.error f : Except Failure Bool) = o at hends
  induction hends with
  | stop _ => cases ho
  | @fail m m' f' hturn =>
    have hafter := laden_of_turn h (htakes _ (.refl m))
    rw [hturn] at hafter
    exact hafter
  | @step m m₁ m' o hturn _ ih =>
    have hafter := laden_of_turn h (htakes _ (.refl m))
    rw [hturn] at hafter
    exact ih hafter (fun n hn => htakes n (.step hturn hn)) ho

end Turns

section Lines

private theorem turn_keeps {I : Machine → Prop} (hI : Carries I) : Keeps I turn := by
  refine Keeps.get_bind fun m _ => Matches.ite _ (Matches.pure _) ?_
  cases m.frames with
  | cons f fs => exact (hI.advance f).bind fun _ => Matches.pure _
  | nil => exact takeToken_matches hI.nextToken hI.interpret hI.recordToken hI.pushFrame

variable {start n : Machine} {text : String} {past : List Machine} {fuel : Nat} {r : LineResult}

/-- The machines between the turns of a line that is read on a given machine, with the machines of
the turns before, the latest first. -/
inductive Underway (start : Machine) (text : String) : List Machine → Machine → Prop where
  | begun {m : Machine} (hbegin : (beginLine text).on start = (.ok (), m)) :
      Underway start text [] { m with running := true }
  | turned {past : List Machine} {m m' : Machine} (hm : Underway start text past m)
      (hturn : turn.on m = (.ok none, m')) : Underway start text (m :: past) m'
  | roused {past : List Machine} {m n m' : Machine} {c : Nat} (hm : Underway start text past m)
      (hawaits : m.Awaits n) (hrouse : (rouse c).on n = (.ok true, m')) :
      Underway start text past { m' with running := true }

/-- The calls that give a result of the line: the one that reads it, and those that resume it. Given
are the machines of the turns before the call, the machine from which it goes on in turns, the
result and the machine that the call leaves. -/
inductive Answers (start : Machine) (text : String) (fuel : Nat) :
    List Machine → Machine → LineResult → Machine → Prop where
  | read {m m' : Machine} {r : LineResult} (hbegin : (beginLine text).on start = (.ok (), m))
      (hread : (readLine fuel text).on start = (.ok r, m')) :
      Answers start text fuel [] { m with running := true } r m'
  | resumed {past : List Machine} {m n m₁ m' : Machine} {c : Nat} {r : LineResult}
      (hm : Underway start text past m) (hawaits : m.Awaits n)
      (hrouse : (rouse c).on n = (.ok true, m₁))
      (hresume : (resume fuel c).on n = (.ok (some r), m')) :
      Answers start text fuel past { m₁ with running := true } r m'

theorem Answers.underway (h : Answers start text fuel past m r m') :
    Underway start text past m := by
  cases h with
  | read hbegin _ => exact .begun hbegin
  | resumed hm hawaits hrouse _ => exact .roused hm hawaits hrouse

private theorem Answers.ends (h : Answers start text fuel past m r m') :
    ∃ o e map, Ends m o e ∧ (continueLine fuel).on m = (o.mapError .failed, e) ∧
      r = Machine.result { e with running := false } map o ∧
      (Machine.concluded { e with running := false } map o).Logged m' := by
  obtain ⟨m₁, rfl, hdrive⟩ : ∃ m₁, m = { m₁ with running := true } ∧
      (drive fuel).on m₁ = (.ok r, m') := by
    cases h with
    | @read m₁ _ _ hbegin hread =>
      rw [readLine_eq, on_bind_ok hbegin] at hread
      exact ⟨m₁, rfl, hread⟩
    | @resumed _ _ _ m₁ _ _ _ _ _ hrouse hresume =>
      rw [resume_eq, on_bind_ok hrouse, if_pos rfl, ← bind_pure_comp] at hresume
      obtain ⟨r', _, hdrive, hpure⟩ := on_bind_eq_ok hresume
      cases hpure
      exact ⟨m₁, rfl, hdrive⟩
  have hfuel : ((drive fuel).on m₁).1 ≠ .error .exhausted := by
    rw [hdrive]
    exact nofun
  obtain ⟨o, e, hline, hconclude⟩ := drive_cases hfuel
  rw [hdrive] at hconclude
  cases hmap : e.memory.map with
  | error c =>
    obtain ⟨_, -, hfail⟩ := conclude_of_error (m := { e with running := false }) hmap o
    rw [hfail] at hconclude
    cases hconclude
  | ok map =>
    obtain ⟨_, hlogged, hok⟩ := conclude_of_map (m := { e with running := false }) hmap o
    rw [hok] at hconclude
    cases hconclude
    exact ⟨o, e, map, (continueLine_iff_ends _ _ _).mp ⟨fuel, hline⟩, hline, rfl, hlogged⟩

private theorem Underway.reaches (h : Underway start text past m) (hreaches : Reaches m n) :
    ∃ later, Underway start text (later ++ past) n := by
  induction hreaches generalizing past with
  | refl m => exact ⟨[], h⟩
  | @step m m₁ n hturn _ ih =>
    obtain ⟨later, hlater⟩ := ih (h.turned hturn)
    exact ⟨later ++ [m], by rwa [List.append_assoc]⟩

theorem Answers.suspended (h : Answers start text fuel past m r m') (hr : r.paused = true) :
    ∃ later n, Reaches m n ∧ Underway start text (later ++ past) n ∧ n.Awaits m' := by
  obtain ⟨o, e, map, hends, -, rfl, ⟨_, _, rfl⟩⟩ := h.ends
  rcases o with f | _ | _
  · cases hr
  · have hreaches := reaches_of_suspended hends
    obtain ⟨later, hlater⟩ := h.underway.reaches hreaches
    exact ⟨later, e, hreaches, hlater, hends.stopped, rfl, rfl, rfl⟩
  · cases hr

private theorem depth_invariant (depth : Nat) :
    Invariant fun m => m.line.map Line.returnDepth = some depth where
  work := fun _ _ h _ => h
  learn := fun _ _ _ _ _ h _ => h
  declare := fun _ _ _ _ h _ => h
  wake := fun _ _ h _ => h
  pause := fun _ h => h
  hold := fun _ h => h
  await := fun _ h => h
  touch := fun _ h => h
  sleep := fun _ _ h => h
  record := fun m _ h => by
    rw [Option.map_map]
    exact h
  rest := fun _ _ _ _ _ _ _ _ h => h

private theorem logged_of_rouse {c : Nat} (hline : n.line.isSome = true)
    (h : (rouse c).on n = (.ok true, m')) :
    Machine.Logged { n with spent := c :: n.spent, paused := false } m' := by
  cases hspent : n.spent.contains c with
  | true =>
    rw [rouse_of_spent hspent] at h
    cases h
  | false =>
    obtain ⟨line, hline⟩ := Option.isSome_iff_exists.mp hline
    rcases Bool.eq_false_or_eq_true n.running with hrunning | hrunning
    · rw [rouse, on_bind_ok (wake_of_fresh hspent), on_get_bind] at h
      simp only [hrunning] at h
      cases h
    · obtain ⟨_, hlogged, -, hok⟩ := rouse_of_line hspent hrunning hline
      rw [hok] at h
      cases h
      exact hlogged

private theorem Underway.depth (hidle : start.Idle) (h : Underway start text past m) :
    m.line.map Line.returnDepth = some start.returns.depth := by
  induction h with
  | begun hbegin =>
    obtain ⟨_, ⟨_, _, rfl⟩, -, hok⟩ := beginLine_of_free hidle.free text
    rw [hok] at hbegin
    cases hbegin
    rfl
  | @turned past m m' _ hturn ih =>
    have hkept := (turn_keeps (depth_invariant _).carries).on ih
    rw [hturn] at hkept
    exact hkept
  | @roused past m n m' c _ hawaits hrouse ih =>
    rw [← hawaits.line] at ih
    have hline : n.line.isSome = true := by
      rw [← Option.isSome_map, ih]
      rfl
    obtain ⟨_, _, rfl⟩ := logged_of_rouse hline hrouse
    exact ih

/-- Before a turn that takes a value from the return stack, what it held when the line was read is
still there, with a value for each of the running loops on top of it. -/
theorem Underway.laden (hidle : start.Idle) (h : Underway start text past m)
    (htakes : ∀ p ∈ past, ¬p.TakesReturn) : Laden start.returns m := by
  induction h with
  | begun hbegin =>
    obtain ⟨_, ⟨_, _, rfl⟩, -, hok⟩ := beginLine_of_free hidle.free text
    rw [hok] at hbegin
    cases hbegin
    change start.returns.Bears (start.frames.filterMap Frame.index?).length start.returns
    rw [hidle.frames]
    exact .refl _
  | @turned past m m' _ hturn ih =>
    obtain ⟨hm, hpast⟩ := List.forall_mem_cons.mp htakes
    have hafter := laden_of_turn (ih hpast) hm
    rw [hturn] at hafter
    exact hafter
  | @roused past m n m' c hm hawaits hrouse ih =>
    have hline : n.line.isSome = true := by
      rw [hawaits.line, ← Option.isSome_map, hm.depth hidle]
      rfl
    obtain ⟨_, _, rfl⟩ := logged_of_rouse hline hrouse
    change start.returns.Bears (n.frames.filterMap Frame.index?).length n.returns
    rw [hawaits.frames, hawaits.returns]
    exact ih htakes

/-- A line that fails, at once or after it was resumed, leaves of the return stack what lies no
higher than the stack was when the line was read. As long as no turn of the line takes a value from
the return stack with `r>`, all of it is restored, whatever loops the line was in and whatever it
moved there. -/
theorem returns_of_failed_line (hidle : start.Idle) (h : Answers start text fuel past m r m')
    {f : Failure} (hf : r.failure = some f) :
    ∃ e, Ends m (.error f) e ∧
      m'.returns.toList = e.returns.toList.take start.returns.depth ∧
      (m'.returns.depth = start.returns.depth ↔ start.returns.depth ≤ e.returns.depth) ∧
      ((∀ p ∈ past, ¬p.TakesReturn) → (∀ p, Reaches m p → ¬p.TakesReturn) →
        m'.returns = start.returns) := by
  obtain ⟨o, e, map, hends, hline, rfl, ⟨_, _, rfl⟩⟩ := h.ends
  have hdepth : e.line.map Line.returnDepth = some start.returns.depth := by
    have hkept := (continueLine_keeps (depth_invariant _).carries fuel).on (h.underway.depth hidle)
    rwa [hline] at hkept
  rcases o with f' | _ | _
  · cases hf
    have hcut : (Machine.concluded { e with running := false } map (.error f)).returns =
        e.returns.truncate start.returns.depth := by
      change e.returns.truncate ((e.line.map Line.returnDepth).getD 0) = _
      rw [hdepth, Option.getD_some]
    refine ⟨e, hends, ?_, ?_, fun hpast hahead => ?_⟩
    · change (Machine.concluded { e with running := false } map (.error f)).returns.toList = _
      rw [hcut, Stack.toList_truncate]
    · change (Machine.concluded { e with running := false } map (.error f)).returns.depth = _ ↔ _
      rw [hcut, Stack.depth_truncate_eq_iff]
    · change (Machine.concluded { e with running := false } map (.error f)).returns = _
      rw [hcut]
      exact (bears_of_ends hends (h.underway.laden hidle hpast) hahead).truncate
  · cases hf
  · cases hf

end Lines

def sevenKept : Machine := ((readLine 100 "7 >r").on Session.builtin).2

private def loopingLine : String := ": f 2 0 do 5 >r 0 sleep drop loop ; f"

private def broken : Except Stop LineResult × Machine := (readLine 100 loopingLine).on sevenKept

private def recovered : Except Stop (Option LineResult) × Machine :=
  (resume 100 0).on broken.2

private def untimely : Except Stop LineResult × Machine :=
  (readLine 100 "r> drop drop").on sevenKept

private theorem sevenKept_tests :
    ((((readLine 100 "7 >r").on Session.builtin).1.isOk && decide sevenKept.Idle) &&
    (((beginLine loopingLine).on sevenKept).1.isOk && broken.1.toOption.any LineResult.paused &&
      ((rouse 0).on broken.2).1.toOption.any id &&
      recovered.1.toOption.any (fun r => r.any fun r => r.failure.isSome) &&
      recovered.2.returns.depth = sevenKept.returns.depth) &&
    (untimely.1.toOption.any (fun r => !r.paused && r.failure.isSome) &&
      sevenKept.returns.depth = 1 && untimely.2.returns.depth = 0)) = true := by
  decide +kernel

private theorem sevenKept_reached : Session.Reached sevenKept := by
  have htests := sevenKept_tests
  simp only [Bool.and_eq_true] at htests
  obtain ⟨r, hread⟩ := eq_of_isOk htests.1.1.1
  have hcall : ((Session.Call.readLine "7 >r").run 100).on Session.builtin =
      (.ok (), sevenKept) := by
    change ((fun _ => ()) <$> readLine 100 "7 >r").on Session.builtin = _
    rw [← bind_pure_comp, on_bind_ok hread]
    rfl
  exact .call Session.builtin_reached hcall nofun

private theorem sevenKept_idle : sevenKept.Idle := by
  have htests := sevenKept_tests
  simp only [Bool.and_eq_true, decide_eq_true_eq] at htests
  exact htests.1.1.2

/-- A line that was resumed in a loop fails there, and the return stack is as deep as before. -/
theorem loopingLine_restores_depth :
    sevenKept.Idle ∧ ∃ past m r m' f, Answers sevenKept loopingLine 100 past m r m' ∧
      r.failure = some f ∧ ∃ e, Ends m (.error f) e ∧
        m'.returns.toList = e.returns.toList.take sevenKept.returns.depth ∧
        m'.returns.depth = sevenKept.returns.depth ∧
        sevenKept.returns.depth ≤ e.returns.depth := by
  have htests := sevenKept_tests
  simp only [Bool.and_eq_true, decide_eq_true_eq] at htests
  obtain ⟨⟨-, ⟨⟨⟨hbegin, hbroken⟩, hrouse⟩, hrecovered⟩, hdepth⟩, -⟩ := htests
  obtain ⟨_, hbegin⟩ := eq_of_isOk hbegin
  obtain ⟨r, hpaused, hread⟩ := result_of_any hbroken
  obtain ⟨_, rfl, hrouse⟩ := result_of_any hrouse
  obtain ⟨answer, hanswer, hresume⟩ := result_of_any hrecovered
  cases answer with
  | none => cases hanswer
  | some r' =>
    obtain ⟨f, hf⟩ := Option.isSome_iff_exists.mp hanswer
    obtain ⟨later, n, -, hunderway, hawaits⟩ := (Answers.read hbegin hread).suspended hpaused
    have hanswers := Answers.resumed hunderway hawaits hrouse hresume
    obtain ⟨e, hends, hleft, hiff, -⟩ := returns_of_failed_line sevenKept_idle hanswers hf
    exact ⟨sevenKept_idle, _, _, r', _, f, hanswers, hf, e, hends, hleft, hdepth,
      hiff.mp hdepth⟩

/-- The word `r>` takes the value of an earlier line, and it does not come back when the line
fails. -/
theorem taken_value_is_lost :
    Session.Reached sevenKept ∧ sevenKept.Idle ∧
    ∃ r m', (readLine 100 "r> drop drop").on sevenKept = (.ok r, m') ∧ r.paused = false ∧
      r.failure.isSome = true ∧ sevenKept.returns.depth = 1 ∧ m'.returns.depth = 0 := by
  have htests := sevenKept_tests
  simp only [Bool.and_eq_true, decide_eq_true_eq] at htests
  obtain ⟨-, ⟨hread, hbefore⟩, hafter⟩ := htests
  obtain ⟨r, hr, hread⟩ := result_of_any hread
  rw [Bool.and_eq_true, Bool.not_eq_true'] at hr
  exact ⟨sevenKept_reached, sevenKept_idle, r, _, hread, hr.1, hr.2, hbefore, hafter⟩

end Run

end Forthline
