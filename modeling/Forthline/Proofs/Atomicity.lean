import Forthline.Proofs.Allocation
import Forthline.Proofs.Interpreting
import Forthline.Proofs.Reachable

/-!
# Defining words that fail

A defining word works its way through several updates: it reads names, takes a value from the stack,
reserves a cell, names it, compiles a body and enters a word. Each may fail, for a reason of its
own. The checks come before the updates that they guard, with one exception: a variable has its cell
named before anyone asks whether the name is empty.
-/

namespace Forthline

/-- What defining words work on: the dictionary, the names of the memory and its allocator. -/
structure Tables where
  dictionary : Dictionary
  bindings : Table Binding
  next : Int

def Tables.unnamed (t : Tables) : Tables :=
  { t with
    bindings := t.bindings.insert "" { address := t.next, size := 1, kind := .variable }
    next := t.next + 1 }

namespace Machine

def tables (m : Machine) : Tables := ⟨m.dictionary, m.memory.bindings, m.memory.next⟩

theorem Logged.tables {m n : Machine} (h : m.Logged n) : n.tables = m.tables := by
  obtain ⟨_, _, rfl⟩ := h
  rfl

theorem Logged.pending {m n : Machine} (h : m.Logged n) : n.pending = m.pending := by
  obtain ⟨_, _, rfl⟩ := h
  rfl

/-- Outside of a definition, the next token is `variable`, the name after it is empty, and there is
a cell left. -/
structure NamesNothing (m : Machine) : Prop where
  pending : m.pending = none
  tokens : ∃ s t name es, m.source = some s ∧ s.left = .complete t :: .complete name :: es ∧
    t.value ≠ "~" ∧ m.dictionary.meaning? t = .ok (some (.control .variable)) ∧ name.value = ""
  room : m.memory.Room 1

end Machine

namespace Run

variable {α β : Type} {m m' : Machine}

/-- The program leaves the tables and the open definition as they are. -/
def Sparing (p : Run α) : Prop :=
  ∀ m, (p.on m).2.tables = m.tables ∧ (p.on m).2.pending = m.pending

/-- Started on the machine, the program leaves the tables as they are, unless it succeeds and leaves
no definition open. -/
def Atomic (p : Run α) (m : Machine) : Prop :=
  (p.on m).2.tables = m.tables ∨ ∃ a n, p.on m = (.ok a, n) ∧ n.pending = none

namespace Sparing

variable {p : Run α} {k : α → Run β}

protected theorem pure (a : α) : Sparing (pure a) := fun _ => ⟨rfl, rfl⟩

protected theorem fail (c : Cause) : Sparing (fail c : Run α) := fun _ => ⟨rfl, rfl⟩

protected theorem lift (x : Except Cause α) : Sparing (lift x) := by
  cases x with
  | ok a => exact Sparing.pure a
  | error c => exact Sparing.fail c

protected theorem bind (hp : Sparing p) (hk : ∀ a, Sparing (k a)) : Sparing (p >>= k) := by
  intro m
  have hfirst := hp m
  rw [on_bind]
  rcases hm : p.on m with ⟨s | a, n⟩
  · rw [hm] at hfirst
    exact hfirst
  · rw [hm] at hfirst
    obtain ⟨htables, hpending⟩ := hk a n
    exact ⟨htables.trans hfirst.1, hpending.trans hfirst.2⟩

theorem tables (hp : Sparing p) {r : Except Stop α} (h : p.on m = (r, m')) :
    m'.tables = m.tables := by
  have hm := (hp m).1
  rwa [h] at hm

theorem pending (hp : Sparing p) {r : Except Stop α} (h : p.on m = (r, m')) :
    m'.pending = m.pending := by
  have hm := (hp m).2
  rwa [h] at hm

theorem atomic (hp : Sparing p) (m : Machine) : Atomic p m := .inl (hp m).1

end Sparing

namespace Atomic

variable {p : Run α} {k : α → Run β}

/-- After a program that leaves the tables alone, only what follows it matters. -/
theorem bind_of_sparing (hp : Sparing p)
    (hk : ∀ a n, p.on m = (.ok a, n) → n.pending = m.pending → Atomic (k a) n) :
    Atomic (p >>= k) m := by
  rcases hm : p.on m with ⟨s | a, n⟩
  · exact .inl (by rw [on_bind_error hm]; exact hp.tables hm)
  · rcases hk a n hm (hp.pending hm) with hsame | ⟨b, e, hdone, hpending⟩
    · exact .inl (by rw [on_bind_ok hm]; exact hsame.trans (hp.tables hm))
    · exact .inr ⟨b, e, (on_bind_ok hm k).trans hdone, hpending⟩

theorem bind_of_sure (hp : Atomic p m)
    (hk : ∀ a n, ∃ b e, (k a).on n = (.ok b, e) ∧ e.tables = n.tables ∧ e.pending = n.pending) :
    Atomic (p >>= k) m := by
  rcases hm : p.on m with ⟨s | a, n⟩
  · rcases hp with hsame | ⟨_, _, hdone, -⟩
    · rw [hm] at hsame
      exact .inl (by rw [on_bind_error hm]; exact hsame)
    · rw [hm] at hdone
      cases hdone
  · obtain ⟨b, e, hb, htables, hpending⟩ := hk a n
    rcases hp with hsame | ⟨_, _, hdone, hnone⟩
    · rw [hm] at hsame
      exact .inl (by rw [on_bind_ok hm, hb]; exact htables.trans hsame)
    · rw [hm] at hdone
      cases hdone
      exact .inr ⟨b, e, (on_bind_ok hm k).trans hb, hpending.trans hnone⟩

theorem bind_pure (hp : Atomic p m) (b : β) : Atomic (p >>= fun _ => pure b) m :=
  hp.bind_of_sure fun _ n => ⟨b, n, rfl, rfl, rfl⟩

end Atomic

/-! ### Programs that leave the tables alone -/

private theorem report_sparing (level : Level) (category message : String) :
    Sparing (report level category message) := by
  intro m
  obtain ⟨n, hn, h⟩ := report_logged level category message m
  rw [h]
  exact ⟨hn.tables, hn.pending⟩

private theorem reportText_sparing (level : Level) (category : String)
    (message : Except Cause String) : Sparing (reportText level category message) := by
  cases message with
  | ok text => exact report_sparing level category text
  | error c =>
    intro m
    rw [reportText, on_get_bind]
    split
    · exact ⟨rfl, rfl⟩
    · exact ⟨rfl, rfl⟩

private theorem pop_sparing : Sparing pop := by
  intro m
  rw [pop, on_get_bind]
  cases m.stack.pop with
  | error c => exact ⟨rfl, rfl⟩
  | ok r => exact ⟨rfl, rfl⟩

private theorem nextToken_sparing : Sparing nextToken := by
  intro m
  rw [nextToken, on_get_bind]
  cases m.source with
  | none => exact ⟨rfl, rfl⟩
  | some s => exact Sparing.lift s.next.1 { m with source := some s.next.2 }

private theorem peekToken_sparing : Sparing peekToken := by
  intro m
  rw [peekToken, on_get_bind]
  cases m.source with
  | none => exact ⟨rfl, rfl⟩
  | some s => exact Sparing.lift (s.peek 1).1 { m with source := some (s.peek 1).2 }

private theorem expectName_sparing (code : String) : Sparing (expectName code) := by
  refine nextToken_sparing.bind fun t => ?_
  cases t with
  | none => exact Sparing.fail _
  | some t => exact Sparing.pure _

/-! ### Tokens -/

theorem nextToken_eq_some {t : Token} (h : nextToken.on m = (.ok (some t), m')) :
    ∃ s s', m.source = some s ∧ s.left = .complete t :: s'.left ∧
      m' = { m with source := some s' } := by
  rw [nextToken, on_get_bind] at h
  cases hs : m.source with
  | none =>
    rw [hs] at h
    cases h
  | some s =>
    rw [hs] at h
    dsimp only at h
    rw [on_modify_bind] at h
    cases hleft : s.left with
    | nil =>
      rw [Stream.next_of_left_nil hleft] at h
      cases h
    | cons e es =>
      cases e with
      | complete u =>
        obtain ⟨s', hnext, hes⟩ := Stream.next_of_left_cons hleft
        rw [hnext] at h
        cases h
        exact ⟨s, s', rfl, by rw [hleft, hes], rfl⟩
      | unterminated u =>
        obtain ⟨s', hpull, -, -⟩ := Stream.pull_of_left_cons hleft
        rw [Stream.next, hpull] at h
        cases h

theorem peekToken_eq {form : Option Token} (h : peekToken.on m = (.ok form, m')) :
    m' = m ∨ ∃ s s', m.source = some s ∧ s'.left = s.left ∧ m' = { m with source := some s' } := by
  rw [peekToken, on_get_bind] at h
  cases hs : m.source with
  | none =>
    rw [hs] at h
    cases h
    exact .inl rfl
  | some s =>
    obtain ⟨s', hpeek, hleft⟩ := s.peek_left
    rw [hs] at h
    dsimp only at h
    rw [on_modify_bind, hpeek] at h
    cases h
    exact .inr ⟨s, s', rfl, hleft, rfl⟩

/-! ### Redefinitions -/

private theorem redefine_atomic (name : String) (aim : Dictionary.Aim) (permanent : Bool)
    (hm : m.pending = none) : Atomic (redefine name aim permanent) m := by
  unfold Atomic
  rw [redefine, on_get_bind]
  cases m.dictionary.redefine name aim permanent with
  | error c => exact .inl rfl
  | ok d =>
    obtain ⟨n, hn, h⟩ := report_logged .debug "Dictionary"
      s!"Redefining `{Text.lower name}` as `{aim.label.bracketed}`."
      { m with dictionary := d }
    exact .inr ⟨(), n, h, hn.pending.trans hm⟩

private theorem redirect_atomic (mode : Mode) (name target : String) (permanent : Bool)
    (hm : m.pending = none) : Atomic (redirect mode name target permanent) m := by
  cases mode with
  | following => exact redefine_atomic _ _ _ hm
  | capturing =>
    unfold Atomic
    rw [redirect, on_get_bind]
    cases m.dictionary.get target with
    | error c => exact .inl rfl
    | ok w => exact redefine_atomic name (.word w) permanent hm

private theorem redefinition_atomic (permanent : Bool) (name : Token) (hm : m.pending = none) :
    Atomic (redefinition permanent name) m := by
  have hother : Sparing (if permanent then fail .tildeForm else pure false : Run Bool) := by
    cases permanent with
    | true => exact Sparing.fail _
    | false => exact Sparing.pure _
  refine Atomic.bind_of_sparing peekToken_sparing fun form m₁ _ hm₁ => ?_
  cases form with
  | none => exact hother.atomic m₁
  | some form =>
    dsimp only
    cases redefinitionMode? form with
    | none => exact hother.atomic m₁
    | some mode =>
      dsimp only
      rw [discard_bind]
      refine Atomic.bind_of_sparing nextToken_sparing fun _ m₂ _ hm₂ => ?_
      refine Atomic.bind_of_sparing nextToken_sparing fun target m₃ _ hm₃ => ?_
      cases target with
      | none => exact (Sparing.fail _).atomic m₃
      | some target =>
        have hnone : m₃.pending = none := hm₃.trans (hm₂.trans (hm₁.trans hm))
        exact (redirect_atomic mode name.value target.value permanent hnone).bind_pure true

private theorem tryRedefinition_atomic (t : Token) (hm : m.pending = none) :
    Atomic (tryRedefinition t) m := by
  rw [tryRedefinition_eq]
  split
  · refine Atomic.bind_of_sparing nextToken_sparing fun name m₁ _ hm₁ => ?_
    cases name with
    | none => exact (Sparing.fail _).atomic m₁
    | some name => exact redefinition_atomic true name (hm₁.trans hm)
  · exact redefinition_atomic false t hm

/-! ### Words that define -/

private theorem addWord_atomic (name : String) (w : Word) (permanent : Bool)
    (hm : m.pending = none) : Atomic (addWord name w permanent) m := by
  unfold Atomic
  rw [addWord, on_get_bind]
  cases m.dictionary.add name w permanent with
  | error c => exact .inl rfl
  | ok d =>
    obtain ⟨n, hn, h⟩ := report_logged .debug "Dictionary" s!"Adding word `{name}`."
      { m with dictionary := d }
    exact .inr ⟨(), n, h, hn.pending.trans hm⟩

private theorem nameConstant_atomic (name : String) (hm : m.pending = none) :
    Atomic (nameConstant name) m := by
  refine Atomic.bind_of_sparing pop_sparing fun value m₁ _ hm₁ => ?_
  refine Atomic.bind_of_sparing (reportText_sparing _ _ _) fun _ m₂ _ hm₂ => ?_
  exact addWord_atomic name _ false (hm₂.trans (hm₁.trans hm))

private theorem openDefinition_atomic (name : String) (m : Machine) :
    Atomic (openDefinition name) m :=
  Atomic.bind_of_sparing (report_sparing _ _ _) fun _ _ _ _ => .inl rfl

private def housed (m : Machine) (name : String) : Machine :=
  let binding : Binding := { address := m.memory.next, size := 1, kind := .variable }
  { m with memory := (m.memory.advance 1).bind (Text.lower name) binding }

private theorem nameVariable_on (name : String) (m : Machine) :
    (∃ c, (nameVariable name).on m = (.error (.failed { cause := c }), m)) ∧ ¬m.memory.Room 1 ∨
      m.memory.Room 1 ∧ ∃ n w, (housed m name).Logged n ∧
        (nameVariable name).on m = (addWord name w false).on n := by
  rw [nameVariable, on_get_bind]
  rcases m.memory.addVariable_cases name 1 with ⟨hroom, h⟩ | ⟨hfull, c, h⟩
  · rw [h, on_bind_ok (on_lift_ok _ _)]
    obtain ⟨n, hn, hreport⟩ := report_logged .debug "Memory"
      s!"Creating variable `{name}` at {m.memory.next}." (housed m name)
    exact .inr ⟨hroom, n, _, hn, on_bind_ok hreport _⟩
  · rw [h]
    exact .inl ⟨⟨c, rfl⟩, hfull⟩

private theorem nameVariable_atomic (name : String) (hm : m.pending = none)
    (hname : m.memory.Room 1 → name ≠ "") : Atomic (nameVariable name) m := by
  rcases nameVariable_on name m with ⟨⟨c, h⟩, -⟩ | ⟨hroom, n, w, hn, h⟩
  · exact .inl (by rw [h])
  · have hnamed : name.isEmpty = false := by simpa using hname hroom
    obtain ⟨e, he, hreport⟩ := report_logged .debug "Dictionary" s!"Adding word `{name}`."
      { n with
        dictionary :=
          { n.dictionary with words := n.dictionary.words.insert (Text.lower name) (w, false) } }
    have hadd : (addWord name w false).on n = (.ok (), e) := by
      rw [addWord, on_get_bind, Dictionary.add, hnamed]
      exact hreport
    exact .inr ⟨(), e, h.trans hadd, he.pending.trans (hn.pending.trans hm)⟩

private theorem nameVariable_empty (hroom : m.memory.Room 1) :
    ∃ f n, (nameVariable "").on m = (.error (.failed f), n) ∧ n.tables = m.tables.unnamed := by
  rcases nameVariable_on "" m with ⟨-, hfull⟩ | ⟨-, n, w, hn, h⟩
  · exact absurd hroom hfull
  · exact ⟨_, n, h, hn.tables⟩

private theorem endDefinition_atomic (p : Pending) (m : Machine) : Atomic (endDefinition p) m := by
  have hrest : Atomic (do
      let body ← lift (compile p.words.reverse (some p.name))
      let name := p.name
      addWord name (.definition name body false) false
      report .debug "Compiler" s!"Ending definition `{name}`.") { m with pending := none } := by
    refine Atomic.bind_of_sparing (Sparing.lift _) fun body m₁ _ hm₁ => ?_
    refine (addWord_atomic p.name _ false hm₁).bind_of_sure fun _ n => ?_
    obtain ⟨e, he, hreport⟩ := report_logged .debug "Compiler" s!"Ending definition `{p.name}`." n
    exact ⟨(), e, hreport, he.tables, he.pending⟩
  exact hrest

private theorem compileWord_atomic (p : Pending) (w : Word) (m : Machine) :
    Atomic (compileWord p w) m := by
  unfold compileWord
  split
  · exact endDefinition_atomic p m
  · exact .inl rfl

/-! ### The next token -/

private structure Nameless (m : Machine) (t : Token) : Prop where
  pending : m.pending = none
  meaning : m.dictionary.meaning? t = .ok (some (.control .variable))
  name : ∃ s name es, m.source = some s ∧ s.left = .complete name :: es ∧ name.value = ""
  room : m.memory.Room 1

private theorem expectName_eq_ok {code name : String}
    (h : (expectName code).on m = (.ok name, m')) :
    ∃ s t s', m.source = some s ∧ s.left = .complete t :: s'.left ∧ t.value = name ∧
      m' = { m with source := some s' } := by
  obtain ⟨t, m₁, hnext, h⟩ := on_bind_eq_ok h
  cases t with
  | none => cases h
  | some t =>
    obtain ⟨s, s', hs, hleft, rfl⟩ := nextToken_eq_some hnext
    cases h
    exact ⟨s, t, s', hs, hleft, rfl, rfl⟩

private theorem defining_atomic {w : Word} {code name : String} {act : String → Run Unit}
    (hw : defining? w = some (code, act)) (hm : m.pending = none)
    (hname : w = .control .variable → m.memory.Room 1 → name ≠ "") : Atomic (act name) m := by
  unfold defining? at hw
  split at hw
  · cases hw
    exact nameVariable_atomic name hm (hname rfl)
  · cases hw
    exact nameConstant_atomic name hm
  · cases hw
    exact openDefinition_atomic name m
  · cases hw

private theorem readAs_atomic {t : Token} (h : ¬Nameless m t) : Atomic (readAs t) m := by
  have hmeaning : Sparing (meaning t) := by
    intro n
    have hon := meaning_on t n
    split at hon
    · rw [hon]
      exact ⟨rfl, rfl⟩
    · rw [hon]
      exact ⟨rfl, rfl⟩
    · obtain ⟨e, he, hon⟩ := hon
      rw [hon]
      exact ⟨he.tables, he.pending⟩
  refine Atomic.bind_of_sparing hmeaning fun w m₁ hw _ => ?_
  obtain ⟨hmeant, entries, events, rfl⟩ := meaning_of_ok hw
  cases w with
  | none => exact .inl rfl
  | some w =>
    dsimp only
    unfold Atomic
    rw [on_get_bind]
    cases hp : m.pending with
    | some p => exact (compileWord_atomic p w _).bind_pure none
    | none =>
      dsimp only [enact]
      split
      · rename_i code act hdefining
        refine Atomic.bind_of_sparing (expectName_sparing code) fun name m₂ hname hm₂ => ?_
        obtain ⟨s, u, s', hs, hleft, rfl, rfl⟩ := expectName_eq_ok hname
        refine Atomic.bind_pure (defining_atomic hdefining hm₂ ?_) none
        rintro rfl hroom hempty
        exact h ⟨hp, hmeant, ⟨s, u, s'.left, hs, hleft, hempty⟩, hroom⟩
      · exact .inl rfl

private theorem interpret_atomic {t : Token} (h : t.value ≠ "~" → ¬Nameless m t) :
    Atomic (interpret t) m := by
  unfold Atomic
  rw [interpret_eq, on_get_bind]
  split
  · rename_i hopen
    have hpending : m.pending = none := by
      rw [Bool.and_eq_true, Option.isNone_iff_eq_none] at hopen
      exact hopen.1
    have htry := tryRedefinition_atomic t hpending
    rcases hm : (tryRedefinition t).on m with ⟨f | handled, m₁⟩
    · rw [on_bind_error hm]
      rcases htry with hsame | ⟨_, _, hdone, -⟩
      · rw [hm] at hsame
        exact .inl hsame
      · rw [hm] at hdone
        cases hdone
    · rw [on_bind_ok hm]
      cases handled with
      | true =>
        rcases htry with hsame | ⟨_, _, hdone, hnone⟩
        · rw [hm] at hsame
          exact .inl hsame
        · rw [hm] at hdone
          cases hdone
          exact .inr ⟨none, m₁, rfl, hnone⟩
      | false =>
        obtain ⟨hplain, form, hpeek⟩ := peeked_of_unhandled hm
        obtain rfl | ⟨s, s', hs, hleft, rfl⟩ := peekToken_eq hpeek
        · exact readAs_atomic (h hplain)
        · refine readAs_atomic fun hempty =>
            h hplain ⟨hempty.pending, hempty.meaning, ?_, hempty.room⟩
          obtain ⟨_, name, es, hsource, hname, hvalue⟩ := hempty.name
          cases hsource
          exact ⟨s, name, es, hs, hleft ▸ hname, hvalue⟩
  · rename_i hopen
    refine readAs_atomic fun hempty => ?_
    have hliteral : t.literal = true := by
      rw [hempty.pending] at hopen
      simpa using hopen
    have hmeaning := hempty.meaning
    rw [Dictionary.meaning?, hliteral] at hmeaning
    cases hmeaning

/-- Reading a token changes the tables only if it succeeds and leaves no definition open, but for a
variable without a name. -/
theorem takeToken_atomic (h : ¬m.NamesNothing) : Atomic takeToken m := by
  refine Atomic.bind_of_sparing nextToken_sparing fun t m₁ hnext _ => ?_
  cases t with
  | none => exact .inl rfl
  | some t =>
    obtain ⟨s, s', hs, hleft, rfl⟩ := nextToken_eq_some hnext
    have hread : Atomic (interpret t) { m with source := some s' } := by
      refine interpret_atomic fun hplain hempty => h ⟨hempty.pending, ?_, hempty.room⟩
      obtain ⟨_, name, es, hsource, hname, hvalue⟩ := hempty.name
      cases hsource
      exact ⟨s, t, name, es, hs, by rw [hleft, hname], hplain, hempty.meaning, hvalue⟩
    refine hread.bind_of_sure fun w n => ?_
    cases w with
    | none => exact ⟨none, n, rfl, rfl, rfl⟩
    | some w => exact ⟨none, _, rfl, rfl, rfl⟩

private theorem redefinitionMode?_empty {t : Token} (h : t.value = "") :
    redefinitionMode? t = none := by
  unfold redefinitionMode?
  rw [h]
  split
  · rfl
  · rfl

private theorem takeToken_of_namesNothing (h : m.NamesNothing) :
    ∃ f n, takeToken.on m = (.error (.failed f), n) ∧ n.tables = m.tables.unnamed := by
  obtain ⟨s, t, name, es, hs, hleft, hplain, hmeaning, hvalue⟩ := h.tokens
  obtain ⟨s₁, hnext, hleft₁⟩ := Stream.next_of_left_cons hleft
  obtain ⟨s₂, hpeek, hleft₂⟩ := s₁.peek_left
  obtain ⟨s₃, hnext₂, -⟩ := Stream.next_of_left_cons (hleft₂.trans hleft₁)
  rw [hleft₁] at hpeek
  have hopen : (m.pending.isNone && !t.literal) = true := by
    cases hliteral : t.literal with
    | true =>
      rw [Dictionary.meaning?, hliteral] at hmeaning
      cases hmeaning
    | false =>
      rw [h.pending]
      rfl
  have htry : (tryRedefinition t).on { m with source := some s₁ } =
      (.ok false, { m with source := some s₂ }) := by
    have hpeeked : peekToken.on { m with source := some s₁ } =
        (.ok (some name), { m with source := some s₂ }) := peekToken_of_peek rfl hpeek
    rw [tryRedefinition_eq, if_neg hplain, redefinition, on_bind_ok hpeeked]
    dsimp only
    rw [redefinitionMode?_empty hvalue]
    rfl
  have hname : (expectName "variable").on { m with source := some s₂ } =
      (.ok name.value, { m with source := some s₃ }) := by
    rw [expectName, on_bind, nextToken_of_next rfl hnext₂]
    rfl
  obtain ⟨f, n, hfail, htables⟩ := nameVariable_empty (m := { m with source := some s₃ }) h.room
  have hread : (readAs t).on { m with source := some s₂ } = (.error (.failed f), n) := by
    rw [readAs_of_meaning (m := { m with source := some s₂ }) h.pending hmeaning]
    dsimp only [enact, defining?]
    rw [on_bind_ok hname, hvalue, on_bind_error hfail]
  have hinterpret : (interpret t).on { m with source := some s₁ } = (.error (.failed f), n) := by
    rw [interpret_eq, on_get_bind, if_pos hopen, on_bind_ok htry]
    exact hread
  refine ⟨f, n, ?_, htables⟩
  rw [takeToken, on_bind, nextToken_of_next hs hnext]
  exact on_bind_error hinterpret _

/-! ### Constructs -/

private theorem conclude_tables (o : Except Failure Bool) (m : Machine) :
    ((conclude o).on m).2.tables = m.tables := by
  have hended : (m.ended o).tables = m.tables := by
    rcases o with f | _ | _
    · rfl
    · rfl
    · rfl
  cases hmap : m.memory.map with
  | error c =>
    obtain ⟨n, hn, h⟩ := conclude_of_error hmap o
    rw [h]
    exact hn.tables.trans hended
  | ok map =>
    obtain ⟨n, hn, h⟩ := conclude_of_map hmap o
    rw [h]
    refine hn.tables.trans ?_
    rcases o with f | _ | _
    · exact hended
    · exact hended
    · exact hended

private theorem beginLine_tables {text : String} (h : (beginLine text).on m = (.ok (), m')) :
    m'.tables = m.tables := by
  cases hbusy : (m.line.isSome || m.paused || m.running) with
  | true =>
    rw [beginLine_of_busy text hbusy] at h
    cases h
  | false =>
    obtain ⟨n, hn, -, hbegin⟩ := beginLine_of_free hbusy text
    rw [hbegin] at h
    cases h
    exact hn.tables

private theorem takeToken_tables_of_end (h : takeToken.on m = (.ok (some true), m')) :
    m'.tables = m.tables := by
  obtain ⟨t, m₁, hnext, h⟩ := on_bind_eq_ok h
  cases t with
  | none =>
    cases h
    exact nextToken_sparing.tables hnext
  | some t =>
    obtain ⟨w, m₂, -, h⟩ := on_bind_eq_ok h
    cases w with
    | none => cases h
    | some w => cases h

/-- What starts with the next token of the machine `m` was read up to another machine. A definition
can go on in later lines, and others may work on the session between two of them, as long as they
leave the tables alone. -/
inductive Construct (m : Machine) : Machine → Prop where
  | start : m.pending = none → Construct m m
  | token {n n' : Machine} : Construct m n → takeToken.on n = (.ok none, n') →
      n'.pending.isSome = true → Construct m n'
  | line {n n₁ n₂ n₃ n₄ : Machine} {r : LineResult} {text : String} : Construct m n →
      n.pending.isSome = true → takeToken.on n = (.ok (some true), n₁) →
      finished.on { n₁ with running := false } = (.ok r, n₂) →
      n₃.pending = n₂.pending → n₃.tables = n₂.tables →
      (beginLine text).on n₃ = (.ok (), n₄) → Construct m { n₄ with running := true }

private theorem Construct.tables {n : Machine} (h : Construct m n) : n.tables = m.tables := by
  induction h with
  | start hpending => rfl
  | @token n n' _ htoken hopen ih =>
    have hnamed : ¬n.NamesNothing := by
      intro hempty
      obtain ⟨f, e, hfail, -⟩ := takeToken_of_namesNothing hempty
      rw [htoken] at hfail
      cases hfail
    rcases takeToken_atomic hnamed with hsame | ⟨_, _, hdone, hnone⟩
    · rw [htoken] at hsame
      exact hsame.trans ih
    · rw [htoken] at hdone
      cases hdone
      rw [hnone] at hopen
      cases hopen
  | @line n n₁ n₂ n₃ n₄ r text _ _ hend hfinished _ htables hbegin ih =>
    have hconcluded := conclude_tables (.ok true) { n₁ with running := false }
    rw [conclude, hfinished] at hconcluded
    calc n₄.tables
        = n₃.tables := beginLine_tables hbegin
      _ = n₂.tables := htables
      _ = n₁.tables := hconcluded
      _ = n.tables := takeToken_tables_of_end hend
      _ = m.tables := ih

private def begun (text : String) (m : Machine) : Machine :=
  { ((beginLine text).on m).2 with running := true }

private def tokenTaken (m : Machine) : Machine := (takeToken.on m).2

private def opened : Machine := tokenTaken (tokenTaken (begun ": f if" Session.builtin))

private def firstEnd : Except Stop LineResult × Machine :=
  finished.on { tokenTaken opened with running := false }

private def unbalanced : Machine := tokenTaken (begun "1 ;" firstEnd.2)

end Run

end Forthline
