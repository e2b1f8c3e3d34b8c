import Forthline.Proofs.Joining
import Forthline.Proofs.Updates

/-!
# What becomes of the next token

A token that stands between words is looked at for the form of a redefinition after it, and else
read for its meaning. A defining word takes the name after it and adds a word under it; within a
definition the meanings are collected up to the word that ends it.
-/

namespace Forthline

namespace Dictionary

def meaning? (d : Dictionary) (t : Token) : Except Cause (Option Word) :=
  if t.literal then .ok (some (.pusher t.value (.text t.value)))
  else
    match d.lookup t.value with
    | .ok (some w) => .ok (some w)
    | .ok none =>
      .ok ((Numeral.read? t.value).map fun n => .pusher t.value (Value.ofNumber n))
    | .error c => .error c

variable {d : Dictionary} {w : Word}

theorem meaning?_congr (d : Dictionary) {t u : Token} (h : t.content = u.content) :
    d.meaning? t = d.meaning? u := by
  unfold meaning?
  rw [Token.value_of_content h, Token.literal_of_content h]

theorem meaning?_of_lookup {t : Token} (hliteral : t.literal = false)
    (h : d.lookup t.value = .ok (some w)) : d.meaning? t = .ok (some w) := by
  rw [meaning?, hliteral, if_neg Bool.false_ne_true, h]

theorem hasKey_of_lookup {name : String} (h : d.lookup name = .ok (some w)) :
    d.hasKey (Text.lower name) = true := by
  by_contra hkey
  have hfree : d.words.get? (Text.lower name) = none ∧
      d.redefinitions.get? (Text.lower name) = none := by
    simpa [hasKey, Table.contains] using hkey
  have hnone : d.lookup name = .ok none :=
    lookup_eq_none_iff.mpr ⟨Text.lower name, ⟨0, rfl⟩, hfree.2, hfree.1⟩
  rw [hnone] at h
  cases h

end Dictionary

def Token.Spells (t : Token) (name : String) : Prop :=
  t.literal = false ∧ Text.lower t.value = name

namespace Run

/-- The machine is between words, and has tokens with these contents left. -/
structure Stands (m : Machine) (cs : List (String × Bool)) : Prop where
  ready : Ready [] m
  left : ∃ s, m.source = some s ∧ s.Holds cs

section Tokens

variable {m m' : Machine} {cs : List (String × Bool)}

theorem Stands.nextToken {c : String × Bool} (h : Stands m (c :: cs)) :
    ∃ t s, nextToken.on m = (.ok (some t), { m with source := some s }) ∧ t.content = c ∧
      s.Holds cs := by
  obtain ⟨s, hs, hholds⟩ := h.left
  obtain ⟨t, s', hnext, ht, hs'⟩ := hholds.next_cons
  exact ⟨t, s', nextToken_of_next hs hnext, ht, hs'⟩

theorem Stands.nextToken_nil (h : Stands m []) : Run.nextToken.on m = (.ok none, m) := by
  obtain ⟨s, hs, hholds⟩ := h.left
  exact nextToken_of_exhausted hs hholds

theorem Stands.peekToken (h : Stands m cs) :
    ∃ t s, peekToken.on m = (.ok t, { m with source := some s }) ∧
      t.map Token.content = cs.head? ∧ s.Holds cs := by
  obtain ⟨s, hs, hholds⟩ := h.left
  obtain ⟨t, s', hpeek, ht, hs'⟩ := hholds.peek
  exact ⟨t, s', peekToken_of_peek hs hpeek, ht, hs'⟩

theorem Stands.source (h : Stands m cs) {s : Stream} {ds : List (String × Bool)}
    (hs : s.Holds ds) : Stands { m with source := some s } ds :=
  ⟨h.ready, s, rfl, hs⟩

end Tokens

section Meanings

variable {m m' : Machine} {t : Token}

theorem meaning_on (t : Token) (m : Machine) :
    match m.dictionary.meaning? t with
    | .error c => (meaning t).on m = (.error (.failed { cause := c }), m)
    | .ok (some w) => (meaning t).on m = (.ok (some w), m)
    | .ok none => ∃ n, m.Logged n ∧ (meaning t).on m = (.ok none, n) := by
  unfold Dictionary.meaning? meaning
  cases t.literal with
  | true => rfl
  | false =>
    simp only [Bool.false_eq_true, if_false, on_get_bind]
    cases m.dictionary.lookup t.value with
    | error c => rfl
    | ok found =>
      cases found with
      | some w => rfl
      | none =>
        cases Numeral.read? t.value with
        | some n => rfl
        | none =>
          obtain ⟨n, hn, hreport⟩ := report_logged .warning "Input"
            s!"Skipping unknown token `{t.value}`." m
          exact ⟨n, hn, on_bind_ok hreport _⟩

theorem meaning_of_word {w : Word} (h : m.dictionary.meaning? t = .ok (some w)) :
    (meaning t).on m = (.ok (some w), m) := by
  have hon := meaning_on t m
  rw [h] at hon
  exact hon

theorem meaning_of_ok {found : Option Word} (h : (meaning t).on m = (.ok found, m')) :
    m.dictionary.meaning? t = .ok found ∧ m.Logged m' := by
  have hon := meaning_on t m
  split at hon
  · rw [hon] at h
    cases h
  · rename_i hmeaning
    rw [hon] at h
    cases h
    exact ⟨hmeaning, .refl m⟩
  · rename_i hmeaning
    obtain ⟨n, hn, hon⟩ := hon
    rw [hon] at h
    cases h
    exact ⟨hmeaning, hn⟩

end Meanings

section Redefinitions

variable {m m' : Machine} {cs : List (String × Bool)} {t : Token}

private theorem not_redirected_of_known {mode : Mode} {name target : String} {permanent : Bool}
    (hknown : m.dictionary.hasKey (Text.lower name) = true)
    (h : (redirect mode name target permanent).on m = (.ok (), m')) : False := by
  have hrefused {aim : Dictionary.Aim} (h : (redefine name aim permanent).on m = (.ok (), m')) :
      False := by
    rw [redefine, on_get_bind] at h
    obtain ⟨d, hredefine, -⟩ := on_lift_bind_eq_ok h
    obtain ⟨hwords, hredefinitions, -⟩ := Dictionary.eq_of_redefine hredefine
    simp [Dictionary.hasKey, Table.contains, hwords, hredefinitions] at hknown
  cases mode with
  | following => exact hrefused h
  | capturing =>
    rw [redirect, on_get_bind] at h
    obtain ⟨w, -, h⟩ := on_lift_bind_eq_ok h
    exact hrefused h

private theorem dictionary_scans (d : Dictionary) : Scans (Itself fun n => n.dictionary = d) := by
  constructor
  · rintro m _ ⟨rfl, -⟩
    rfl
  · rintro m _ s ⟨rfl, hm⟩
    exact ⟨rfl, hm⟩

theorem dictionary_of_nextToken {found : Option Token}
    (h : nextToken.on m = (.ok found, m')) : m'.dictionary = m.dictionary := by
  have hkept := Keeps.on (nextToken_matches (dictionary_scans m.dictionary)) (m := m) rfl
  rwa [h] at hkept

private theorem peeked_of_redefinition {permanent : Bool} {name : Token}
    (h : (redefinition permanent name).on m = (.ok false, m')) :
    permanent = false ∧ ∃ form, peekToken.on m = (.ok form, m') := by
  obtain ⟨form, m₁, hpeek, h⟩ := on_bind_eq_ok h
  have hother (h : (if permanent then fail .tildeForm else pure false : Run Bool).on m₁ =
      (.ok false, m')) : permanent = false ∧ ∃ form, peekToken.on m = (.ok form, m') := by
    cases permanent with
    | true => cases h
    | false =>
      cases h
      exact ⟨rfl, form, hpeek⟩
  cases form with
  | none => exact hother h
  | some form =>
    dsimp only at h
    cases hmode : redefinitionMode? form with
    | none =>
      rw [hmode] at h
      exact hother h
    | some mode =>
      rw [hmode] at h
      dsimp only at h
      rw [discard_bind] at h
      obtain ⟨_, m₂, -, h⟩ := on_bind_eq_ok h
      obtain ⟨target, m₃, -, h⟩ := on_bind_eq_ok h
      cases target with
      | none => cases h
      | some target =>
        obtain ⟨_, m₄, -, h⟩ := on_bind_eq_ok h
        cases h

theorem peeked_of_unhandled (h : (tryRedefinition t).on m = (.ok false, m')) :
    t.value ≠ "~" ∧ ∃ form, peekToken.on m = (.ok form, m') := by
  rw [tryRedefinition_eq] at h
  by_cases hvalue : t.value = "~"
  · rw [if_pos hvalue] at h
    obtain ⟨name, m₁, -, h⟩ := on_bind_eq_ok h
    cases name with
    | none => cases h
    | some name => cases (peeked_of_redefinition h).1
  · rw [if_neg hvalue] at h
    exact ⟨hvalue, (peeked_of_redefinition h).2⟩

theorem unhandled_of_plain (hm : Stands m cs) (hvalue : t.value ≠ "~") (hplain : Plain cs) :
    ∃ s, s.Holds cs ∧ (tryRedefinition t).on m = (.ok false, { m with source := some s }) := by
  obtain ⟨form, s, hpeek, hform, hs⟩ := hm.peekToken
  refine ⟨s, hs, ?_⟩
  rw [tryRedefinition_eq, if_neg hvalue, redefinition, on_bind_ok hpeek]
  cases form with
  | none => rfl
  | some form =>
    dsimp only
    rw [hplain form hform.symm]
    rfl

private theorem plain_of_known {handled : Bool} (hm : Stands m cs) (hvalue : t.value ≠ "~")
    (hknown : m.dictionary.hasKey (Text.lower t.value) = true)
    (h : (tryRedefinition t).on m = (.ok handled, m')) : Plain cs := by
  intro u hu
  obtain ⟨found, s, hpeek, hfound, -⟩ := hm.peekToken
  obtain ⟨form, rfl, hform⟩ := Option.map_eq_some_iff.mp (hfound.trans hu)
  rw [← redefinitionMode?_congr hform]
  rw [tryRedefinition_eq, if_neg hvalue, redefinition, on_bind_ok hpeek] at h
  dsimp only at h
  cases hmode : redefinitionMode? form with
  | none => rfl
  | some mode =>
    rw [hmode] at h
    dsimp only at h
    rw [discard_bind] at h
    obtain ⟨_, m₁, hfirst, h⟩ := on_bind_eq_ok h
    obtain ⟨target, m₂, hsecond, h⟩ := on_bind_eq_ok h
    cases target with
    | none => cases h
    | some target =>
      obtain ⟨_, m₃, hredirect, -⟩ := on_bind_eq_ok h
      have hone := dictionary_of_nextToken hfirst
      have htwo : m₂.dictionary = m.dictionary := (dictionary_of_nextToken hsecond).trans hone
      rw [← htwo] at hknown
      exact (not_redirected_of_known hknown hredirect).elim

private theorem not_ok_of_tilde {c c' : String × Bool} {handled : Bool} (hm : Stands m [c, c'])
    (hvalue : t.value = "~") : (tryRedefinition t).on m ≠ (.ok handled, m') := by
  intro h
  rw [tryRedefinition_eq, if_pos hvalue] at h
  obtain ⟨name, s, hname, -, hs⟩ := hm.nextToken
  rw [on_bind_ok hname] at h
  dsimp only at h
  obtain ⟨form, s', hpeek, -, hs'⟩ := (hm.source hs).peekToken
  rw [redefinition, on_bind_ok hpeek] at h
  cases form with
  | none => cases h
  | some form =>
    dsimp only at h
    cases hmode : redefinitionMode? form with
    | none =>
      rw [hmode] at h
      cases h
    | some mode =>
      rw [hmode] at h
      dsimp only at h
      obtain ⟨u, s'', hnext, -, hs''⟩ := ((hm.source hs).source hs').nextToken
      rw [discard_bind, on_bind_ok hnext,
        on_bind_ok (((hm.source hs).source hs').source hs'').nextToken_nil] at h
      cases h

theorem ne_tilde_of_interpret {c c' : String × Bool} {result : Option Word}
    (hm : Stands m [c, c']) (hpending : m.pending = none)
    (h : (interpret t).on m = (.ok result, m')) (hliteral : t.literal = false) :
    t.value ≠ "~" := by
  intro htilde
  rw [interpret_eq, on_get_bind, hpending, hliteral] at h
  obtain ⟨handled, m₁, htry, -⟩ := on_bind_eq_ok h
  exact not_ok_of_tilde hm htilde htry

end Redefinitions

section Words

variable {m m' : Machine} {cs : List (String × Bool)} {t : Token} {result : Option Word}

theorem readAs_of_interpret_pending {p : Pending} (hpending : m.pending = some p)
    (h : (interpret t).on m = (.ok result, m')) : (readAs t).on m = (.ok result, m') := by
  rw [interpret_eq, on_get_bind, hpending] at h
  exact h

/-- Outside of a definition a word is read for its meaning, unless it is redefined. -/
theorem readAs_of_interpret (hm : Stands m cs) (hpending : m.pending = none)
    (hvalue : t.literal = false → t.value ≠ "~")
    (hcommon : t.literal = false →
      Plain cs ∨ m.dictionary.hasKey (Text.lower t.value) = true)
    (h : (interpret t).on m = (.ok result, m')) :
    ∃ s, s.Holds cs ∧ (readAs t).on { m with source := some s } = (.ok result, m') := by
  rw [interpret_eq, on_get_bind, hpending] at h
  cases hliteral : t.literal with
  | true =>
    rw [hliteral] at h
    obtain ⟨s, hs, hholds⟩ := hm.left
    refine ⟨s, hholds, ?_⟩
    rw [← hs]
    exact h
  | false =>
    rw [hliteral] at h
    obtain ⟨handled, m₁, htry, h⟩ := on_bind_eq_ok h
    have hplain : Plain cs := (hcommon hliteral).elim id fun hknown =>
      plain_of_known hm (hvalue hliteral) hknown htry
    obtain ⟨s, hs, hunhandled⟩ := unhandled_of_plain hm (hvalue hliteral) hplain
    rw [hunhandled] at htry
    cases htry
    exact ⟨s, hs, h⟩

theorem readAs_of_meaning {w : Word} (hpending : m.pending = none)
    (hmeaning : m.dictionary.meaning? t = .ok (some w)) : (readAs t).on m = (enact w).on m := by
  rw [readAs, on_bind_ok (meaning_of_word hmeaning)]
  dsimp only
  rw [on_get_bind, hpending]

theorem readAs_of_word {w : Word} (hpending : m.pending = none)
    (hmeaning : m.dictionary.meaning? t = .ok (some w)) (hdefining : defining? w = none) :
    (readAs t).on m = (.ok (some w), m) := by
  rw [readAs_of_meaning hpending hmeaning, enact, hdefining]
  rfl

theorem interpret_of_word {w : Word} (hm : Stands m cs) (hpending : m.pending = none)
    (hliteral : t.literal = false) (hvalue : t.value ≠ "~") (hplain : Plain cs)
    (hmeaning : m.dictionary.meaning? t = .ok (some w)) (hdefining : defining? w = none) :
    ∃ s, s.Holds cs ∧ (interpret t).on m = (.ok (some w), { m with source := some s }) := by
  obtain ⟨s, hs, htry⟩ := unhandled_of_plain hm hvalue hplain
  refine ⟨s, hs, ?_⟩
  have hopen : (m.pending.isNone && !t.literal) = true := by
    rw [hpending, hliteral]
    rfl
  rw [interpret_eq, on_get_bind, if_pos hopen, on_bind_ok htry, if_neg Bool.false_ne_true]
  exact readAs_of_word (m := { m with source := some s }) hpending hmeaning hdefining

end Words

section Steps

variable {m e : Machine} {cs : List (String × Bool)}

def afterToken (m : Machine) (t : Token) : Option Word → Machine
  | none => m
  | some w =>
    { m with
      line := m.line.map fun l => { l with parsed := t.value :: l.parsed }
      frames := .sequence [.action w] :: m.frames }

theorem Ends.token {c : String × Bool} (h : Ends m (.ok true) e) (hm : Stands m (c :: cs)) :
    ∃ t s result m', t.content = c ∧ s.Holds cs ∧
      (interpret t).on { m with source := some s } = (.ok result, m') ∧
      Ends (afterToken m' t result) (.ok true) e := by
  obtain ⟨t, s, hnext, ht, hs⟩ := hm.nextToken
  have hgo {done : Option Bool} {n : Machine} (h : turn.on m = (.ok done, n)) :
      done = none ∧ ∃ result m', (interpret t).on { m with source := some s } = (.ok result, m') ∧
        n = afterToken m' t result := by
    rw [turn_token hm.ready, takeToken, on_bind_ok hnext] at h
    obtain ⟨result, m', hinterpret, h⟩ := on_bind_eq_ok h
    cases result with
    | none =>
      cases h
      exact ⟨rfl, none, n, hinterpret, rfl⟩
    | some w =>
      cases h
      exact ⟨rfl, some w, m', hinterpret, rfl⟩
  cases h with
  | stop h => cases (hgo h).1
  | step h hends =>
    obtain ⟨-, result, m', hinterpret, rfl⟩ := hgo h
    exact ⟨t, s, result, m', ht, hs, hinterpret, hends⟩

theorem Ends.exhausted (h : Ends m (.ok true) e) (hm : Stands m []) : e = m := by
  have hturn : turn.on m = (.ok (some true), m) := by
    rw [turn_token hm.ready, takeToken, on_bind_ok hm.nextToken_nil]
    rfl
  cases h with
  | stop h =>
    rw [hturn] at h
    cases h
    rfl
  | step h _ =>
    rw [hturn] at h
    cases h

end Steps

section Naming

variable {m m' : Machine} {name : String}

theorem added_of_addWord {w : Word} {permanent : Bool}
    (h : (addWord name w permanent).on m = (.ok (), m')) :
    ∃ d, m.dictionary.add name w permanent = .ok d ∧
      Machine.Logged { m with dictionary := d } m' := by
  rw [addWord, on_get_bind] at h
  obtain ⟨d, hadd, h⟩ := on_lift_bind_eq_ok h
  obtain ⟨n, hn, hreport⟩ := report_logged .debug "Dictionary" s!"Adding word `{name}`."
    { m with dictionary := d }
  rw [on_modify_bind, hreport] at h
  cases h
  exact ⟨d, hadd, hn⟩

private theorem logged_of_reportText {level : Level} {category : String}
    {message : Except Cause String}
    (h : (reportText level category message).on m = (.ok (), m')) : m.Logged m' := by
  cases message with
  | ok text =>
    obtain ⟨n, hn, hreport⟩ := report_logged level category text m
    rw [← report, hreport] at h
    cases h
    exact hn
  | error c =>
    rw [reportText, on_get_bind] at h
    split at h
    · cases h
    · cases h
      exact .refl m

theorem added_of_nameVariable (h : (nameVariable name).on m = (.ok (), m')) :
    ∃ a memory d, m.memory.addVariable name 1 = .ok (a, memory) ∧
      m.dictionary.add name (.pusher name (.int a)) false = .ok d ∧
      Machine.Logged { m with memory, dictionary := d } m' := by
  rw [nameVariable, on_get_bind] at h
  obtain ⟨⟨a, memory⟩, hmemory, h⟩ := on_lift_bind_eq_ok h
  obtain ⟨n, ⟨entries, events, rfl⟩, hreport⟩ := report_logged .debug "Memory"
    s!"Creating variable `{name}` at {a}." { m with memory }
  dsimp only at h
  rw [on_modify_bind, on_bind_ok hreport] at h
  obtain ⟨d, hadd, hd⟩ := added_of_addWord h
  exact ⟨a, memory, d, hmemory, hadd, Machine.Logged.trans ⟨entries, events, rfl⟩ hd⟩

theorem added_of_nameConstant {x : Value} {below : Stack} (hstack : m.stack = below.push x)
    (h : (nameConstant name).on m = (.ok (), m')) :
    ∃ d, m.dictionary.add name (.pusher name x) false = .ok d ∧
      Machine.Logged { m with stack := below, dictionary := d } m' := by
  have hpop : pop.on m = (.ok x, { m with stack := below }) := by
    rw [pop, on_get_bind, hstack]
    rfl
  rw [nameConstant, on_bind_ok hpop] at h
  obtain ⟨_, n, hreport, h⟩ := on_bind_eq_ok h
  obtain ⟨entries, events, rfl⟩ := logged_of_reportText hreport
  obtain ⟨d, hadd, hd⟩ := added_of_addWord h
  exact ⟨d, hadd, Machine.Logged.trans ⟨entries, events, rfl⟩ hd⟩

theorem opened_of_openDefinition (h : (openDefinition name).on m = (.ok (), m')) :
    Machine.Logged { m with pending := some { name } } m' := by
  obtain ⟨n, ⟨entries, events, rfl⟩, hreport⟩ := report_logged .debug "Compiler"
    s!"Starting definition `{name}`." m
  rw [openDefinition, on_bind_ok hreport] at h
  cases h
  exact ⟨entries, events, rfl⟩

theorem added_of_endDefinition {p : Pending} (h : (endDefinition p).on m = (.ok (), m')) :
    ∃ nodes d, compile p.words.reverse (some p.name) = .ok nodes ∧
      m.dictionary.add p.name (.definition p.name nodes false) false = .ok d ∧
      Machine.Logged { m with pending := none, dictionary := d } m' := by
  rw [endDefinition, on_modify_bind] at h
  obtain ⟨nodes, hnodes, h⟩ := on_lift_bind_eq_ok h
  obtain ⟨_, n, hadded, h⟩ := on_bind_eq_ok h
  obtain ⟨d, hadd, hd⟩ := added_of_addWord hadded
  obtain ⟨k, hk, hreport⟩ := report_logged .debug "Compiler" s!"Ending definition `{p.name}`." n
  rw [hreport] at h
  cases h
  exact ⟨nodes, d, hnodes, hadd, hd.trans hk⟩

end Naming

section Lines

variable {m e : Machine} {cs : List (String × Bool)} {c : String × Bool}

private theorem named_of_readAs {m' : Machine} {t : Token} {w : Word} {code : String}
    {act : String → Run Unit} {result : Option Word} (hm : Stands m (c :: cs))
    (hpending : m.pending = none) (hmeaning : m.dictionary.meaning? t = .ok (some w))
    (hact : defining? w = some (code, act)) (h : (readAs t).on m = (.ok result, m')) :
    result = none ∧ ∃ s, s.Holds cs ∧ (act c.1).on { m with source := some s } = (.ok (), m') := by
  rw [readAs, on_bind_ok (meaning_of_word hmeaning)] at h
  dsimp only at h
  rw [on_get_bind, hpending] at h
  dsimp only at h
  rw [enact, hact] at h
  obtain ⟨name, m₁, hname, h⟩ := on_bind_eq_ok h
  obtain ⟨u, s, hnext, hu, hs⟩ := hm.nextToken
  rw [expectName, on_bind_ok hnext] at hname
  cases hname
  obtain ⟨_, m₂, hdone, h⟩ := on_bind_eq_ok h
  cases h
  refine ⟨rfl, s, hs, ?_⟩
  rw [← hu]
  exact hdone

/-- A line that goes on with a defining word does with the next name what the word says. -/
theorem Ends.defining {u : Token} {key : String} {w : Word} {code : String}
    {act : String → Run Unit} (h : Ends m (.ok true) e) (hm : Stands m (u.content :: c :: cs))
    (hpending : m.pending = none) (hspells : u.Spells key) (hkey : key ≠ "~")
    (hlookup : m.dictionary.lookup key = .ok (some w)) (hact : defining? w = some (code, act)) :
    ∃ s m', s.Holds cs ∧ (act c.1).on { m with source := some s } = (.ok (), m') ∧
      Ends m' (.ok true) e := by
  obtain ⟨t, s, result, m', ht, hs, hinterpret, hends⟩ := h.token hm
  have hliteral : t.literal = false := (Token.literal_of_content ht).trans hspells.1
  have hlower : Text.lower t.value = key := by rw [Token.value_of_content ht, hspells.2]
  have hvalue : t.value ≠ "~" := by
    intro htilde
    rw [htilde] at hlower
    have hsame : Text.lower "~" = "~" := by decide +kernel
    exact hkey (hlower.symm.trans hsame)
  have hfound : m.dictionary.lookup t.value = .ok (some w) := by
    apply (Dictionary.lookup_of_lower _ _).mpr hlookup
    rw [← hlower, Text.lower_lower]
  obtain ⟨s', hs', hread⟩ := readAs_of_interpret (hm.source hs) hpending (fun _ => hvalue)
    (fun _ => .inr (Dictionary.hasKey_of_lookup hfound)) hinterpret
  obtain ⟨rfl, s'', hs'', hdone⟩ := named_of_readAs ((hm.source hs).source hs') hpending
    (Dictionary.meaning?_of_lookup hliteral hfound) hact hread
  exact ⟨s'', m', hs'', hdone, hends⟩

private theorem compileWord_of_ne {p : Pending} {w : Word} (h : w ≠ .control .semicolon) :
    compileWord p w =
      modify fun m => { m with pending := some { p with words := w :: p.words } } := by
  unfold compileWord
  split
  · exact absurd rfl h
  · rfl

private theorem compiled_of_readAs {m' : Machine} {p : Pending} {t : Token} {result : Option Word}
    (hpending : m.pending = some p) (h : (readAs t).on m = (.ok result, m')) :
    result = none ∧ (m.dictionary.meaning? t = .ok none ∧ m.Logged m' ∨
      ∃ w, m.dictionary.meaning? t = .ok (some w) ∧ (compileWord p w).on m = (.ok (), m')) := by
  obtain ⟨found, m₁, hmeaning, h⟩ := on_bind_eq_ok h
  obtain ⟨hfound, hlogged⟩ := meaning_of_ok hmeaning
  cases found with
  | none =>
    cases h
    exact ⟨rfl, .inl ⟨hfound, hlogged⟩⟩
  | some w =>
    rw [meaning_of_word hfound] at hmeaning
    cases hmeaning
    dsimp only at h
    rw [on_get_bind, hpending] at h
    obtain ⟨_, m₂, hcompile, h⟩ := on_bind_eq_ok h
    cases h
    exact ⟨rfl, .inr ⟨w, hfound, hcompile⟩⟩

private theorem Ends.compiled {p : Pending} {u : Token} (h : Ends m (.ok true) e)
    (hm : Stands m (u.content :: cs)) (hpending : m.pending = some p) :
    ∃ s m', s.Holds cs ∧ Ends m' (.ok true) e ∧
      (m.dictionary.meaning? u = .ok none ∧ Machine.Logged { m with source := some s } m' ∨
        ∃ w, m.dictionary.meaning? u = .ok (some w) ∧
          (compileWord p w).on { m with source := some s } = (.ok (), m')) := by
  obtain ⟨t, s, result, m', ht, hs, hinterpret, hends⟩ := h.token hm
  have hread := readAs_of_interpret_pending (m := { m with source := some s }) hpending hinterpret
  obtain ⟨rfl, hcompiled⟩ := compiled_of_readAs (m := { m with source := some s }) hpending hread
  rw [Dictionary.meaning?_congr _ ht] at hcompiled
  exact ⟨s, m', hs, hends, hcompiled⟩

/-- The words of a definition that is read to its end are compiled, the earliest first. -/
theorem Ends.body {p : Pending} {body : List Token} {last : Token} (h : Ends m (.ok true) e)
    (hm : Stands m ((body ++ [last]).map Token.content)) (hpending : m.pending = some p)
    (hbody : ∀ t ∈ body, m.dictionary.meaning? t ≠ .ok (some (.control .semicolon)))
    (hlast : m.dictionary.meaning? last = .ok (some (.control .semicolon))) :
    ∃ ws nodes, body.mapM m.dictionary.meaning? = .ok ws ∧
      compile (p.words.reverse ++ ws.filterMap id) (some p.name) = .ok nodes ∧
      m.dictionary.add p.name (.definition p.name nodes false) false = .ok e.dictionary := by
  induction body generalizing m p with
  | nil =>
    obtain ⟨s, m', hs, hends, ⟨hnone, -⟩ | ⟨w, hw, hcompile⟩⟩ := h.compiled hm hpending
    · rw [hlast] at hnone
      cases hnone
    · rw [hlast] at hw
      cases hw
      obtain ⟨nodes, d, hnodes, hadd, entries, events, rfl⟩ := added_of_endDefinition hcompile
      have he := hends.exhausted ⟨hm.ready, s, rfl, hs⟩
      subst he
      refine ⟨[], nodes, rfl, ?_, hadd⟩
      rw [List.filterMap_nil, List.append_nil, hnodes]
  | cons u body ih =>
    have hrest : ∀ t ∈ body, m.dictionary.meaning? t ≠ .ok (some (.control .semicolon)) :=
      fun t ht => hbody t (List.mem_cons_of_mem u ht)
    obtain ⟨s, m', hs, hends, ⟨hnone, hlogged⟩ | ⟨w, hw, hcompile⟩⟩ := h.compiled hm hpending
    · obtain ⟨entries, events, rfl⟩ := hlogged
      obtain ⟨ws, nodes, hws, hnodes, hadd⟩ :=
        ih hends ⟨hm.ready, s, rfl, hs⟩ hpending hrest hlast
      refine ⟨none :: ws, nodes, ?_, ?_, hadd⟩
      · rw [List.mapM_cons, hnone]
        exact except_bind_eq_ok.mpr ⟨_, rfl, except_bind_eq_ok.mpr ⟨ws, hws, rfl⟩⟩
      · rw [List.filterMap_cons_none rfl, hnodes]
    · have hne : w ≠ .control .semicolon := by
        intro hsame
        rw [hsame] at hw
        exact hbody u List.mem_cons_self hw
      rw [compileWord_of_ne hne] at hcompile
      cases hcompile
      obtain ⟨ws, nodes, hws, hnodes, hadd⟩ :=
        ih hends ⟨hm.ready, s, rfl, hs⟩ rfl hrest hlast
      refine ⟨some w :: ws, nodes, ?_, ?_, hadd⟩
      · rw [List.mapM_cons, hw]
        exact except_bind_eq_ok.mpr ⟨_, rfl, except_bind_eq_ok.mpr ⟨ws, hws, rfl⟩⟩
      · rw [← hnodes]
        simp

private theorem Ends.turned {m₁ : Machine} {o : Except Failure Bool} (h : Ends m o e)
    (hturn : turn.on m = (.ok none, m₁)) : Ends m₁ o e := by
  cases h with
  | stop h =>
    rw [hturn] at h
    cases h
  | fail h =>
    rw [hturn] at h
    cases h
  | step h hends =>
    rw [hturn] at h
    cases h
    exact hends

private theorem Ends.done {o : Except Failure Bool} (h : Ends m o e)
    (hm : Ready [.sequence []] m) : Ends { m with frames := [] } o e := by
  apply h.turned
  rw [turn_frame hm, advance, dropFrame, on_modify_bind, hm.2]
  rfl

theorem Ends.pushed {label : String} {x : Value} {o : Except Failure Bool}
    (h : Ends m o e) (hm : Ready [.sequence [.action (.native label (.push x))]] m) :
    Ends { m with frames := [], steps := m.steps + 1, stack := m.stack.push x } o e := by
  have hrun : turn.on m = (.ok none, { m with
      frames := [.sequence []]
      steps := m.steps + 1
      stack := m.stack.push x }) := by
    rw [turn_frame hm, on_bind_ok ((advance_native _ _ _ _).trans (native_of_ok label rfl)), hm.2]
    rfl
  have hran := h.turned hrun
  exact hran.done ⟨hm.1, rfl⟩

theorem plain_of_spells {u : Token} {key : String} (h : u.Spells key) (his : key ≠ "is")
    (hisNow : key ≠ "isnow") : Plain (u.content :: cs) := by
  intro t ht
  have hlower : Text.lower t.value = key := by
    rw [← Token.value_of_content (Option.some.inj ht), h.2]
  simp [redefinitionMode?, hlower, his, hisNow]

end Lines

end Run

end Forthline
