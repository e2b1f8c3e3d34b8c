import Forthline.Proofs.Interpreting

/-!
# Definitions take effect

A line that defines a word adds it under its name. The name leads to the new word, unless it was
redefined before: a lookup goes through the redefinitions first, and a definition leaves them
alone.
-/

namespace Forthline

inductive DefiningLine where
  | definition (name : Token) (body : List Token)
  | «variable» (name : Token)
  | constant (value name : Token)

namespace DefiningLine

def name : DefiningLine → Token
  | definition name _ | «variable» name | constant _ name => name

def Written : DefiningLine → List Token → Prop
  | definition name body, ts => ∃ colon semicolon, colon.Spells ":" ∧ semicolon.Spells ";" ∧
      ts = colon :: name :: (body ++ [semicolon])
  | «variable» name, ts => ∃ code, code.Spells "variable" ∧ ts = [code, name]
  | constant value name, ts => ∃ code, code.Spells "constant" ∧ ts = [value, code, name]

/-- The words of the line mean to the dictionary what they meant at first: no other word ends the
definition, and the value is one. -/
def Understood (d : Dictionary) : DefiningLine → Prop
  | definition _ body => d.lookup ":" = .ok (some (.control .colon)) ∧
      d.lookup ";" = .ok (some (.control .semicolon)) ∧
      ∀ t ∈ body, d.meaning? t ≠ .ok (some (.control .semicolon))
  | «variable» _ => d.lookup "variable" = .ok (some (.control .variable))
  | constant value _ => d.lookup "constant" = .ok (some (.control .constant)) ∧
      ∃ label x, d.meaning? value = .ok (some (.native label (.push x)))

def Creates (m : Machine) : DefiningLine → Word → Prop
  | definition name body, w => ∃ ws nodes, body.mapM m.dictionary.meaning? = .ok ws ∧
      compile (ws.filterMap id) (some name.value) = .ok nodes ∧
      w = .definition name.value nodes false
  | «variable» name, w => ∃ a memory, m.memory.addVariable name.value 1 = .ok (a, memory) ∧
      w = .pusher name.value (.int a)
  | constant value name, w => ∃ label x,
      m.dictionary.meaning? value = .ok (some (.native label (.push x))) ∧
      w = .pusher name.value x

end DefiningLine

namespace Run

section Defined

variable {m e : Machine}

private def Adds (m e : Machine) (l : DefiningLine) : Prop :=
  ∃ w, l.Creates m w ∧ m.dictionary.add l.name.value w false = .ok e.dictionary

private theorem adds_definition {colon semicolon name : Token} {body : List Token}
    (h : Ends m (.ok true) e)
    (hm : Stands m ((colon :: name :: (body ++ [semicolon])).map Token.content))
    (hpending : m.pending = none) (hcolon : colon.Spells ":") (hsemicolon : semicolon.Spells ";")
    (hwords : (DefiningLine.definition name body).Understood m.dictionary) :
    Adds m e (.definition name body) := by
  obtain ⟨s, m₁, hs, hopen, hends⟩ :=
    h.defining hm hpending hcolon (by decide) hwords.1 (w := .control .colon) rfl
  obtain ⟨entries, events, rfl⟩ := opened_of_openDefinition hopen
  have hlast : m.dictionary.meaning? semicolon = .ok (some (.control .semicolon)) := by
    apply Dictionary.meaning?_of_lookup hsemicolon.1
    apply (Dictionary.lookup_of_lower _ _).mpr hwords.2.1
    rw [← hsemicolon.2, Text.lower_lower]
  obtain ⟨ws, nodes, hws, hnodes, hadd⟩ :=
    hends.body ⟨hm.ready, s, rfl, hs⟩ rfl hwords.2.2 hlast
  exact ⟨_, ⟨ws, nodes, hws, hnodes, rfl⟩, hadd⟩

private theorem adds_variable {code name : Token} (h : Ends m (.ok true) e)
    (hm : Stands m ([code, name].map Token.content)) (hpending : m.pending = none)
    (hcode : code.Spells "variable")
    (hwords : (DefiningLine.variable name).Understood m.dictionary) :
    Adds m e (.variable name) := by
  obtain ⟨s, m₁, hs, hname, hends⟩ :=
    h.defining hm hpending hcode (by decide) hwords (w := .control .variable) rfl
  obtain ⟨a, memory, d, hmemory, hadd, entries, events, rfl⟩ := added_of_nameVariable hname
  have he := hends.exhausted ⟨hm.ready, s, rfl, hs⟩
  subst he
  exact ⟨_, ⟨a, memory, hmemory, rfl⟩, hadd⟩

private theorem adds_constant {value code name : Token} (h : Ends m (.ok true) e)
    (hm : Stands m ([value, code, name].map Token.content)) (hpending : m.pending = none)
    (hcode : code.Spells "constant")
    (hwords : (DefiningLine.constant value name).Understood m.dictionary) :
    Adds m e (.constant value name) := by
  obtain ⟨hconstant, label, x, hvalue⟩ := hwords
  obtain ⟨t, s, result, m₁, ht, hs, hinterpret, hends⟩ := h.token hm
  have htilde := ne_tilde_of_interpret (hm.source hs) hpending hinterpret
  obtain ⟨s', hs', hread⟩ := readAs_of_interpret (hm.source hs) hpending htilde
    (fun _ => .inl (plain_of_spells hcode (by decide) (by decide))) hinterpret
  have hmeaning : m.dictionary.meaning? t = .ok (some (.native label (.push x))) := by
    rw [Dictionary.meaning?_congr _ ht, hvalue]
  rw [readAs_of_word (m := { m with source := some s' }) hpending hmeaning rfl] at hread
  cases hread
  have hpushed := hends.pushed
    ⟨hm.ready.1, congrArg (Frame.sequence [.action (.native label (.push x))] :: ·) hm.ready.2⟩
  obtain ⟨s'', m₂, hs'', hname, hends⟩ := hpushed.defining
    ⟨⟨hm.ready.1, rfl⟩, s', rfl, hs'⟩ hpending hcode (by decide) hconstant
    (w := .control .constant) rfl
  obtain ⟨d, hadd, entries, events, rfl⟩ := added_of_nameConstant rfl hname
  have he := hends.exhausted ⟨⟨hm.ready.1, rfl⟩, s'', rfl, hs''⟩
  subst he
  exact ⟨_, ⟨label, x, hvalue, rfl⟩, hadd⟩

private theorem adds_of_written {l : DefiningLine} {ts : List Token} (h : Ends m (.ok true) e)
    (hm : Stands m (ts.map Token.content)) (hpending : m.pending = none) (hwritten : l.Written ts)
    (hwords : l.Understood m.dictionary) : Adds m e l := by
  cases l with
  | definition name body =>
    obtain ⟨colon, semicolon, hcolon, hsemicolon, rfl⟩ := hwritten
    exact adds_definition h hm hpending hcolon hsemicolon hwords
  | «variable» name =>
    obtain ⟨code, hcode, rfl⟩ := hwritten
    exact adds_variable h hm hpending hcode hwords
  | constant value name =>
    obtain ⟨code, hcode, rfl⟩ := hwritten
    exact adds_constant h hm hpending hcode hwords

private theorem defining?_of_creates {l : DefiningLine} {w : Word} (h : l.Creates m w) :
    defining? w = none := by
  cases l with
  | definition name body =>
    obtain ⟨ws, nodes, -, -, rfl⟩ := h
    rfl
  | «variable» name =>
    obtain ⟨a, memory, -, rfl⟩ := h
    rfl
  | constant value name =>
    obtain ⟨label, x, -, rfl⟩ := h
    rfl

end Defined

/-- A line that defines a word, read by an idle machine to its end, adds the word under its name. If
the name has no redefinition, it leads to the new word, which is the word to run when the name is
read next. A name that has one leads to where it led before. -/
theorem definition_takes_effect {m m' : Machine} {text : String} {ts : List Token}
    {l : DefiningLine} {fuel : Nat} {r : LineResult} (hm : m.Idle) (hpending : m.pending = none)
    (htext : tokenize text = .ok ts) (hwritten : l.Written ts)
    (hwords : l.Understood m.dictionary) (h : (readLine fuel text).on m = (.ok r, m'))
    (hr : r.paused = false ∧ r.failure = none) :
    ∃ w, l.Creates m w ∧ m.dictionary.add l.name.value w false = .ok m'.dictionary ∧
      (m.dictionary.redefinitions.get? (Text.lower l.name.value) = none →
        m'.dictionary.lookup l.name.value = .ok (some w) ∧
        ∀ t k cs, t.Spells (Text.lower l.name.value) → t.value ≠ "~" → Stands k cs → Plain cs →
          k.dictionary = m'.dictionary → k.pending = none →
          ∃ s, s.Holds cs ∧ (interpret t).on k = (.ok (some w), { k with source := some s })) ∧
      (m.dictionary.redefinitions.get? (Text.lower l.name.value) ≠ none →
        m'.dictionary.lookup l.name.value = m.dictionary.lookup l.name.value) := by
  obtain ⟨n, e, map, ⟨entries, events, rfl⟩, hends, -, -, hconcluded⟩ :=
    ends_of_finished hm.free h hr.1 hr.2
  have hdictionary : m'.dictionary = e.dictionary := by
    obtain ⟨_, _, rfl⟩ := hconcluded
    rfl
  obtain ⟨w, hcreates, hadd⟩ := adds_of_written hends
    ⟨⟨hm.paused, hm.frames⟩, _, rfl, Stream.holds_ofText htext⟩ hpending hwritten hwords
  rw [← hdictionary] at hadd
  refine ⟨w, hcreates, hadd, ?_, ?_⟩
  · intro hfree
    have hlookup := Dictionary.lookup_add_of_endsAt hadd ⟨⟨0, rfl⟩, hfree⟩
    refine ⟨hlookup, ?_⟩
    intro t k cs hspells hvalue hk hplain hsame hnone
    apply interpret_of_word hk hnone hspells.1 hvalue hplain _ (defining?_of_creates hcreates)
    apply Dictionary.meaning?_of_lookup hspells.1
    rw [hsame]
    exact (Dictionary.lookup_of_lower hspells.2 _).mpr hlookup
  · intro hredefined
    apply Dictionary.lookup_add_of_not_endsAt hadd
    intro hend
    exact hredefined hend.2

private def controlIn? : Except Cause (Option Word) → Option Control
  | .ok (some (.control c)) => some c
  | _ => none

private theorem control_of_controlIn? {found : Except Cause (Option Word)} {c : Control}
    (h : controlIn? found = some c) : found = .ok (some (.control c)) := by
  unfold controlIn? at h
  split at h
  · cases h
    rfl
  · cases h

private theorem ne_of_controlIn? {found : Except Cause (Option Word)} {c : Control}
    (h : controlIn? found ≠ some c) : found ≠ .ok (some (.control c)) := by
  intro hfound
  exact h (by rw [hfound, controlIn?])

private def twice : DefiningLine :=
  .definition ⟨"Twice", false, 3⟩ [⟨"2", false, 9⟩, ⟨"*", false, 11⟩]

private def twiceRead : Except Stop LineResult × Machine :=
  (readLine 100 ": Twice 2 * ;").on Session.builtin

theorem twice_takes_effect :
    Session.builtin.Idle ∧
    ∃ w, twice.Creates Session.builtin w ∧
      twiceRead.2.dictionary.lookup "Twice" = .ok (some w) := by
  have htests : (Session.builtin.pending.isNone &&
      (Session.builtin.dictionary.redefinitions.get? (Text.lower "Twice")).isNone &&
      controlIn? (Session.builtin.dictionary.lookup ":") = some .colon &&
      controlIn? (Session.builtin.dictionary.lookup ";") = some .semicolon &&
      controlIn? (Session.builtin.dictionary.meaning? ⟨"2", false, 9⟩) = none &&
      controlIn? (Session.builtin.dictionary.meaning? ⟨"*", false, 11⟩) = none &&
      twiceRead.1.toOption.any (fun r => !r.paused && r.failure.isNone)) = true := by
    decide +kernel
  simp only [Bool.and_eq_true, decide_eq_true_eq, Option.isNone_iff_eq_none] at htests
  obtain ⟨⟨⟨⟨⟨⟨hpending, hfree⟩, hcolon⟩, hsemicolon⟩, htwo⟩, htimes⟩, hread⟩ := htests
  have hwords : twice.Understood Session.builtin.dictionary := by
    refine ⟨control_of_controlIn? hcolon, control_of_controlIn? hsemicolon, ?_⟩
    intro t ht
    apply ne_of_controlIn?
    rcases List.mem_cons.mp ht with rfl | ht
    · simp [htwo]
    · cases List.mem_singleton.mp ht
      simp [htimes]
  have hwritten : twice.Written [⟨":", false, 1⟩, ⟨"Twice", false, 3⟩, ⟨"2", false, 9⟩,
      ⟨"*", false, 11⟩, ⟨";", false, 13⟩] :=
    ⟨⟨":", false, 1⟩, ⟨";", false, 13⟩, ⟨rfl, by decide +kernel⟩, ⟨rfl, by decide +kernel⟩, rfl⟩
  obtain ⟨r, hline, hr⟩ := finished_of_any hread
  obtain ⟨w, hcreates, -, heffect, -⟩ :=
    definition_takes_effect Session.builtin_idle hpending rfl hwritten hwords hline hr
  exact ⟨Session.builtin_idle, w, hcreates, (heffect hfree).1⟩

def afterLines (before : List String) : Machine :=
  before.foldl (fun m line => ((readLine 100 line).on m).2) Session.builtin

/-- After the lines before it the definition is read to its end, but its name leads to no word. -/
def Unheeded (before : List String) (text : String) (l : DefiningLine) : Prop :=
  (afterLines before).Idle ∧ (afterLines before).pending = none ∧
  (∃ ts, tokenize text = .ok ts ∧ l.Written ts) ∧
  ∃ r m', (readLine 100 text).on (afterLines before) = (.ok r, m') ∧ r.paused = false ∧
    r.failure = none ∧ m'.dictionary.lookup l.name.value = .ok none

private def goesUnheeded (before : List String) (text name : String) : Bool :=
  let m := afterLines before
  let o := (readLine 100 text).on m
  m.line.isNone && !m.paused && !m.running && m.frames.isEmpty && m.pending.isNone &&
    o.1.toOption.any (fun r => !r.paused && r.failure.isNone) &&
    (o.2.dictionary.lookup name).toOption.any Option.isNone

private theorem unheeded_of_goesUnheeded {before : List String} {text : String} {ts : List Token}
    {l : DefiningLine} (htext : tokenize text = .ok ts) (hwritten : l.Written ts)
    (h : goesUnheeded before text l.name.value = true) : Unheeded before text l := by
  simp only [goesUnheeded, Bool.and_eq_true, Bool.not_eq_true', Option.isNone_iff_eq_none,
    List.isEmpty_iff] at h
  obtain ⟨⟨⟨⟨⟨⟨hline, hpaused⟩, hrunning⟩, hframes⟩, hpending⟩, hread⟩, hlookup⟩ := h
  obtain ⟨r, hread, hr⟩ := finished_of_any hread
  refine ⟨⟨hline, hpaused, hrunning, hframes⟩, hpending, ⟨ts, htext, hwritten⟩, r, _, hread,
    hr.1, hr.2, ?_⟩
  rcases hfound : Dictionary.lookup _ l.name.value with c | - | w
  · rw [hfound] at hlookup
    cases hlookup
  · rfl
  · rw [hfound] at hlookup
    cases hlookup

/-- A definition can go without effect, although the line is read to its end: when its name was
redefined before, and when the words that define have got another meaning. The tilde can be
defined, but it cannot be used. -/
theorem definition_can_go_unheeded :
    Unheeded ["a is b"] ": a 1 ;" (.definition ⟨"a", false, 3⟩ [⟨"1", false, 5⟩]) ∧
    Unheeded ["semi isNow ;", ": ; 7 ;", ": : 5 semi"] ": x 1 ;"
      (.definition ⟨"x", false, 3⟩ [⟨"1", false, 5⟩]) ∧
    ((readLine 100 "~").on (afterLines [": ~ 1 ;"])).1.toOption.any
      (fun r => r.failure.isSome) := by
  have hwritten (name : Token) : (DefiningLine.definition name [⟨"1", false, 5⟩]).Written
      [⟨":", false, 1⟩, name, ⟨"1", false, 5⟩, ⟨";", false, 7⟩] :=
    ⟨⟨":", false, 1⟩, ⟨";", false, 7⟩, ⟨rfl, by decide +kernel⟩, ⟨rfl, by decide +kernel⟩, rfl⟩
  refine ⟨?_, ?_, by decide +kernel⟩
  · exact unheeded_of_goesUnheeded rfl (hwritten ⟨"a", false, 3⟩) (by decide +kernel)
  · exact unheeded_of_goesUnheeded rfl (hwritten ⟨"x", false, 3⟩) (by decide +kernel)

end Run

end Forthline
