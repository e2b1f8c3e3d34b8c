import Forthline.Word.Structure

/-!
# Balanced control words

Nested structures have a flat form, in which every structure is spelled by the control words that
open, divide and close it. Compiling is the inverse of spelling out: it accepts exactly the flat
forms of structures, gives back the structure, and refuses every other list of words as unbalanced.
-/

namespace Forthline

namespace Control

def isStructural : Control → Bool
  | «if» | «else» | «then» | «do» | loop | plusLoop | begin | «until» => true
  | _ => false

end Control

def Word.isStructural : Word → Bool
  | .control c => c.isStructural
  | _ => false

/-- The nodes on the left are spelled by the words on the right. A conditional without an
alternative may be spelled with or without an `else`. -/
inductive Renders : List Node → List Word → Prop
  | nil : Renders [] []
  | action {w : Word} {ns : List Node} {ws : List Word} :
      w.isStructural = false → Renders ns ws → Renders (.action w :: ns) (w :: ws)
  | consequent {c ns : List Node} {cs ws : List Word} :
      Renders c cs → Renders ns ws →
      Renders (.conditional c [] :: ns) (.control .if :: cs ++ .control .then :: ws)
  | alternative {c a ns : List Node} {cs as ws : List Word} :
      Renders c cs → Renders a as → Renders ns ws →
      Renders (.conditional c a :: ns)
        (.control .if :: cs ++ .control .else :: as ++ .control .then :: ws)
  | counted {b ns : List Node} {bs ws : List Word} :
      Renders b bs → Renders ns ws →
      Renders (.counted b false :: ns) (.control .do :: bs ++ .control .loop :: ws)
  | stepped {b ns : List Node} {bs ws : List Word} :
      Renders b bs → Renders ns ws →
      Renders (.counted b true :: ns) (.control .do :: bs ++ .control .plusLoop :: ws)
  | indefinite {b ns : List Node} {bs ws : List Word} :
      Renders b bs → Renders ns ws →
      Renders (.indefinite b :: ns) (.control .begin :: bs ++ .control .until :: ws)

namespace Renders

theorem append {ns ns' : List Node} {ws ws' : List Word} (h : Renders ns ws)
    (h' : Renders ns' ws') : Renders (ns ++ ns') (ws ++ ws') := by
  induction h with
  | nil => exact h'
  | action hw _ ih => exact .action hw ih
  | consequent hc _ _ ih => simpa using Renders.consequent hc ih
  | alternative hc ha _ _ _ ih => simpa using Renders.alternative hc ha ih
  | counted hb _ _ ih => simpa using Renders.counted hb ih
  | stepped hb _ _ ih => simpa using Renders.stepped hb ih
  | indefinite hb _ _ ih => simpa using Renders.indefinite hb ih

end Renders

namespace Scope

private theorem add_of_not_structural {w : Word} (hw : w.isStructural = false) (s : Scope) :
    s.add w = .ok (s.append (.action w)) := by
  cases w with
  | control c => cases c <;> first | rfl | cases hw
  | native | definition | stray => rfl

private theorem foldlM_add_cons {s s' : Scope} {w : Word} (h : s.add w = .ok s')
    (ws : List Word) : (w :: ws).foldlM add s = ws.foldlM add s' := by
  rw [List.foldlM_cons, h]
  rfl

private theorem foldlM_add_append {s s' : Scope} {vs : List Word} (h : vs.foldlM add s = .ok s')
    (ws : List Word) : (vs ++ ws).foldlM add s = ws.foldlM add s' := by
  rw [List.foldlM_append, h]
  rfl

private theorem foldlM_add_closed {b : List Node} {bs : List Word} {o : Opening} {c : Control}
    {n : Node} (hb : ∀ s : Scope, bs.foldlM add s = .ok { s with body := b.reverse ++ s.body })
    (hc : ∀ s : Scope, s.add (.control c) = s.close c) (hn : closed? o b c = some n)
    (before : List Node) (enclosing : List (Opening × List Node)) (ws : List Word) :
    (bs ++ .control c :: ws).foldlM add { body := [], enclosing := (o, before) :: enclosing } =
      ws.foldlM add { body := n :: before, enclosing } := by
  rw [foldlM_add_append (hb _)]
  apply foldlM_add_cons
  rw [hc]
  simp [close, hn]

/-- Reading the flat form of some nodes puts these nodes behind those already compiled, whatever
structures are open around them. -/
theorem foldlM_add_of_renders {ns : List Node} {ws : List Word} (h : Renders ns ws) (s : Scope) :
    ws.foldlM add s = .ok { s with body := ns.reverse ++ s.body } := by
  induction h generalizing s with
  | nil => rfl
  | action hw _ ih =>
    rw [foldlM_add_cons (add_of_not_structural hw s), ih]
    simp [append]
  | consequent _ _ ihc ih =>
    rw [List.cons_append, foldlM_add_cons (rfl : s.add _ = .ok (s.enter .consequent)), enter,
      foldlM_add_closed ihc (fun _ => rfl) rfl, ih]
    simp
  | alternative _ _ _ ihc iha ih =>
    rw [List.append_assoc, List.cons_append,
      foldlM_add_cons (rfl : s.add _ = .ok (s.enter .consequent)), foldlM_add_append (ihc _),
      List.cons_append, foldlM_add_cons (rfl : add _ (.control .else) = .ok _),
      foldlM_add_closed iha (fun _ => rfl) rfl, ih]
    simp [enter]
  | counted _ _ ihb ih | stepped _ _ ihb ih =>
    rw [List.cons_append, foldlM_add_cons (rfl : s.add _ = .ok (s.enter .counted)), enter,
      foldlM_add_closed ihb (fun _ => rfl) rfl, ih]
    simp
  | indefinite _ _ ihb ih =>
    rw [List.cons_append, foldlM_add_cons (rfl : s.add _ = .ok (s.enter .indefinite)), enter,
      foldlM_add_closed ihb (fun _ => rfl) rfl, ih]
    simp

end Scope

inductive Opening.Reads : Opening → List Word → Prop
  | consequent : Reads .consequent [.control .if]
  | alternative {c : List Node} {cs : List Word} : Renders c cs →
      Reads (.alternative c) (.control .if :: cs ++ [.control .else])
  | counted : Reads .counted [.control .do]
  | indefinite : Reads .indefinite [.control .begin]

inductive Encloses : List (Opening × List Node) → List Word → Prop
  | nil : Encloses [] []
  | cons {o : Opening} {before : List Node} {enclosing : List (Opening × List Node)}
      {us ws os : List Word} : Encloses enclosing us → Renders before.reverse ws → o.Reads os →
      Encloses ((o, before) :: enclosing) (us ++ (ws ++ os))

namespace Scope

def Holds (s : Scope) (ws : List Word) : Prop :=
  ∃ us vs, ws = us ++ vs ∧ Encloses s.enclosing us ∧ Renders s.body.reverse vs

private theorem holds_append {s : Scope} {ws : List Word} (h : s.Holds ws) {n : Node}
    {vs : List Word} (hn : Renders [n] vs) : (s.append n).Holds (ws ++ vs) := by
  obtain ⟨us, bs, rfl, he, hb⟩ := h
  refine ⟨us, bs ++ vs, List.append_assoc us bs vs, he, ?_⟩
  simpa [append] using hb.append hn

private theorem holds_enter {s : Scope} {ws : List Word} (h : s.Holds ws) {o : Opening}
    {os : List Word} (ho : o.Reads os) : (s.enter o).Holds (ws ++ os) := by
  obtain ⟨us, bs, rfl, he, hb⟩ := h
  refine ⟨us ++ (bs ++ os), [], by simp, he.cons hb ho, .nil⟩

private theorem renders_closed? {o : Opening} {os : List Word} (ho : o.Reads os)
    {b : List Node} {bs : List Word} (hb : Renders b bs) {c : Control} {n : Node}
    (hn : closed? o b c = some n) : Renders [n] (os ++ (bs ++ [.control c])) := by
  cases ho with
  | consequent =>
    cases c <;> simp [closed?] at hn
    subst hn
    exact Renders.consequent hb .nil
  | alternative hc =>
    cases c <;> simp [closed?] at hn
    subst hn
    simpa using Renders.alternative hc hb .nil
  | counted =>
    cases c <;> simp [closed?] at hn
    · subst hn
      exact Renders.counted hb .nil
    · subst hn
      exact Renders.stepped hb .nil
  | indefinite =>
    cases c <;> simp [closed?] at hn
    subst hn
    exact Renders.indefinite hb .nil

private theorem holds_close {s s' : Scope} {ws : List Word} (h : s.Holds ws) {c : Control}
    (hs : s.close c = .ok s') : s'.Holds (ws ++ [.control c]) := by
  obtain ⟨us, bs, rfl, he, hb⟩ := h
  unfold close at hs
  split at hs
  · cases hs
  · rename_i o before enclosing henc
    rw [henc] at he
    cases he with
    | @cons _ _ _ us ws os he hbefore ho =>
      split at hs
      · rename_i n hn
        cases hs
        refine ⟨us, ws ++ (os ++ (bs ++ [.control c])), by simp, he, ?_⟩
        simpa using hbefore.append (renders_closed? ho hb hn)
      · cases hs

private theorem holds_turn {s s' : Scope} {ws : List Word} (h : s.Holds ws)
    (hs : s.turn = .ok s') : s'.Holds (ws ++ [.control .else]) := by
  obtain ⟨us, bs, rfl, he, hb⟩ := h
  unfold turn at hs
  split at hs
  · rename_i before enclosing henc
    cases hs
    rw [henc] at he
    cases he with
    | @cons _ _ _ us ws os he hbefore ho =>
      cases ho
      refine ⟨us ++ (ws ++ (.control .if :: bs ++ [.control .else])), [], by simp, ?_, .nil⟩
      exact he.cons hbefore (.alternative hb)
  · cases hs

theorem holds_add {s s' : Scope} {ws : List Word} (h : s.Holds ws) {w : Word}
    (hs : s.add w = .ok s') : s'.Holds (ws ++ [w]) := by
  cases hw : w.isStructural with
  | false =>
    rw [add_of_not_structural hw] at hs
    cases hs
    exact holds_append h (.action hw .nil)
  | true =>
    cases w with
    | control c =>
      cases c with
      | «if» =>
        cases hs
        exact holds_enter h .consequent
      | «do» =>
        cases hs
        exact holds_enter h .counted
      | begin =>
        cases hs
        exact holds_enter h .indefinite
      | «else» => exact holds_turn h hs
      | «then» | loop | plusLoop | «until» => exact holds_close h hs
      | colon | semicolon | «variable» | constant | is | isNow | tilde | other => cases hw
    | native | definition | stray => cases hw

theorem holds_foldlM_add {ws vs : List Word} {s s' : Scope} (h : s.Holds vs)
    (hs : ws.foldlM add s = .ok s') : s'.Holds (vs ++ ws) := by
  induction ws generalizing s vs with
  | nil =>
    cases hs
    simpa using h
  | cons w ws ih =>
    cases hadd : s.add w with
    | error => simp [List.foldlM_cons, hadd, bind, Except.bind] at hs
    | ok t =>
      rw [foldlM_add_cons hadd] at hs
      simpa using ih (holds_add h hadd) hs

end Scope

/-- Structuring is the inverse of spelling out. -/
theorem structured_eq_ok_iff (words : List Word) (nodes : List Node) :
    structured words = .ok nodes ↔ Renders nodes words := by
  constructor
  · intro h
    cases hs : words.foldlM Scope.add {} with
    | error => simp [structured, hs, bind, Except.bind] at h
    | ok s =>
      have hfinish : s.finish = .ok nodes := by simpa [structured, hs, bind, Except.bind] using h
      have hstart : Scope.Holds {} [] := ⟨[], [], rfl, .nil, .nil⟩
      obtain ⟨us, vs, hw, he, hb⟩ := Scope.holds_foldlM_add hstart hs
      unfold Scope.finish at hfinish
      split at hfinish
      · rename_i henc
        rw [henc] at he
        cases he
        cases hfinish
        rw [List.nil_append, List.nil_append] at hw
        rwa [hw]
      · cases hfinish
  · intro h
    simp [structured, Scope.foldlM_add_of_renders h, bind, Except.bind, Scope.finish]

private theorem compile_of_ok {words : List Word} {nodes : List Node}
    (h : structured words = .ok nodes) (name : Option String) : compile words name = .ok nodes := by
  rw [compile, h]
  rfl

private theorem compile_of_error {words : List Word} {i : Imbalance}
    (h : structured words = .error i) (name : Option String) :
    compile words name = .error (.unbalanced name i) := by
  rw [compile, h]
  rfl

/-- Compiling accepts exactly the balanced lists of words and gives the one structure that they
spell; every other list is refused as unbalanced, and in no other way. -/
theorem compile_iff_renders (words : List Word) (name : Option String) :
    (∀ nodes, compile words name = .ok nodes ↔ Renders nodes words) ∧
    (∀ nodes nodes', Renders nodes words → Renders nodes' words → nodes = nodes') ∧
    ((∃ i, compile words name = .error (.unbalanced name i)) ↔ ¬∃ nodes, Renders nodes words) ∧
    ∀ c, compile words name = .error c → c.kind = "UnbalancedControlStructure" := by
  have hok (nodes : List Node) : compile words name = .ok nodes ↔ Renders nodes words := by
    rw [← structured_eq_ok_iff]
    cases hs : structured words with
    | error i => simp [compile_of_error hs]
    | ok nodes' => simp [compile_of_ok hs]
  refine ⟨hok, ?_, ?_, ?_⟩
  · intro nodes nodes' h h'
    exact Except.ok.inj (((hok nodes).mpr h).symm.trans ((hok nodes').mpr h'))
  · constructor
    · rintro ⟨i, hi⟩ ⟨nodes, h⟩
      rw [(hok nodes).mpr h] at hi
      cases hi
    · intro h
      cases hs : structured words with
      | error i => exact ⟨i, compile_of_error hs name⟩
      | ok nodes => exact absurd ⟨nodes, (structured_eq_ok_iff words nodes).mp hs⟩ h
  · intro c hc
    cases hs : structured words with
    | error i =>
      rw [compile_of_error hs] at hc
      cases hc
      rfl
    | ok nodes =>
      rw [compile_of_ok hs] at hc
      cases hc

end Forthline
