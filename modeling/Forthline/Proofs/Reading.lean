import Forthline.Proofs.Frames
import Forthline.Session

/-!
# What reading tokens depends on

Beyond its workspace, the reader works on the tokens, on the definition that is open, on the words
of the dictionary and on the names of the memory. A token is interpreted alike under every relation
that, in addition to what words need, says the same of the tokens and the open definition and
survives their change, new words and the declaration of variables.
-/

namespace Forthline

namespace Run

structure Reads (R : Machine → Machine → Prop) : Prop where
  pending : ∀ ⦃m n⦄, R m n → m.pending = n.pending
  setPending : ∀ ⦃m n⦄ p, R m n → R { m with pending := p } { n with pending := p }
  learn : ∀ ⦃m n name word permanent d⦄, R m n → m.dictionary.add name word permanent = .ok d →
    R { m with dictionary := d } { n with dictionary := d }
  declare : ∀ ⦃m n name a memory⦄, R m n → m.memory.addVariable name 1 = .ok (a, memory) →
    R { m with memory } { n with memory }

/-- The words of the dictionary and of the open definition have some property. The relation survives
the definition of words that have it, and of variables. -/
structure Learns (ok : Word → Prop) (R : Machine → Machine → Prop) : Prop where
  pending : ∀ ⦃m n⦄, R m n → m.pending = n.pending
  known : ∀ ⦃m n⦄, R m n → ∀ w, m.dictionary.Knows w → ok w
  spoken : ∀ ⦃m n p⦄, R m n → m.pending = some p → ∀ w ∈ p.words, ok w
  setPending : ∀ ⦃m n⦄ {p : Option Pending}, R m n → (∀ q ∈ p, ∀ w ∈ q.words, ok w) →
    R { m with pending := p } { n with pending := p }
  learn : ∀ ⦃m n name word permanent d⦄, R m n → ok word →
    m.dictionary.add name word permanent = .ok d →
    R { m with dictionary := d } { n with dictionary := d }
  declare : ∀ ⦃m n name a memory⦄, R m n → m.memory.addVariable name 1 = .ok (a, memory) →
    R { m with memory } { n with memory }

/-- The property holds of words that push a value, and of definitions in terms of words that have
it. -/
structure Closed (ok : Word → Prop) : Prop where
  pusher : ∀ name v, ok (.pusher name v)
  definition : ∀ {ws : List Word} {name : String} {body : List Node}, (∀ w ∈ ws, ok w) →
    compile ws (some name) = .ok body → ok (.definition name body false)

def redirect (mode : Mode) (name target : String) (permanent : Bool) : Run Unit :=
  match mode with
  | .capturing => do
    let word ← lift ((← get).dictionary.get target)
    redefine name (.word word) permanent
  | .following => redefine name (.name target) permanent

def redefinition (permanent : Bool) (name : Token) : Run Bool := do
  match ← peekToken with
  | none => if permanent then fail .tildeForm else return false
  | some form =>
    match redefinitionMode? form with
    | none => if permanent then fail .tildeForm else return false
    | some mode =>
      discard nextToken
      match ← nextToken with
      | none => fail (.missingTarget form.value)
      | some target =>
        redirect mode name.value target.value permanent
        return true

private theorem redefinition_eq (permanent : Bool) (name : Token) :
    redefinition permanent name = (do
      match ← peekToken with
      | none => if permanent then fail .tildeForm else return false
      | some form =>
        match redefinitionMode? form with
        | none => if permanent then fail .tildeForm else return false
        | some mode =>
          discard nextToken
          match ← nextToken with
          | none => fail (.missingTarget form.value)
          | some target =>
            match mode with
            | .capturing => do
              let word ← lift ((← get).dictionary.get target.value)
              redefine name.value (.word word) permanent
            | .following => redefine name.value (.name target.value) permanent
            return true) := by
  refine bind_congr fun form => ?_
  cases form with
  | none => rfl
  | some form =>
    dsimp only
    cases redefinitionMode? form with
    | none => rfl
    | some mode =>
      refine bind_congr fun _ => bind_congr fun target => ?_
      cases target with
      | none => rfl
      | some target =>
        cases mode with
        | following => rfl
        | capturing => simp only [redirect, bind_assoc]

theorem tryRedefinition_eq (t : Token) :
    tryRedefinition t =
      if t.value = "~" then do
        match ← nextToken with
        | some name => redefinition true name
        | none => fail .loneTilde
      else redefinition false t := by
  simp only [redefinition_eq]
  unfold tryRedefinition
  by_cases h : t.value = "~"
  · simp only [h, if_true, decide_true]
    rfl
  · simp only [h, if_false, decide_false]
    rfl

def nameVariable (name : String) : Run Unit := do
  let (address, memory) ← lift ((← get).memory.addVariable name 1)
  modify fun m => { m with memory }
  report .debug "Memory" s!"Creating variable `{name}` at {address}."
  addWord name (.pusher name (.int address)) false

def nameConstant (name : String) : Run Unit := do
  let value ← pop
  reportText .debug "Memory" do
    let shown ← value.plain
    return s!"Creating constant `{name}` = {shown}."
  addWord name (.pusher name value) false

def openDefinition (name : String) : Run Unit := do
  report .debug "Compiler" s!"Starting definition `{name}`."
  modify fun m => { m with pending := some { name } }

def defining? : Word → Option (String × (String → Run Unit))
  | .control .variable => some ("variable", nameVariable)
  | .control .constant => some ("constant", nameConstant)
  | .control .colon => some (":", openDefinition)
  | _ => none

def enact (w : Word) : Run (Option Word) :=
  match defining? w with
  | some (code, act) => do
    act (← expectName code)
    return none
  | none => return some w

def readAs (t : Token) : Run (Option Word) := do
  match ← meaning t with
  | none => return none
  | some w =>
    match (← get).pending with
    | some p => do
      compileWord p w
      return none
    | none => enact w

private theorem enact_eq (w : Word) :
    enact w =
      match w with
      | .control .variable => do
        declareVariable
        return none
      | .control .constant => do
        declareConstant
        return none
      | .control .colon => do
        beginDefinition
        return none
      | w => return some w := by
  unfold enact
  split
  · rename_i code act h
    unfold defining? at h
    split at h
    · cases h
      simp only [declareVariable, nameVariable, bind_assoc]
    · cases h
      simp only [declareConstant, nameConstant, bind_assoc]
    · cases h
      simp only [beginDefinition, openDefinition, bind_assoc]
    · cases h
  · rename_i h
    unfold defining? at h
    split at h
    · cases h
    · cases h
    · cases h
    · rfl

theorem interpret_eq (t : Token) :
    interpret t = (do
      if (← get).pending.isNone && !t.literal then
        let handled ← tryRedefinition t
        if handled then return none else readAs t
      else readAs t) := by
  unfold interpret readAs
  simp only [enact_eq]
  rfl

variable {R : Machine → Machine → Prop}

section Tokens

variable (hS : Scans R)

include hS

theorem expectName_matches (code : String) :
    Matches R (expectName code) (expectName code) := by
  refine (nextToken_matches hS).bind fun t => ?_
  cases t with
  | none => exact Matches.fail _
  | some t => exact Matches.pure _

variable (hR : Minds R)

include hR

omit hS in
theorem redirect_matches (mode : Mode) (name target : String) (permanent : Bool) :
    Matches R (redirect mode name target permanent) (redirect mode name target permanent) := by
  cases mode with
  | following => exact redefine_matches hR _ _ _
  | capturing =>
    intro m n h
    unfold redirect
    rw [on_get_bind, on_get_bind, ← hR.dictionary h]
    cases hget : m.dictionary.get target with
    | error c => exact ⟨rfl, h⟩
    | ok w =>
      refine redefine_known hR h (fun v hv => ?_) name permanent
      cases hv
      exact Dictionary.knows_of_get hget

private theorem redefinition_matches (permanent : Bool) (name : Token) :
    Matches R (redefinition permanent name) (redefinition permanent name) := by
  have hother : Matches R (if permanent then fail .tildeForm else pure false)
      (if permanent then fail .tildeForm else pure false) :=
    Matches.ite _ (Matches.fail _) (Matches.pure _)
  refine (peekToken_matches hS).bind fun form => ?_
  cases form with
  | none => exact hother
  | some form =>
    dsimp only
    cases redefinitionMode? form with
    | none => exact hother
    | some mode =>
      refine (nextToken_matches hS).discard.bind fun _ => ?_
      refine (nextToken_matches hS).bind fun target => ?_
      cases target with
      | none => exact Matches.fail _
      | some target => exact (redirect_matches hR _ _ _ _).bind fun _ => Matches.pure _

theorem tryRedefinition_matches (t : Token) :
    Matches R (tryRedefinition t) (tryRedefinition t) := by
  rw [tryRedefinition_eq]
  refine Matches.ite _ ?_ (redefinition_matches hS hR false t)
  refine (nextToken_matches hS).bind fun name => ?_
  cases name with
  | none => exact Matches.fail _
  | some name => exact redefinition_matches hS hR true name

omit hS in
theorem meaning_matches (t : Token) : Matches R (meaning t) (meaning t) := by
  unfold meaning
  split
  · exact Matches.pure _
  · refine Matches.get_bind fun m n h => ?_
    rw [hR.dictionary h]
    refine (Matches.lift _).bind fun w => ?_
    cases w with
    | some w => exact Matches.pure _
    | none =>
      dsimp only
      cases Numeral.read? t.value with
      | some v => exact Matches.pure _
      | none => exact (report_matches hR _ _ _).bind fun _ => Matches.pure _

end Tokens

theorem meaning_within {ok : Word → Prop} (hK : Closed ok) {t : Token} {m m' : Machine} {w : Word}
    (hknown : ∀ v, m.dictionary.Knows v → ok v) (h : (meaning t).on m = (.ok (some w), m')) :
    ok w := by
  unfold meaning at h
  split at h
  · cases h
    exact hK.pusher _ _
  · rw [on_get_bind] at h
    cases hlookup : m.dictionary.lookup t.value with
    | error c =>
      rw [hlookup] at h
      cases h
    | ok found =>
      rw [hlookup, on_bind_ok (on_lift_ok _ _)] at h
      cases found with
      | some v =>
        cases h
        exact hknown w (Dictionary.knows_of_lookup hlookup)
      | none =>
        dsimp only at h
        cases hnumber : Numeral.read? t.value with
        | some n =>
          rw [hnumber] at h
          cases h
          exact hK.pusher _ _
        | none =>
          rw [hnumber] at h
          obtain ⟨_, _, -, h⟩ := on_bind_eq_ok h
          cases h

section Definitions

variable {ok : Word → Prop} (hK : Closed ok) (hR : Minds R) (hL : Learns ok R)

include hR hL

theorem addWord_within (name : String) {word : Word} (hword : ok word) (permanent : Bool) :
    Matches R (addWord name word permanent) (addWord name word permanent) := by
  intro m n h
  unfold addWord
  rw [on_get_bind, on_get_bind, ← hR.dictionary h]
  cases hadd : m.dictionary.add name word permanent with
  | error c => exact ⟨rfl, h⟩
  | ok d => exact report_matches hR _ _ _ (hL.learn h hword hadd)

private theorem openDefinition_within (name : String) :
    Matches R (openDefinition name) (openDefinition name) := by
  refine (report_matches hR _ _ _).bind fun _ => Matches.modify fun _ _ h => hL.setPending h ?_
  intro q hq w hw
  cases hq
  cases hw

include hK

private theorem nameVariable_within (name : String) :
    Matches R (nameVariable name) (nameVariable name) := by
  intro m n h
  unfold nameVariable
  rw [on_get_bind, on_get_bind, ← hR.memory h]
  cases ha : m.memory.addVariable name 1 with
  | error c => exact ⟨rfl, h⟩
  | ok r =>
    have hrest := (report_matches hR .debug "Memory"
      s!"Creating variable `{name}` at {r.1}.").bind fun _ =>
        addWord_within hR hL name (hK.pusher name (.int r.1)) false
    exact hrest (hL.declare h ha)

private theorem compileWord_within {p : Pending} (hp : ∀ v ∈ p.words, ok v) {w : Word}
    (hw : ok w) : Matches R (compileWord p w) (compileWord p w) := by
  have hadd : Matches R
      (modify fun m => { m with pending := some { p with words := w :: p.words } } : Run Unit)
      (modify fun m => { m with pending := some { p with words := w :: p.words } }) := by
    refine Matches.modify fun _ _ h => hL.setPending h ?_
    intro q hq v hv
    cases hq
    rcases List.mem_cons.mp hv with rfl | hv
    · exact hw
    · exact hp v hv
  unfold compileWord
  split
  · refine (Matches.modify fun _ _ h => hL.setPending h fun q hq => ?_).bind fun _ => ?_
    · cases hq
    refine Matches.bind_of (Matches.lift _) (Q := fun body => ok (.definition p.name body false))
      ?_ fun body hbody => ?_
    · intro m n m' body _ hbody
      cases hcompile : compile p.words.reverse (some p.name) with
      | error c =>
        rw [hcompile] at hbody
        cases hbody
      | ok nodes =>
        rw [hcompile] at hbody
        cases hbody
        exact hK.definition (fun v hv => hp v (List.mem_reverse.mp hv)) hcompile
    · exact (addWord_within hR hL p.name hbody false).bind fun _ => report_matches hR _ _ _
  · exact hadd

end Definitions

section Definitions

variable {ok : Word → Prop} (hK : Closed ok) (hR : Heeds R) (hL : Learns ok R)

include hK hR hL

private theorem nameConstant_within (name : String) :
    Matches R (nameConstant name) (nameConstant name) := by
  refine (pop_matches hR).bind fun value => (hR.reportText _ _ _).bind fun _ => ?_
  exact addWord_within hR hL name (hK.pusher name value) false

private theorem defining_within {w : Word} {code : String} {act : String → Run Unit}
    (hw : defining? w = some (code, act)) (name : String) :
    Matches R (act name) (act name) := by
  unfold defining? at hw
  split at hw
  · cases hw
    exact nameVariable_within hK hR hL name
  · cases hw
    exact nameConstant_within hK hR hL name
  · cases hw
    exact openDefinition_within hR hL name
  · cases hw

variable (hS : Scans R)

include hS

private theorem readAs_within (t : Token) : Matches R (readAs t) (readAs t) := by
  refine Matches.bind_of (meaning_matches hR t) (Q := fun w => ∀ v ∈ w, ok v) ?_ fun w hw => ?_
  · intro m n m' w h hmeaning v hv
    cases hv
    exact meaning_within hK (hL.known h) hmeaning
  · cases w with
    | none => exact Matches.pure _
    | some w =>
      refine Matches.get_bind fun m n h => ?_
      rw [← hL.pending h]
      cases hp : m.pending with
      | some p =>
        exact (compileWord_within hK hR hL (hL.spoken h hp) (hw w rfl)).bind fun _ =>
          Matches.pure _
      | none =>
        dsimp only [enact]
        split
        · rename_i code act hdefining
          refine (expectName_matches hS code).bind fun name => ?_
          exact (defining_within hK hR hL hdefining name).bind fun _ => Matches.pure _
        · exact Matches.pure _

theorem interpret_within (t : Token) : Matches R (interpret t) (interpret t) := by
  have hread := readAs_within hK hR hL hS t
  rw [interpret_eq]
  refine Matches.get_bind fun m n h => ?_
  rw [hL.pending h]
  refine Matches.ite _ ?_ hread
  refine (tryRedefinition_matches hS hR t).bind fun handled => ?_
  exact Matches.ite _ (Matches.pure _) hread

theorem word_of_interpret {t : Token} {m n m' : Machine} {w : Word} (h : R m n)
    (hm : (interpret t).on m = (.ok (some w), m')) : ok w := by
  have hread {m n : Machine} (h : R m n) (hm : (readAs t).on m = (.ok (some w), m')) : ok w := by
    obtain ⟨found, m₁, hmeaning, hm⟩ := on_bind_eq_ok hm
    cases found with
    | none => cases hm
    | some v =>
      dsimp only at hm
      rw [on_get_bind] at hm
      cases hp : m₁.pending with
      | some p =>
        rw [hp] at hm
        obtain ⟨_, _, -, hm⟩ := on_bind_eq_ok hm
        cases hm
      | none =>
        rw [hp] at hm
        dsimp only [enact] at hm
        split at hm
        · obtain ⟨_, _, -, hm⟩ := on_bind_eq_ok hm
          obtain ⟨_, _, -, hm⟩ := on_bind_eq_ok hm
          cases hm
        · cases hm
          exact meaning_within hK (hL.known h) hmeaning
  rw [interpret_eq, on_get_bind] at hm
  split at hm
  · obtain ⟨handled, m₁, htry, hm⟩ := on_bind_eq_ok hm
    cases handled with
    | true => cases hm
    | false =>
      have h₁ := (tryRedefinition_matches hS hR t h).2
      rw [htry] at h₁
      exact hread h₁ hm
  · exact hread h hm

end Definitions

section Unrestricted

private theorem Reads.learns (hD : Reads R) : Learns (fun _ => True) R where
  pending := hD.pending
  known := fun _ _ _ _ _ => trivial
  spoken := fun _ _ _ _ _ _ _ => trivial
  setPending := fun _ _ _ h _ => hD.setPending _ h
  learn := fun _ _ _ _ _ _ h _ hadd => hD.learn h hadd
  declare := hD.declare

private theorem closed_true : Closed fun _ => True := ⟨fun _ _ => trivial, fun _ _ => trivial⟩

theorem addWord_matches (hR : Minds R) (hD : Reads R) (name : String) (word : Word)
    (permanent : Bool) : Matches R (addWord name word permanent) (addWord name word permanent) :=
  addWord_within hR hD.learns name trivial permanent

theorem compileWord_matches (hR : Minds R) (hD : Reads R) (p : Pending) (w : Word) :
    Matches R (compileWord p w) (compileWord p w) :=
  compileWord_within closed_true hR hD.learns (fun _ _ => trivial) trivial

variable (hR : Heeds R) (hD : Reads R)

include hR hD

theorem defining_matches {w : Word} {code : String} {act : String → Run Unit}
    (hw : defining? w = some (code, act)) (name : String) :
    Matches R (act name) (act name) :=
  defining_within closed_true hR hD.learns hw name

theorem interpret_matches (hS : Scans R) (t : Token) : Matches R (interpret t) (interpret t) :=
  interpret_within closed_true hR hD.learns hS t

end Unrestricted

end Run

end Forthline
