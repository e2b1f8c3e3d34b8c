import Forthline.Proofs.Reading
import Forthline.Proofs.Rendering

/-!
# What words can do

The codes of a word are those of the native words that it leads to. A definition has no codes but
those of the words that it was compiled from, so a property of all codes that a machine knows is
kept by whatever it reads and runs.
-/

namespace Forthline

mutual

def Word.codes : Word → List Code
  | .native _ c => [c]
  | .definition _ body _ => codesOf body
  | .control _ | .stray _ => []

def Node.codes : Node → List Code
  | .action w => w.codes
  | .conditional consequent alternative => codesOf consequent ++ codesOf alternative
  | .counted body _ | .indefinite body => codesOf body

def codesOf : List Node → List Code
  | [] => []
  | n :: ns => n.codes ++ codesOf ns

end

def Word.Within (ok : Code → Prop) (w : Word) : Prop := ∀ c ∈ w.codes, ok c

def NodesWithin (ok : Code → Prop) (ns : List Node) : Prop := ∀ c ∈ codesOf ns, ok c

theorem Renders.codes {ns : List Node} {ws : List Word} (h : Renders ns ws) :
    codesOf ns = ws.flatMap Word.codes := by
  induction h with
  | nil => rfl
  | action _ _ ih => simp [codesOf, Node.codes, ih]
  | consequent _ _ ihc ih => simp [codesOf, Node.codes, Word.codes, ihc, ih]
  | alternative _ _ _ ihc iha ih => simp [codesOf, Node.codes, Word.codes, ihc, iha, ih]
  | counted _ _ ihb ih | stepped _ _ ihb ih | indefinite _ _ ihb ih =>
    simp [codesOf, Node.codes, Word.codes, ihb, ih]

theorem renders_of_compile {ws : List Word} {name : Option String} {body : List Node}
    (h : compile ws name = .ok body) : Renders body ws := by
  rw [← structured_eq_ok_iff]
  unfold compile at h
  cases hs : structured ws with
  | error i =>
    rw [hs] at h
    cases h
  | ok nodes =>
    rw [hs] at h
    cases h
    rfl

namespace Run

variable {ok : Code → Prop}

/-- Reading makes no words but those that push a value and those that are spelled by others. -/
theorem closed_within (hpush : ∀ v, ok (.push v)) : Closed (Word.Within ok) where
  pusher := by
    intro name v c hc
    rw [List.mem_singleton.mp hc]
    exact hpush v
  definition := by
    intro ws name body hws hbody c hc
    rw [Word.codes, (renders_of_compile hbody).codes] at hc
    obtain ⟨w, hw, hc⟩ := List.mem_flatMap.mp hc
    exact hws w hw c hc

theorem hereditary_within : Hereditary (NodesWithin ok) where
  rest := fun h c hc => h c (List.mem_append_right _ hc)
  call := fun h c hc => h c (List.mem_append_left _ hc)
  branches := fun h =>
    ⟨fun c hc => h c (List.mem_append_left _ (List.mem_append_left _ hc)),
      fun c hc => h c (List.mem_append_left _ (List.mem_append_right _ hc))⟩
  counted := fun h c hc => h c (List.mem_append_left _ hc)
  indefinite := fun h c hc => h c (List.mem_append_left _ hc)

end Run

structure Machine.Speaks (ok : Code → Prop) (m : Machine) : Prop where
  known : ∀ w, m.dictionary.Knows w → w.Within ok
  spoken : ∀ p ∈ m.pending, ∀ w ∈ p.words, w.Within ok
  nodes : ∀ f ∈ m.frames, NodesWithin ok f.nodes

def Task.holds : Task → Bool
  | hold _ | holdAndFail .. | touch => true
  | _ => false

def Code.holds : Code → Bool
  | task t => t.holds
  | _ => false

theorem Code.sleeps_or_waits {c : Code} (hholds : c.holds = false) (hpauses : c.pauses = true) :
    c = .task .sleep ∨ c = .task .key := by
  cases c with
  | push v => cases hpauses
  | function arity yield apply => cases hpauses
  | task t =>
    cases t with
    | sleep => exact .inl rfl
    | key => exact .inr rfl
    | hold | holdAndFail | touch => cases hholds
    | _ => cases hpauses

theorem builtin_within : ∀ e ∈ Builtin.installed, e.2.Within fun c => c.holds = false := by
  have hall : Builtin.installed.all (fun e => e.2.codes.all fun c => !c.holds) = true := by
    decide +kernel
  intro e he c hc
  have hcodes := List.all_eq_true.mp (List.all_eq_true.mp hall e he) c hc
  simpa using hcodes

end Forthline
