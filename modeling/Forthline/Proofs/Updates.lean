import Forthline.Proofs.Aliases
import Forthline.Proofs.Lowercase
import Forthline.Proofs.ResolvedView
import Forthline.Proofs.Results

/-!
# What new entries change

A redefinition is made under a key that no table has, so no path of aliases leads through that key:
a path can only have ended there. The paths that found a word or went round in a circle stay as
they were. A word that is added takes no part in any path, and is found exactly from the names
whose path ends at its key.
-/

namespace Forthline

namespace Dictionary

/-- The path of aliases from the name ends at the key, which is not redefined. -/
def EndsAt (d : Dictionary) (name key : String) : Prop :=
  d.Reaches name key ∧ d.redefinitions.get? key = none

section Names

variable {d : Dictionary} {name name' : String}

private theorem path_of_lower (h : Text.lower name = Text.lower name') (i : Nat) :
    d.path name i = d.path name' i := by
  induction i with
  | zero => rw [path, path, h]
  | succ i ih => rw [path, path, ih]

theorem lookup_of_lower (h : Text.lower name = Text.lower name') (found : Option Word) :
    d.lookup name = .ok found ↔ d.lookup name' = .ok found := by
  have hreaches (key : String) : d.Reaches name key ↔ d.Reaches name' key := by
    simp only [Reaches, path_of_lower h]
  cases found with
  | none => simp only [lookup_eq_none_iff, hreaches]
  | some w => simp only [lookup_eq_word_iff, hreaches]

end Names

section Circles

variable {d d' : Dictionary} {name : String}

private theorem trail_of_path (h : ∀ i, d'.path name i = d.path name i) (n : Nat) :
    d'.trail name n = d.trail name n := by
  simp only [trail, h]

private theorem lookup_error_of_path (h : ∀ i, d'.path name i = d.path name i) {c : Cause}
    (hc : d.lookup name = .error c) : d'.lookup name = .error c := by
  have hnever : d'.NeverStops name := by
    intro i
    rw [h i]
    exact lookup_fails_iff.mp ⟨c, hc⟩ i
  obtain ⟨c', hc'⟩ := lookup_fails_iff.mpr hnever
  obtain ⟨n, key, hnodup, hkey, -, rfl⟩ := circle_of_lookup_error hc
  obtain ⟨n', key', hnodup', hkey', -, rfl⟩ := circle_of_lookup_error hc'
  simp only [trail_of_path h] at hnodup' hc'
  have hle : n ≤ n' := (hnodup' n).mp ((hnodup n).mpr (Nat.le_refl n))
  have hge : n' ≤ n := (hnodup n').mp ((hnodup' n').mpr (Nat.le_refl n'))
  have hn : n' = n := Nat.le_antisymm hge hle
  subst hn
  rw [h, hkey] at hkey'
  cases hkey'
  exact hc'

end Circles

section Redefining

variable {d d' : Dictionary} {n name key : String} {aim : Aim} {permanent : Bool}

private theorem get?_of_redefine (h : d.redefine n aim permanent = .ok d')
    (hkey : key ≠ Text.lower n) :
    d'.redefinitions.get? key = d.redefinitions.get? key ∧
      d'.words.get? key = d.words.get? key := by
  obtain ⟨-, -, rfl⟩ := eq_of_redefine h
  simp [hkey]

private theorem ne_of_redefine (h : d.redefine n aim permanent = .ok d')
    (hkey : d.redefinitions.get? key ≠ none ∨ d.words.get? key ≠ none) : key ≠ Text.lower n := by
  obtain ⟨hwords, hredefinitions, -⟩ := eq_of_redefine h
  intro hsame
  subst hsame
  simp [hwords, hredefinitions] at hkey

private theorem aliasOf?_of_redefine (h : d.redefine n aim permanent = .ok d') {target : String}
    (halias : d.aliasOf? key = some target) : d'.aliasOf? key = some target := by
  have hredefined : d.redefinitions.get? key ≠ none := by
    intro hnone
    simp [aliasOf?, hnone] at halias
  have hsame := (get?_of_redefine h (ne_of_redefine h (.inl hredefined))).1
  rwa [aliasOf?, hsame]

private theorem path_of_redefine (h : d.redefine n aim permanent = .ok d') {i : Nat}
    (hpath : d.path name i = some key) : d'.path name i = some key := by
  induction i generalizing key with
  | zero => exact hpath
  | succ i ih =>
    rw [path] at hpath ⊢
    obtain ⟨before, hbefore, halias⟩ := Option.bind_eq_some_iff.mp hpath
    simp [ih hbefore, aliasOf?_of_redefine h halias]

private theorem reaches_of_redefine (h : d.redefine n aim permanent = .ok d')
    (hreaches : d.Reaches name key) : d'.Reaches name key := by
  obtain ⟨i, hi⟩ := hreaches
  exact ⟨i, path_of_redefine h hi⟩

theorem lookup_word_of_redefine (h : d.redefine n aim permanent = .ok d') {w : Word}
    (hlookup : d.lookup name = .ok (some w)) : d'.lookup name = .ok (some w) := by
  obtain ⟨key, hreaches, hholds⟩ := lookup_eq_word_iff.mp hlookup
  have hentry : d.redefinitions.get? key ≠ none ∨ d.words.get? key ≠ none := by
    rcases hholds with ⟨p, hp⟩ | ⟨-, p, hp⟩
    · simp [hp]
    · simp [hp]
  have hsame := get?_of_redefine h (ne_of_redefine h hentry)
  have hholds' : d'.Holds key w := by rwa [Holds, hsame.1, hsame.2]
  exact lookup_eq_word_iff.mpr ⟨key, reaches_of_redefine h hreaches, hholds'⟩

theorem lookup_error_of_redefine (h : d.redefine n aim permanent = .ok d') {c : Cause}
    (hlookup : d.lookup name = .error c) : d'.lookup name = .error c := by
  apply lookup_error_of_path _ hlookup
  intro i
  have hsome := lookup_fails_iff.mp ⟨c, hlookup⟩ i
  obtain ⟨key, hkey⟩ := Option.isSome_iff_exists.mp hsome
  rw [hkey, path_of_redefine h hkey]

theorem lookup_none_of_redefine (h : d.redefine n aim permanent = .ok d')
    (hlookup : d.lookup name = .ok none) (hend : ¬d.EndsAt name (Text.lower n)) :
    d'.lookup name = .ok none := by
  obtain ⟨key, hreaches, hnone⟩ := lookup_eq_none_iff.mp hlookup
  have hkey : key ≠ Text.lower n := by
    intro hsame
    subst hsame
    exact hend ⟨hreaches, hnone.1⟩
  have hsame := get?_of_redefine h hkey
  apply lookup_eq_none_iff.mpr
  exact ⟨key, reaches_of_redefine h hreaches, hsame.1.trans hnone.1, hsame.2.trans hnone.2⟩

end Redefining

section Adding

variable {d d' : Dictionary} {n name : String} {w : Word} {permanent : Bool}

private theorem path_of_add (h : d.add n w permanent = .ok d') (i : Nat) :
    d'.path name i = d.path name i := by
  induction i with
  | zero => rfl
  | succ i ih =>
    rw [path, path, ih, eq_of_add h]
    rfl

private theorem reaches_of_add (h : d.add n w permanent = .ok d') (key : String) :
    d'.Reaches name key ↔ d.Reaches name key := by
  simp only [Reaches, path_of_add h]

theorem lookup_add_of_endsAt (h : d.add n w permanent = .ok d')
    (hend : d.EndsAt name (Text.lower n)) : d'.lookup name = .ok (some w) := by
  apply lookup_eq_word_iff.mpr
  refine ⟨Text.lower n, (reaches_of_add h _).mpr hend.1, .inr ?_⟩
  rw [eq_of_add h]
  simp [hend.2]

private theorem get?_of_add (h : d.add n w permanent = .ok d') {key : String}
    (hend : ¬d.EndsAt name (Text.lower n)) (hreaches : d.Reaches name key) :
    d'.redefinitions.get? key = d.redefinitions.get? key ∧
      (d.redefinitions.get? key = none → d'.words.get? key = d.words.get? key) := by
  rw [eq_of_add h]
  refine ⟨rfl, fun hnone => ?_⟩
  have hkey : key ≠ Text.lower n := by
    intro hsame
    subst hsame
    exact hend ⟨hreaches, hnone⟩
  simp [hkey]

theorem lookup_add_of_not_endsAt (h : d.add n w permanent = .ok d')
    (hend : ¬d.EndsAt name (Text.lower n)) : d'.lookup name = d.lookup name := by
  rcases hlookup : d.lookup name with c | - | v
  · exact lookup_error_of_path (path_of_add h) hlookup
  · obtain ⟨key, hreaches, hnone⟩ := lookup_eq_none_iff.mp hlookup
    have hsame := get?_of_add h hend hreaches
    apply lookup_eq_none_iff.mpr
    exact ⟨key, (reaches_of_add h key).mpr hreaches, hsame.1.trans hnone.1,
      (hsame.2 hnone.1).trans hnone.2⟩
  · obtain ⟨key, hreaches, hholds⟩ := lookup_eq_word_iff.mp hlookup
    have hsame := get?_of_add h hend hreaches
    apply lookup_eq_word_iff.mpr
    refine ⟨key, (reaches_of_add h key).mpr hreaches, ?_⟩
    rcases hholds with ⟨p, hp⟩ | ⟨hnone, p, hp⟩
    · exact .inl ⟨p, hsame.1.trans hp⟩
    · exact .inr ⟨hsame.1.trans hnone, p, (hsame.2 hnone).trans hp⟩

end Adding

end Dictionary

namespace Run

variable {m m' : Machine} {name : String} {permanent : Bool} {stop : Stop}

private theorem unchanged_of_refused {x : Except Cause Dictionary} {text : String}
    (h : (lift x >>= fun d => do
      modify fun m => { m with dictionary := d }
      report .debug "Dictionary" text).on m = (.error stop, m')) : m' = m := by
  cases x with
  | error c =>
    cases h
    rfl
  | ok d =>
    obtain ⟨n, -, hreport⟩ := report_logged .debug "Dictionary" text { m with dictionary := d }
    rw [on_bind_ok (on_lift_ok _ _), on_modify_bind, hreport] at h
    cases h

theorem addWord_of_error {w : Word}
    (h : (addWord name w permanent).on m = (.error stop, m')) : m' = m := by
  rw [addWord, on_get_bind] at h
  exact unchanged_of_refused h

theorem redefine_of_error {aim : Dictionary.Aim}
    (h : (redefine name aim permanent).on m = (.error stop, m')) : m' = m := by
  rw [redefine, on_get_bind] at h
  exact unchanged_of_refused h

end Run

namespace Dictionary

/-- After a redefinition every lookup that found a word or failed has the same outcome, and one that
found none has another only if its path ended at the redefined name. A word that is added is found
from the names whose path ends at its name, and all other lookups have the same outcome. An update
that is refused changes nothing. -/
theorem updates_reach_only_ends (d : Dictionary) (n : String) (permanent : Bool) :
    (∀ aim d', d.redefine n aim permanent = .ok d' → ∀ name,
      (∀ w, d.lookup name = .ok (some w) → d'.lookup name = .ok (some w)) ∧
      (∀ c, d.lookup name = .error c → d'.lookup name = .error c) ∧
      (d.lookup name = .ok none → d'.lookup name ≠ .ok none →
        d.EndsAt name (Text.lower n))) ∧
    (∀ w d', d.add n w permanent = .ok d' → ∀ name,
      (d.EndsAt name (Text.lower n) → d'.lookup name = .ok (some w)) ∧
      (¬d.EndsAt name (Text.lower n) → d'.lookup name = d.lookup name)) ∧
    ∀ m stop m',
      (∀ aim, (Run.redefine n aim permanent).on m = (.error stop, m') → m' = m) ∧
      ∀ w, (Run.addWord n w permanent).on m = (.error stop, m') → m' = m := by
  refine ⟨?_, ?_, fun m stop m' => ⟨fun _ => Run.redefine_of_error, fun _ => Run.addWord_of_error⟩⟩
  · intro aim d' h name
    refine ⟨fun w => lookup_word_of_redefine h, fun c => lookup_error_of_redefine h, ?_⟩
    intro hnone hchanged
    by_contra hend
    exact hchanged (lookup_none_of_redefine h hnone hend)
  · intro w d' h name
    exact ⟨lookup_add_of_endsAt h, lookup_add_of_not_endsAt h⟩

def crossing : Dictionary where
  words := ⟨[("x", .native "x" (.push (.int 1)), false)]⟩
  redefinitions := ⟨[("a", .alias "b", false), ("c", .alias "d", false), ("d", .alias "c", true)]⟩

/-- A redefinition of `B` is felt from `a` alone, and so is a word of that name. -/
theorem crossing_felt_from_end :
    (∃ d', crossing.redefine "B" (.name "X") true = .ok d' ∧
      d'.lookup "x" = .ok (some (.native "x" (.push (.int 1)))) ∧
      d'.lookup "C" = .error (.circular "C" ["c", "d", "c"]) ∧
      d'.lookup "a" ≠ .ok none ∧ crossing.EndsAt "a" "b") ∧
    ∃ d', crossing.add "B" (.stray "5") true = .ok d' ∧
      d'.lookup "a" = .ok (some (.stray "5")) ∧ d'.lookup "C" = crossing.lookup "C" := by
  have hredefine : crossing.redefine "B" (.name "X") true =
      .ok { crossing with
        redefinitions := crossing.redefinitions.insert "b" (.alias "x", true) } := rfl
  have hadd : crossing.add "B" (.stray "5") true =
      .ok { crossing with words := crossing.words.insert "b" (.stray "5", true) } := rfl
  have hword : crossing.lookup "x" = .ok (some (.native "x" (.push (.int 1)))) := rfl
  have hcircle : crossing.lookup "C" = .error (.circular "C" ["c", "d", "c"]) := rfl
  have hnone : crossing.lookup "a" = .ok none := rfl
  have hfound : Dictionary.lookup { crossing with
      redefinitions := crossing.redefinitions.insert "b" (.alias "x", true) } "a" =
        .ok (some (.native "x" (.push (.int 1)))) := rfl
  have hlower : Text.lower "B" = "b" := by decide +kernel
  obtain ⟨hredefined, hadded, -⟩ := updates_reach_only_ends crossing "B" true
  rw [hlower] at hredefined hadded
  have hend : crossing.EndsAt "a" "b" :=
    (hredefined _ _ hredefine "a").2.2 hnone (by rw [hfound]; simp)
  have hnot : ¬crossing.EndsAt "C" "b" := by
    intro h
    have hnowhere : crossing.lookup "C" = .ok none :=
      lookup_eq_none_iff.mpr ⟨"b", h.1, h.2, by decide +kernel⟩
    rw [hcircle] at hnowhere
    cases hnowhere
  constructor
  · refine ⟨_, hredefine, (hredefined _ _ hredefine "x").1 _ hword,
      (hredefined _ _ hredefine "C").2.1 _ hcircle, ?_, hend⟩
    rw [hfound]
    simp
  · exact ⟨_, hadd, (hadded _ _ hadd "a").1 hend, (hadded _ _ hadd "C").2 hnot⟩

end Dictionary

end Forthline
