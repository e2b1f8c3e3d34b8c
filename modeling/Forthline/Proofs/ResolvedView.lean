import Forthline.Dictionary
import Forthline.Proofs.Lowercase
import Forthline.Proofs.Tables

/-!
# The resolved view

The view of all names lays the words that redefinitions lead to over the words themselves. A name
has the word in it that a lookup finds. A name for which a lookup finds no word should have no
place in the view; it keeps one exactly when a word was added under the name after the name had
been redefined.
-/

namespace Forthline

namespace Dictionary

/-- The dictionaries that additions and redefinitions build, with the keys that were added while
they were redefined. A call that is refused leaves its dictionary as it was. -/
inductive Built : List String → Dictionary → Prop where
  | empty : Built [] {}
  | add {late : List String} {d d' : Dictionary} {name : String} {w : Word} {permanent : Bool}
      (hbuilt : Built late d) (hadd : d.add name w permanent = .ok d') :
      Built (if d.redefinitions.contains (Text.lower name) then Text.lower name :: late else late)
        d'
  | redefine {late : List String} {d d' : Dictionary} {name : String} {aim : Aim}
      {permanent : Bool} (hbuilt : Built late d)
      (hredefine : d.redefine name aim permanent = .ok d') : Built late d'

section Calls

variable {d d' : Dictionary} {name : String} {permanent : Bool}

theorem eq_of_add {w : Word} (h : d.add name w permanent = .ok d') :
    d' = { d with words := d.words.insert (Text.lower name) (w, permanent) } := by
  unfold add at h
  split at h
  · cases h
  · exact (Except.ok.inj h).symm

theorem eq_of_redefine {aim : Aim} (h : d.redefine name aim permanent = .ok d') :
    d.words.get? (Text.lower name) = none ∧ d.redefinitions.get? (Text.lower name) = none ∧
      d' = { d with
        redefinitions := d.redefinitions.insert (Text.lower name) (aim.target, permanent) } := by
  unfold redefine at h
  split at h
  · cases h
  · dsimp only at h
    split at h
    · cases h
    · next hfree =>
      simp only [hasKey, Table.contains, Bool.or_eq_true, not_or, Bool.not_eq_true,
        Option.isSome_eq_false_iff, Option.isNone_iff_eq_none] at hfree
      exact ⟨hfree.1, hfree.2, (Except.ok.inj h).symm⟩

end Calls

section Histories

variable {late : List String} {d : Dictionary}

theorem Built.mem_late_iff (h : Built late d) (k : String) :
    k ∈ late ↔ (d.words.get? k).isSome ∧ (d.redefinitions.get? k).isSome := by
  induction h with
  | empty => simp [Table.get?]
  | @add late d d' name w permanent _ hadd ih =>
    rw [eq_of_add hadd]
    by_cases hk : k = Text.lower name
    · subst hk
      by_cases hredefined : (d.redefinitions.get? (Text.lower name)).isSome
      · simp [Table.contains, hredefined]
      · simp [Table.contains, hredefined, ih]
    · by_cases hredefined : (d.redefinitions.get? (Text.lower name)).isSome
      · simp [Table.contains, hredefined, hk, ih]
      · simp [Table.contains, hredefined, hk, ih]
  | @redefine late d d' name aim permanent _ hredefine ih =>
    obtain ⟨hwords, -, rfl⟩ := eq_of_redefine hredefine
    by_cases hk : k = Text.lower name
    · subst hk
      simp [hwords, ih]
    · simp [hk, ih]

private def Lowered {α : Type} (t : Table α) : Prop := ∀ e ∈ t.entries, Text.lower e.1 = e.1

private theorem Lowered.insert {α : Type} {t : Table α} (h : Lowered t) {key : String}
    (hkey : Text.lower key = key) (a : α) : Lowered (t.insert key a) := by
  intro e he
  rcases Table.mem_insertEntry he with rfl | he
  · exact hkey
  · exact h e he

private theorem Built.lowered (h : Built late d) :
    Lowered d.words ∧ Lowered d.redefinitions := by
  induction h with
  | empty => exact ⟨by simp [Lowered], by simp [Lowered]⟩
  | add _ hadd ih =>
    rw [eq_of_add hadd]
    exact ⟨ih.1.insert (Text.lower_lower _) _, ih.2⟩
  | redefine _ hredefine ih =>
    obtain ⟨-, -, rfl⟩ := eq_of_redefine hredefine
    exact ⟨ih.1, ih.2.insert (Text.lower_lower _) _⟩

end Histories

section View

variable {d : Dictionary} {k : String}

def overlay (d : Dictionary) :
    Table (Word × Bool) × List Broken → String × Target × Bool →
      Table (Word × Bool) × List Broken :=
  fun (view, broken) (key, _, permanent) =>
    match d.lookup key with
    | .ok (some w) => (view.insert key (w, permanent), broken)
    | .ok none => (view, broken ++ [{ key, reason := "target is missing." }])
    | .error c => (view, broken ++ [{ key, reason := c.message }])

theorem resolved_eq (d : Dictionary) :
    d.resolved = (d.redefinitions.entries.foldl d.overlay (d.words, [])).1 := rfl

theorem overlay_cases (d : Dictionary) (s : Table (Word × Bool) × List Broken)
    (e : String × Target × Bool) :
    (∃ w, d.lookup e.1 = .ok (some w) ∧ (d.overlay s e).1 = s.1.insert e.1 (w, e.2.2)) ∨
    (∀ w, d.lookup e.1 ≠ .ok (some w)) ∧ (d.overlay s e).1 = s.1 := by
  obtain ⟨view, broken⟩ := s
  obtain ⟨key, target, permanent⟩ := e
  unfold overlay
  rcases hlookup : d.lookup key with c | - | w
  · simp [hlookup]
  · simp [hlookup]
  · simp [hlookup]

private theorem overlaid_of_lookup {w : Word} (hlookup : d.lookup k = .ok (some w))
    {es : List (String × Target × Bool)} {s : Table (Word × Bool) × List Broken}
    (h : k ∈ es.map Prod.fst ∨ ∃ p, s.1.get? k = some (w, p)) :
    ∃ p, (es.foldl d.overlay s).1.get? k = some (w, p) := by
  induction es generalizing s with
  | nil => simpa using h
  | cons e es ih =>
    rw [List.foldl_cons]
    apply ih
    rcases overlay_cases d s e with ⟨v, hfound, hstep⟩ | ⟨hnone, hstep⟩
    · by_cases hkey : k = e.1
      · subst hkey
        rw [hlookup] at hfound
        cases hfound
        right
        simp [hstep]
      · simpa [hstep, hkey] using h
    · by_cases hkey : k = e.1
      · subst hkey
        exact absurd hlookup (hnone w)
      · simpa [hstep, hkey] using h

/-- A redefinition that leads to no word leaves its place in the view alone. -/
theorem not_overlaid (hlookup : ∀ w, d.lookup k ≠ .ok (some w))
    (es : List (String × Target × Bool)) (s : Table (Word × Bool) × List Broken) :
    (es.foldl d.overlay s).1.get? k = s.1.get? k := by
  induction es generalizing s with
  | nil => rfl
  | cons e es ih =>
    rw [List.foldl_cons, ih]
    rcases overlay_cases d s e with ⟨v, hfound, hstep⟩ | ⟨-, hstep⟩
    · have hkey : k ≠ e.1 := by
        intro hkey
        subst hkey
        exact hlookup v hfound
      simp [hstep, hkey]
    · rw [hstep]

private theorem lowered_overlaid {es : List (String × Target × Bool)}
    (hes : ∀ e ∈ es, Text.lower e.1 = e.1) {s : Table (Word × Bool) × List Broken}
    (hs : Lowered s.1) : Lowered (es.foldl d.overlay s).1 := by
  induction es generalizing s with
  | nil => exact hs
  | cons e es ih =>
    rw [List.foldl_cons]
    apply ih (fun e' he' => hes e' (List.mem_cons_of_mem e he'))
    rcases overlay_cases d s e with ⟨v, -, hstep⟩ | ⟨-, hstep⟩
    · rw [hstep]
      exact hs.insert (hes e List.mem_cons_self) _
    · rw [hstep]
      exact hs

private theorem lookup_of_not_redefined (hk : Text.lower k = k)
    (h : d.redefinitions.get? k = none) : d.lookup k = .ok ((d.words.get? k).map Prod.fst) := by
  unfold lookup follow
  simp [hk, h]

end View

/-- The view has lowercase names only. A name has the word in it that a lookup finds. Where a
lookup finds none, the view has what the table of words has, and that is a word exactly for the
names that were added after they were redefined. -/
theorem resolved_agrees_unless_added_late {late : List String} {d : Dictionary}
    (h : Built late d) :
    (∀ k ∈ d.resolved.keys, Text.lower k = k) ∧
    ∀ k, Text.lower k = k →
      (∀ w, d.lookup k = .ok (some w) → ∃ p, d.resolved.get? k = some (w, p)) ∧
      ((∀ w, d.lookup k ≠ .ok (some w)) →
        d.resolved.get? k = d.words.get? k ∧ ((d.resolved.get? k).isSome ↔ k ∈ late)) := by
  rw [resolved_eq]
  constructor
  · intro k hk
    obtain ⟨e, he, rfl⟩ := List.mem_map.mp hk
    exact lowered_overlaid h.lowered.2 h.lowered.1 e he
  intro k hk
  constructor
  · intro w hlookup
    apply overlaid_of_lookup hlookup
    cases hredefined : d.redefinitions.get? k with
    | some e => exact .inl (List.mem_map.mpr ⟨_, Table.mem_of_get? hredefined, rfl⟩)
    | none =>
      rw [lookup_of_not_redefined hk hredefined] at hlookup
      obtain ⟨⟨v, p⟩, hword, rfl⟩ := Option.map_eq_some_iff.mp (Except.ok.inj hlookup)
      exact .inr ⟨p, hword⟩
  · intro hlookup
    have hview := not_overlaid hlookup d.redefinitions.entries (d.words, [])
    refine ⟨hview, ?_⟩
    rw [hview, h.mem_late_iff]
    constructor
    · intro hword
      -- Without a redefinition the lookup would have found the word.
      cases hredefined : d.redefinitions.get? k with
      | some e => exact ⟨hword, rfl⟩
      | none =>
        obtain ⟨⟨w, p⟩, hwp⟩ := Option.isSome_iff_exists.mp hword
        have hfound := lookup_of_not_redefined hk hredefined
        rw [hwp] at hfound
        exact absurd hfound (hlookup w)
    · intro hboth
      exact hboth.1

def latecomer : Dictionary where
  words := ⟨[("a", .native "x" (.push (.int 1)), false)]⟩
  redefinitions := ⟨[("a", .alias "b", false)]⟩

private theorem latecomer_built : Built ["a"] latecomer := by
  have hredefined : redefine {} "A" (.name "b") false =
      .ok { redefinitions := ⟨[("a", .alias "b", false)]⟩ } := rfl
  have hadded : add { redefinitions := ⟨[("a", .alias "b", false)]⟩ } "a"
      (.native "x" (.push (.int 1))) false = .ok latecomer := rfl
  exact .add (.redefine .empty hredefined) hadded

theorem latecomer_in_view :
    Built ["a"] latecomer ∧ Text.lower "a" = "a" ∧ latecomer.lookup "a" = .ok none ∧
    latecomer.resolved.get? "a" = latecomer.words.get? "a" ∧
    (latecomer.resolved.get? "a").isSome := by
  have hlower : Text.lower "a" = "a" := by decide +kernel
  have hlookup : latecomer.lookup "a" = .ok none := rfl
  have hnone : ∀ w, latecomer.lookup "a" ≠ .ok (some w) := by simp [hlookup]
  obtain ⟨hview, hlate⟩ :=
    ((resolved_agrees_unless_added_late latecomer_built).2 "a" hlower).2 hnone
  exact ⟨latecomer_built, hlower, hlookup, hview, hlate.mpr List.mem_cons_self⟩

/-- The view can have a word under a name for which a lookup finds none. -/
theorem resolved_can_keep_broken_name :
    ∃ late d k w p, Built late d ∧ Text.lower k = k ∧ d.lookup k = .ok none ∧
      d.resolved.get? k = some (w, p) :=
  ⟨["a"], latecomer, "a", _, _, latecomer_built, by decide +kernel, rfl, rfl⟩

end Dictionary

end Forthline
