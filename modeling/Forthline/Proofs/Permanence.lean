import Forthline.Proofs.ResolvedView
import Forthline.Proofs.Updates

/-!
# Permanent names

Whether a name is permanent is asked of the table of words first, and of the redefinitions after
that. The resolved view asks them the other way round. The answers differ exactly for a name that
both tables have with different marks, and that leads to a word; such a name was added after it
had been redefined.
-/

namespace Forthline

namespace Dictionary

section Marks

variable {late : List String} {d : Dictionary} {k : String}

private theorem Built.nodup_redefinitions (h : Built late d) : d.redefinitions.keys.Nodup := by
  induction h with
  | empty => exact List.nodup_nil
  | add _ hadd ih =>
    rw [eq_of_add hadd]
    exact ih
  | redefine _ hredefine ih =>
    have heq := (eq_of_redefine hredefine).2.2
    rw [heq]
    exact Table.nodup_keys_insert ih _ _

private theorem overlaid_mark {w : Word} (hlookup : d.lookup k = .ok (some w))
    {es : List (String × Target × Bool)} (hes : (es.map Prod.fst).Nodup)
    (s : Table (Word × Bool) × List Broken) :
    ((es.foldl d.overlay s).1.get? k).map Prod.snd =
      ((es.lookup k).map Prod.snd).or ((s.1.get? k).map Prod.snd) := by
  induction es generalizing s with
  | nil => simp
  | cons e es ih =>
    obtain ⟨key, target, mark⟩ := e
    obtain ⟨hnew, hrest⟩ := List.nodup_cons.mp hes
    rw [List.foldl_cons, ih hrest]
    by_cases hkey : k = key
    · subst hkey
      -- No key is redefined twice, so no later redefinition overwrites the mark.
      have hnone : es.lookup k = none := by
        apply List.lookup_eq_none_iff.mpr
        intro e' he'
        have hne : k ≠ e'.1 := fun hsame => hnew (List.mem_map.mpr ⟨e', he', hsame.symm⟩)
        simpa using hne
      rcases overlay_cases d s (k, target, mark) with ⟨v, -, hstep⟩ | ⟨hnowhere, -⟩
      · simp [hnone, hstep]
      · exact absurd hlookup (hnowhere w)
    · have hplace : (d.overlay s (key, target, mark)).1.get? k = s.1.get? k := by
        rcases overlay_cases d s (key, target, mark) with ⟨v, -, hstep⟩ | ⟨-, hstep⟩
        · simp [hstep, hkey]
        · rw [hstep]
      rw [hplace, List.lookup_cons, beq_eq_false_iff_ne.mpr hkey]

theorem Built.resolved_mark (h : Built late d) {w : Word} (hlookup : d.lookup k = .ok (some w)) :
    (d.resolved.get? k).map Prod.snd =
      ((d.redefinitions.get? k).map Prod.snd).or ((d.words.get? k).map Prod.snd) := by
  rw [resolved_eq]
  exact overlaid_mark hlookup h.nodup_redefinitions _

theorem resolved_mark_of_broken (hlookup : ∀ w, d.lookup k ≠ .ok (some w)) :
    (d.resolved.get? k).map Prod.snd = (d.words.get? k).map Prod.snd := by
  rw [resolved_eq, not_overlaid hlookup]

end Marks

/-- A name of the view is reported to be as permanent as the view has it, except when it was added
after it had been redefined, leads to a word, and was marked differently the two times. -/
theorem isPermanent_differs_iff_added_late {late : List String} {d : Dictionary}
    (h : Built late d) {name : String} {w : Word} {permanent : Bool}
    (hview : d.resolved.get? (Text.lower name) = some (w, permanent)) :
    d.isPermanent name ≠ .ok permanent ↔
      Text.lower name ∈ late ∧ (∃ v, d.lookup name = .ok (some v)) ∧
        (d.words.get? (Text.lower name)).map Prod.snd ≠
          (d.redefinitions.get? (Text.lower name)).map Prod.snd := by
  have hmark : (d.resolved.get? (Text.lower name)).map Prod.snd = some permanent := by
    rw [hview]
    rfl
  have hlower (v : Word) : d.lookup name = .ok (some v) ↔
      d.lookup (Text.lower name) = .ok (some v) :=
    lookup_of_lower (Text.lower_lower name).symm (some v)
  simp only [hlower, h.mem_late_iff, isPermanent]
  by_cases hfound : ∃ v, d.lookup (Text.lower name) = .ok (some v)
  · obtain ⟨v, hv⟩ := hfound
    rw [h.resolved_mark hv] at hmark
    cases hword : d.words.get? (Text.lower name) with
    | none =>
      cases hredefined : d.redefinitions.get? (Text.lower name) with
      | none => simp [hword, hredefined] at hmark
      | some r =>
        have hr : r.2 = permanent := by simpa [hredefined] using hmark
        simp [hr]
    | some q =>
      cases hredefined : d.redefinitions.get? (Text.lower name) with
      | none =>
        have hq : q.2 = permanent := by simpa [hword, hredefined] using hmark
        simp [hq]
      | some r =>
        -- Both tables have the name: the question is answered by the one, the view by the other.
        have hr : r.2 = permanent := by simpa [hredefined] using hmark
        simp [hv, hr]
  · have hbroken : ∀ v, d.lookup (Text.lower name) ≠ .ok (some v) := not_exists.mp hfound
    rw [resolved_mark_of_broken hbroken] at hmark
    obtain ⟨q, hword, hq⟩ := Option.map_eq_some_iff.mp hmark
    simp [hword, hq, hbroken]

def relapsed : Dictionary where
  words := ⟨[("b", .native "x" (.push (.int 1)), false),
    ("a", .native "y" (.push (.int 2)), false)]⟩
  redefinitions := ⟨[("a", .alias "b", true)]⟩

private theorem relapsed_built : Built ["a"] relapsed := by
  have hredefined : redefine {} "a" (.name "b") true =
      .ok { redefinitions := ⟨[("a", .alias "b", true)]⟩ } := rfl
  have htarget : add { redefinitions := ⟨[("a", .alias "b", true)]⟩ } "b"
      (.native "x" (.push (.int 1))) false =
      .ok { words := ⟨[("b", .native "x" (.push (.int 1)), false)]⟩,
            redefinitions := ⟨[("a", .alias "b", true)]⟩ } := rfl
  have hadded : add { words := ⟨[("b", .native "x" (.push (.int 1)), false)]⟩,
                      redefinitions := ⟨[("a", .alias "b", true)]⟩ } "A"
      (.native "y" (.push (.int 2))) false = .ok relapsed := rfl
  exact .add (.add (.redefine .empty hredefined) htarget) hadded

theorem relapsed_differs :
    Built ["a"] relapsed ∧
    relapsed.resolved.get? (Text.lower "A") = some (.native "x" (.push (.int 1)), true) ∧
    relapsed.isPermanent "A" ≠ .ok true := by
  have hlower : Text.lower "A" = "a" := by decide +kernel
  have hview : relapsed.resolved.get? (Text.lower "A") =
      some (.native "x" (.push (.int 1)), true) := rfl
  have hlookup : relapsed.lookup "A" = .ok (some (.native "x" (.push (.int 1)))) := rfl
  refine ⟨relapsed_built, hview, ?_⟩
  apply (isPermanent_differs_iff_added_late relapsed_built hview).mpr
  rw [hlower]
  exact ⟨List.mem_cons_self, ⟨_, hlookup⟩, by decide +kernel⟩

/-- The view can have a name as permanent that is reported not to be. -/
theorem isPermanent_can_deny_view :
    ∃ late d name w, Built late d ∧ d.resolved.get? (Text.lower name) = some (w, true) ∧
      d.isPermanent name = .ok false :=
  ⟨["a"], relapsed, "a", _, relapsed_built, rfl, rfl⟩

end Dictionary

end Forthline
