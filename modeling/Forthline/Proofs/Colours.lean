import Forthline.Text.Colour
import Mathlib.Data.List.Infix
import Mathlib.Data.List.TakeWhile

/-!
# Plain text

Colour codes never overlap, so reading from left to right removes all of them. Where they were, what
is left comes together, and a code may arise that was none before: exactly in a text with a torn
code, between whose characters stand whole ones. Any other text is plain afterwards, and nothing
more is removed from it.
-/

namespace Forthline.Text

/-- A colour code: an escape, a bracket, digits and semicolons, and a closing `m`. -/
def IsColour (k : List Char) : Prop :=
  ∃ ps, (∀ p ∈ ps, isColourParameter p = true) ∧ k = escape :: '[' :: (ps ++ ['m'])

def StartsColour (cs : List Char) : Prop := ∃ k, IsColour k ∧ k <+: cs

def HasColour (cs : List Char) : Prop := ∃ k, IsColour k ∧ k <:+: cs

/-- The first text with whole colour codes put between its characters. -/
inductive Woven : List Char → List Char → Prop
  | last (c : Char) : Woven [c] [c]
  | cons {c : Char} {js : List (List Char)} {k w : List Char} :
      (∀ j ∈ js, IsColour j) → Woven k w → Woven (c :: k) (c :: (js.flatten ++ w))

/-- A text with a colour code in it that is torn apart by others. -/
def Torn (cs : List Char) : Prop := ∃ k w, IsColour k ∧ Woven k w ∧ w ≠ k ∧ w <:+: cs

/-! ### Colour codes -/

private theorem prefix_of_notMem {a : Char} {xs us ts : List Char} (ha : a ∉ xs)
    (h : xs <+: us ++ a :: ts) : xs <+: us := by
  induction us generalizing xs with
  | nil =>
    cases xs with
    | nil => exact List.nil_prefix
    | cons x xs => exact absurd (by simp [(List.cons_prefix_cons.mp h).1]) ha
  | cons u us ih =>
    cases xs with
    | nil => exact List.nil_prefix
    | cons x xs =>
      obtain ⟨hx, hxs⟩ := List.cons_prefix_cons.mp h
      have ha : a ∉ xs := fun hmem => ha (List.mem_cons_of_mem x hmem)
      exact List.cons_prefix_cons.mpr ⟨hx, ih ha hxs⟩

namespace IsColour

variable {j k us ts : List Char}

theorem eq_cons (hk : IsColour k) : ∃ t, k = escape :: t ∧ t ≠ [] ∧ escape ∉ t := by
  obtain ⟨ps, hps, rfl⟩ := hk
  refine ⟨'[' :: (ps ++ ['m']), rfl, List.cons_ne_nil _ _, fun hmem => ?_⟩
  rcases List.mem_cons.mp hmem with h | h
  · exact absurd h (by decide)
  rcases List.mem_append.mp h with h | h
  · exact absurd (hps _ h) (by decide)
  · exact absurd h (by decide)

theorem eq_of_starts (hj : IsColour j) (hk : IsColour k) (h : j <+: k) : j = k := by
  obtain ⟨ps, -, rfl⟩ := hj
  obtain ⟨qs, hqs, rfl⟩ := hk
  have htail : ps ++ ['m'] <+: qs ++ ['m'] := by simpa [List.cons_prefix_cons] using h
  rcases List.prefix_concat_iff.mp htail with heq | hstart
  · rw [heq]
  · exact absurd (hqs 'm' (hstart.subset (by simp))) (by decide)

/-- A code that starts before an escape ends before it. -/
theorem prefix_of_append_escape (hj : IsColour j) (hus : us ≠ [])
    (h : j <+: us ++ escape :: ts) : j <+: us := by
  obtain ⟨t, rfl, -, ht⟩ := hj.eq_cons
  obtain ⟨u, us, rfl⟩ := List.exists_cons_of_ne_nil hus
  obtain ⟨hu, htail⟩ := List.cons_prefix_cons.mp h
  exact List.cons_prefix_cons.mpr ⟨hu, prefix_of_notMem ht htail⟩

end IsColour

private theorem not_startsColour_of_ne {c : Char} (cs : List Char) (hc : c ≠ escape) :
    ¬ StartsColour (c :: cs) := by
  rintro ⟨k, hk, hstart⟩
  obtain ⟨t, rfl, -⟩ := hk.eq_cons
  exact hc (List.cons_prefix_cons.mp hstart).1.symm

private theorem colourLength?_append {k : List Char} (hk : IsColour k) (cs : List Char) :
    colourLength? (k ++ cs) = some k.length := by
  obtain ⟨ps, hps, rfl⟩ := hk
  have htake : (ps ++ 'm' :: cs).takeWhile isColourParameter = ps := by
    rw [List.takeWhile_append_of_pos hps, List.takeWhile_cons_of_neg (by decide), List.append_nil]
  have htext : escape :: '[' :: (ps ++ ['m']) ++ cs = escape :: '[' :: (ps ++ 'm' :: cs) := by simp
  rw [htext, colourLength?]
  simp [htake]

private theorem startsColour_of_colourLength? {cs : List Char} {n : Nat}
    (h : colourLength? cs = some n) : StartsColour cs := by
  unfold colourLength? at h
  split at h
  · rename_i c rest
    let ps := rest.takeWhile isColourParameter
    change (if (decide (c = escape) && decide ((rest.drop ps.length).head? = some 'm')) = true
      then some (ps.length + 3) else none) = some n at h
    split at h
    · rename_i hcode
      obtain ⟨hc, hclose⟩ := (Bool.and_eq_true _ _).mp hcode
      obtain ⟨tail, htail⟩ := List.head?_eq_some_iff.mp (of_decide_eq_true hclose)
      have hrest : ps ++ rest.drop ps.length = rest :=
        List.prefix_iff_eq_append.mp (List.takeWhile_prefix isColourParameter)
      refine ⟨escape :: '[' :: (ps ++ ['m']), ⟨ps, fun p hp => List.mem_takeWhile_imp hp, rfl⟩,
        tail, ?_⟩
      rw [of_decide_eq_true hc, ← hrest, htail]
      simp
    · cases h
  · cases h

/-! ### What is left of a text -/

/-- What is left of a text without the colour codes met from left to right. -/
inductive Stripped : List Char → List Char → Prop
  | nil : Stripped [] []
  | colour {k cs left : List Char} : IsColour k → Stripped cs left → Stripped (k ++ cs) left
  | char {c : Char} {cs left : List Char} :
      ¬ StartsColour (c :: cs) → Stripped cs left → Stripped (c :: cs) (c :: left)

private theorem dropColour_length (skipped cs : List Char) :
    dropColour skipped.length (skipped ++ cs) = dropColour 0 cs := by
  induction skipped with
  | nil => rfl
  | cons c skipped ih => exact ih

private theorem dropColour_append {k : List Char} (hk : IsColour k) (cs : List Char) :
    dropColour 0 (k ++ cs) = dropColour 0 cs := by
  have hlength := colourLength?_append hk cs
  obtain ⟨t, rfl, -⟩ := hk.eq_cons
  rw [List.cons_append] at hlength ⊢
  rw [dropColour, hlength]
  exact dropColour_length t cs

private theorem dropColour_cons {c : Char} {cs : List Char} (h : ¬ StartsColour (c :: cs)) :
    dropColour 0 (c :: cs) = c :: dropColour 0 cs := by
  rw [dropColour]
  cases hlength : colourLength? (c :: cs) with
  | none => rfl
  | some n => exact absurd (startsColour_of_colourLength? hlength) h

private theorem stripped_dropColour (cs : List Char) : Stripped cs (dropColour 0 cs) := by
  by_cases h : StartsColour cs
  · obtain ⟨k, hk, rest, rfl⟩ := h
    rw [dropColour_append hk]
    exact .colour hk (stripped_dropColour rest)
  · cases cs with
    | nil => exact .nil
    | cons c cs =>
      rw [dropColour_cons h]
      exact .char h (stripped_dropColour cs)
termination_by cs.length
decreasing_by
  · have hlength := congrArg List.length ‹k ++ rest = cs›
    obtain ⟨t, rfl, -⟩ := hk.eq_cons
    rw [List.length_append, List.length_cons] at hlength
    omega
  · simp

theorem stripped_iff {cs left : List Char} : Stripped cs left ↔ dropColour 0 cs = left := by
  constructor
  · intro h
    induction h with
    | nil => rfl
    | colour hk _ ih => rw [dropColour_append hk, ih]
    | char hc _ ih => rw [dropColour_cons hc, ih]
  · rintro rfl
    exact stripped_dropColour cs

namespace Stripped

variable {k w cs ds left rest : List Char}

private theorem flatten {js : List (List Char)} (hjs : ∀ j ∈ js, IsColour j)
    (h : Stripped cs left) : Stripped (js.flatten ++ cs) left := by
  induction js with
  | nil => exact h
  | cons j js ih =>
    obtain ⟨hj, hjs⟩ := List.forall_mem_cons.mp hjs
    rw [List.flatten_cons, List.append_assoc]
    exact .colour hj (ih hjs)

private theorem append_escape (h : Stripped cs left) (hrest : Stripped (escape :: ds) rest) :
    Stripped (cs ++ escape :: ds) (left ++ rest) := by
  induction h with
  | nil => exact hrest
  | colour hk _ ih =>
    rw [List.append_assoc]
    exact .colour hk ih
  | char hc _ ih =>
    refine .char (fun ⟨k, hk, hstart⟩ => hc ⟨k, hk, ?_⟩) ih
    exact hk.prefix_of_append_escape (List.cons_ne_nil _ _) hstart

private theorem woven (hw : Woven k w) (hk : escape ∉ k) (h : Stripped cs left) :
    Stripped (w ++ cs) (k ++ left) := by
  induction hw with
  | last c =>
    have hc : c ≠ escape := fun hc => hk (hc ▸ List.mem_cons_self)
    exact .char (not_startsColour_of_ne _ hc) h
  | @cons c js k w hjs _ ih =>
    have hc : c ≠ escape := fun hc => hk (hc ▸ List.mem_cons_self)
    have htail := flatten hjs (ih fun hmem => hk (List.mem_cons_of_mem c hmem))
    rw [← List.append_assoc] at htail
    exact .char (not_startsColour_of_ne _ hc) htail

end Stripped

/-! ### Torn codes -/

private theorem Woven.eq_or_escape {k w : List Char} (h : Woven k w) :
    w = k ∨ ∃ u v t, u ≠ [] ∧ v ≠ [] ∧ k = u ++ v ∧ w = u ++ escape :: t := by
  induction h with
  | last c => exact .inl rfl
  | @cons c js k w hjs hw ih =>
    cases js with
    | nil =>
      rcases ih with rfl | ⟨u, v, t, -, hv, rfl, rfl⟩
      · exact .inl rfl
      · exact .inr ⟨c :: u, v, t, List.cons_ne_nil _ _, hv, rfl, rfl⟩
    | cons j js =>
      obtain ⟨t, rfl, -⟩ := (hjs j List.mem_cons_self).eq_cons
      have hk : k ≠ [] := by
        cases hw with
        | last => exact List.cons_ne_nil _ _
        | cons => exact List.cons_ne_nil _ _
      exact .inr ⟨[c], k, t ++ (js.flatten ++ w), List.cons_ne_nil _ _, hk, rfl, by simp⟩

private theorem Woven.not_startsColour {k w : List Char} (h : Woven k w) (hk : IsColour k)
    (hne : w ≠ k) (cs : List Char) : ¬ StartsColour (w ++ cs) := by
  rintro ⟨j, hj, hstart⟩
  rcases h.eq_or_escape with heq | ⟨u, v, t, hu, hv, rfl, rfl⟩
  · exact hne heq
  -- It would end before the first inserted code, and so be a part of the torn one.
  have hju : j <+: u := by
    apply hj.prefix_of_append_escape hu
    rwa [List.append_assoc] at hstart
  have hsame := hj.eq_of_starts hk (hju.trans (List.prefix_append u v))
  have hlength := hju.length_le
  rw [hsame, List.length_append] at hlength
  exact hv (List.eq_nil_of_length_eq_zero (by omega))

private theorem hasColour_of_torn {cs : List Char} (h : Torn cs) : HasColour (dropColour 0 cs) := by
  obtain ⟨k, w, hk, hw, hne, before, after, rfl⟩ := h
  have hstarts := hw.not_startsColour hk hne after
  obtain ⟨t, rfl, ht, hescape⟩ := hk.eq_cons
  cases hw with
  | last => exact absurd rfl ht
  | @cons _ js _ w hjs hw =>
    have htail := Stripped.flatten hjs (Stripped.woven hw hescape (stripped_dropColour after))
    rw [← List.append_assoc] at htail
    have htorn := (stripped_dropColour before).append_escape (.char hstarts htail)
    refine ⟨escape :: t, hk, dropColour 0 before, dropColour 0 after, ?_⟩
    rw [List.append_assoc, List.append_assoc]
    exact (stripped_iff.mp htorn).symm

private theorem Stripped.exists_woven {cs left k : List Char} (h : Stripped cs left)
    (hk : k ≠ []) (hstart : k <+: left) :
    ∃ (js : List (List Char)) (w after : List Char), (∀ j ∈ js, IsColour j) ∧ Woven k w ∧
      cs = js.flatten ++ (w ++ after) := by
  induction h generalizing k with
  | nil => exact absurd (List.prefix_nil.mp hstart) hk
  | @colour j cs left hj _ ih =>
    obtain ⟨js, w, after, hjs, hw, rfl⟩ := ih hk hstart
    exact ⟨j :: js, w, after, List.forall_mem_cons.mpr ⟨hj, hjs⟩, hw, by simp⟩
  | @char c cs left hc _ ih =>
    obtain ⟨d, k, rfl⟩ := List.exists_cons_of_ne_nil hk
    obtain ⟨rfl, htail⟩ := List.cons_prefix_cons.mp hstart
    by_cases hempty : k = []
    · subst hempty
      exact ⟨[], [d], cs, by simp, .last d, rfl⟩
    · obtain ⟨js, w, after, hjs, hw, rfl⟩ := ih hempty htail
      exact ⟨[], d :: (js.flatten ++ w), after, by simp, .cons hjs hw, by simp⟩

private theorem Stripped.torn {cs left : List Char} (h : Stripped cs left)
    (hleft : HasColour left) : Torn cs := by
  obtain ⟨k, hk, hinside⟩ := hleft
  induction h with
  | nil =>
    obtain ⟨t, rfl, -⟩ := hk.eq_cons
    simp at hinside
  | @colour j cs left _ _ ih =>
    obtain ⟨k, w, hk, hw, hne, hcs⟩ := ih hinside
    exact ⟨k, w, hk, hw, hne, hcs.trans (List.suffix_append j cs).isInfix⟩
  | @char c cs left hc h ih =>
    rcases List.infix_cons_iff.mp hinside with hstart | hinside
    · obtain ⟨t, rfl, ht, -⟩ := hk.eq_cons
      obtain ⟨rfl, htail⟩ := List.cons_prefix_cons.mp hstart
      obtain ⟨js, w, after, hjs, hw, rfl⟩ := h.exists_woven ht htail
      have htext : escape :: (js.flatten ++ w) ++ after =
          escape :: (js.flatten ++ (w ++ after)) := by simp
      refine ⟨escape :: t, escape :: (js.flatten ++ w), hk, .cons hjs hw, fun heq => ?_,
        [], after, htext⟩
      -- A whole code would have been taken out.
      exact hc ⟨_, hk, heq ▸ ⟨after, htext⟩⟩
    · obtain ⟨k, w, hk, hw, hne, hcs⟩ := ih hinside
      exact ⟨k, w, hk, hw, hne, hcs.trans (List.suffix_cons c cs).isInfix⟩

theorem hasColour_dropColour_iff (cs : List Char) : HasColour (dropColour 0 cs) ↔ Torn cs :=
  ⟨(stripped_dropColour cs).torn, hasColour_of_torn⟩

/-! ### Plain texts -/

private theorem escape_mem_of_hasColour {cs : List Char} (h : HasColour cs) : escape ∈ cs := by
  obtain ⟨k, hk, hinside⟩ := h
  obtain ⟨t, rfl, -⟩ := hk.eq_cons
  exact hinside.subset List.mem_cons_self

private theorem Stripped.eq_of_plain {cs left : List Char} (h : Stripped cs left)
    (hplain : ¬ HasColour cs) : left = cs := by
  induction h with
  | nil => rfl
  | @colour k cs _ hk _ _ => exact absurd ⟨k, hk, (List.prefix_append k cs).isInfix⟩ hplain
  | @char c cs _ _ _ ih =>
    rw [ih fun ⟨k, hk, hinside⟩ => hplain ⟨k, hk, hinside.trans (List.suffix_cons c cs).isInfix⟩]

private theorem Stripped.sublist {cs left : List Char} (h : Stripped cs left) :
    left.Sublist cs := by
  induction h with
  | nil => exact .slnil
  | colour _ _ ih => exact ih.trans (List.sublist_append_right _ _)
  | char _ _ ih => exact ih.cons_cons _

private theorem Stripped.ne_of_hasColour {cs left : List Char} (h : Stripped cs left)
    (hcolour : HasColour cs) : left ≠ cs := by
  obtain ⟨k, hk, hinside⟩ := hcolour
  induction h with
  | nil =>
    obtain ⟨t, rfl, -⟩ := hk.eq_cons
    simp at hinside
  | @colour j cs left hj h _ =>
    intro heq
    have hlength := h.sublist.length_le
    obtain ⟨t, rfl, -⟩ := hj.eq_cons
    rw [heq, List.length_append, List.length_cons] at hlength
    omega
  | @char c cs left hc _ ih =>
    rcases List.infix_cons_iff.mp hinside with hstart | hinside
    · exact absurd ⟨k, hk, hstart⟩ hc
    · exact fun heq => ih hinside (List.cons.inj heq).2

theorem dropColour_eq_self_iff {cs : List Char} : dropColour 0 cs = cs ↔ ¬ HasColour cs :=
  ⟨fun heq hcolour => (stripped_dropColour cs).ne_of_hasColour hcolour heq,
    (stripped_dropColour cs).eq_of_plain⟩

/-- Codes are left of the torn texts and of no others, and only there a second time takes out more
than the first. A text without escapes is left as it is. -/
theorem stripped_plain_iff_untorn (s : String) :
    (HasColour (stripColour s).toList ↔ Torn s.toList) ∧
    (stripColour (stripColour s) = stripColour s ↔ ¬ Torn s.toList) ∧
    (escape ∉ s.toList → stripColour s = s) := by
  have hleft : (stripColour s).toList = dropColour 0 s.toList := String.toList_ofList
  have hcolour : HasColour (stripColour s).toList ↔ Torn s.toList := by
    rw [hleft, hasColour_dropColour_iff]
  refine ⟨hcolour, ?_, fun hescape => ?_⟩
  · rw [← hcolour, ← dropColour_eq_self_iff, ← String.toList_inj, stripColour, String.toList_ofList]
  · have hplain : ¬ HasColour s.toList := mt escape_mem_of_hasColour hescape
    rw [stripColour, dropColour_eq_self_iff.mpr hplain, String.ofList_toList]

/-- The codes around a prompt are taken out for good, and a reply without codes is as it was. -/
theorem coloured_prompt_is_plain :
    stripColour "\x1b[36m<<< \x1b[0m" = "<<< " ∧ ¬ Torn "\x1b[36m<<< \x1b[0m".toList ∧
      ¬ HasColour "<<< ".toList ∧ escape ∉ "7  ok".toList ∧ stripColour "7  ok" = "7  ok" := by
  have hleft : stripColour "\x1b[36m<<< \x1b[0m" = "<<< " := by decide +kernel
  have hescape : escape ∉ "7  ok".toList := by decide
  obtain ⟨hcolour, htwice, -⟩ := stripped_plain_iff_untorn "\x1b[36m<<< \x1b[0m"
  rw [hleft] at hcolour htwice
  have huntorn := htwice.mp (by decide +kernel)
  exact ⟨hleft, huntorn, mt hcolour.mp huntorn, hescape,
    (stripped_plain_iff_untorn "7  ok").2.2 hescape⟩

/-- A code in the middle of another one: what is left is the outer one. -/
theorem torn_colour_comes_together :
    stripColour "\x1b[3\x1b[0m1mred" = "\x1b[31mred" ∧ HasColour "\x1b[31mred".toList ∧
      stripColour "\x1b[31mred" = "red" := by
  have hcode : IsColour "\x1b[31m".toList := ⟨['3', '1'], List.all_eq_true.mp rfl, rfl⟩
  exact ⟨by decide +kernel, ⟨_, hcode, [], "red".toList, rfl⟩, by decide +kernel⟩

end Forthline.Text
