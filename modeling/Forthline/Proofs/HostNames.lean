import Forthline.Signature.OperatorName
import Mathlib.Data.String.Basic

/-!
# Names of host functions

The function of a word is named by spelling out what an identifier cannot hold. An underscore stands
for a dash, and it also starts what stands for the other marks. So a dash before one of the letters
of a mark is read as that mark, and this is the only way in which a name without underscores is
lost. Each function of a word is that of exactly one name that comes back.
-/

namespace Forthline.OperatorName

/-! ### Replacing one pattern after another -/

/-- Replaces a pattern wherever it is met from left to right; `skip` counts the characters of the
present place that are still to be dropped. -/
def replaceFrom (old new : List Char) : Nat → List Char → List Char
  | _, [] => []
  | skip + 1, _ :: cs => replaceFrom old new skip cs
  | 0, c :: cs =>
    if old <+: c :: cs then new ++ replaceFrom old new (old.length - 1) cs
    else c :: replaceFrom old new 0 cs

def replaced (old new cs : List Char) : List Char := replaceFrom old new 0 cs

section Replaced

variable {a b c : Char} {old new cs : List Char}

private theorem replaceFrom_length (skipped : List Char) :
    replaceFrom old new skipped.length (skipped ++ cs) = replaced old new cs := by
  induction skipped with
  | nil => rfl
  | cons c skipped ih => exact ih

private theorem replaced_append :
    replaced (a :: old) new (a :: (old ++ cs)) = new ++ replaced (a :: old) new cs := by
  have hstart : a :: old <+: a :: (old ++ cs) := List.prefix_append (a :: old) cs
  rw [replaced, replaceFrom, if_pos hstart]
  exact congrArg (new ++ ·) (replaceFrom_length old)

private theorem replaced_cons (h : ¬ old <+: c :: cs) :
    replaced old new (c :: cs) = c :: replaced old new cs := by
  rw [replaced, replaceFrom, if_neg h]
  rfl

private theorem replaced_cons_of_ne (h : c ≠ a) :
    replaced (a :: old) new (c :: cs) = c :: replaced (a :: old) new cs :=
  replaced_cons fun hstart => h (List.cons_prefix_cons.mp hstart).1.symm

private theorem replaced_cons_of_head (h : cs.head? ≠ some b) :
    replaced [a, b] new (a :: cs) = a :: replaced [a, b] new cs := by
  refine replaced_cons fun hstart => h ?_
  obtain ⟨rest, hrest⟩ := (List.cons_prefix_cons.mp hstart).2
  rw [← hrest]
  rfl

private theorem replaced_char (a : Char) (new cs : List Char) :
    replaced [a] new cs = cs.flatMap fun c => if c = a then new else [c] := by
  induction cs with
  | nil => rfl
  | cons c cs ih =>
    rw [List.flatMap_cons, ← ih]
    by_cases h : c = a
    · rw [h, if_pos rfl]
      exact replaced_append
    · rw [if_neg h]
      exact replaced_cons_of_ne h

end Replaced

theorem flatMap_spell_eq_replaced (cs : List Char) :
    cs.flatMap spell =
      replaced ['?'] ['_', 'q'] (replaced ['!'] ['_', 'b'] (replaced ['-'] ['_'] cs)) := by
  rw [replaced_char, replaced_char, replaced_char, List.flatMap_assoc, List.flatMap_assoc]
  refine List.flatMap_congr fun c _ => ?_
  unfold spell
  split
  · rfl
  · rfl
  · rfl
  · rename_i hdash hbang hquery
    have hdash : c ≠ '-' := hdash
    have hbang : c ≠ '!' := hbang
    have hquery : c ≠ '?' := hquery
    simp [hdash, hbang, hquery]

private theorem head?_replaced_ne {cs : List Char} (h : cs.head? ≠ some 'q') :
    (replaced ['_', 'b'] ['!'] cs).head? ≠ some 'q' := by
  cases cs with
  | nil => exact h
  | cons c cs =>
    by_cases hstart : ['_', 'b'] <+: c :: cs
    · rw [replaced, replaceFrom, if_pos hstart]
      simp
    · rw [replaced_cons hstart]
      exact h

theorem unspell_eq_replaced (cs : List Char) :
    unspell cs =
      replaced ['_'] ['-'] (replaced ['_', 'q'] ['?'] (replaced ['_', 'b'] ['!'] cs)) := by
  fun_induction unspell cs with
  | case1 => rfl
  | case2 rest ih =>
    have hbang : replaced ['_', 'b'] ['!'] ('_' :: 'b' :: rest) =
        '!' :: replaced ['_', 'b'] ['!'] rest := replaced_append
    rw [hbang, replaced_cons_of_ne (by decide), replaced_cons_of_ne (by decide), ih]
  | case3 rest ih =>
    -- The first replacement leaves the underscore and the letter beside each other.
    have hquery (cs : List Char) : replaced ['_', 'q'] ['?'] ('_' :: 'q' :: cs) =
        '?' :: replaced ['_', 'q'] ['?'] cs := replaced_append
    rw [replaced_cons_of_head (by simp), replaced_cons_of_ne (c := 'q') (by decide), hquery,
      replaced_cons_of_ne (by decide), ih]
  | case4 c rest hbang hquery ih =>
    by_cases hc : c = '_'
    · subst hc
      have hb : rest.head? ≠ some 'b' := by
        intro h
        obtain ⟨rest', rfl⟩ := List.head?_eq_some_iff.mp h
        exact hbang rest' rfl rfl
      have hq : rest.head? ≠ some 'q' := by
        intro h
        obtain ⟨rest', rfl⟩ := List.head?_eq_some_iff.mp h
        exact hquery rest' rfl rfl
      have hdash (cs : List Char) : replaced ['_'] ['-'] ('_' :: cs) =
          '-' :: replaced ['_'] ['-'] cs := replaced_append
      rw [if_pos rfl, replaced_cons_of_head hb, replaced_cons_of_head (head?_replaced_ne hq),
        hdash, ih]
    · rw [if_neg hc, replaced_cons_of_ne hc, replaced_cons_of_ne hc, replaced_cons_of_ne hc, ih]

/-! ### Reading back what was spelled -/

/-- A text that starts with a letter that stands for a mark after an underscore. -/
def StartsMark (cs : List Char) : Prop := cs.head? = some 'b' ∨ cs.head? = some 'q'

section Reading

variable {c : Char} {cs : List Char}

private theorem spell_of_ne (hdash : c ≠ '-') (hbang : c ≠ '!') (hquery : c ≠ '?') :
    spell c = [c] := by
  unfold spell
  split
  · exact absurd rfl hdash
  · exact absurd rfl hbang
  · exact absurd rfl hquery
  · rfl

private theorem unspell_underscore (h : ¬ StartsMark cs) :
    unspell ('_' :: cs) = '-' :: unspell cs := by
  rw [unspell, if_pos rfl]
  · rintro rest - rfl
    exact h (.inl rfl)
  · rintro rest - rfl
    exact h (.inr rfl)

private theorem unspell_cons (h : c ≠ '_') : unspell (c :: cs) = c :: unspell cs := by
  rw [unspell, if_neg h]
  · exact fun _ hc _ => h hc
  · exact fun _ hc _ => h hc

private theorem startsMark_flatMap_spell (cs : List Char) :
    StartsMark (cs.flatMap spell) ↔ StartsMark cs := by
  cases cs with
  | nil => rfl
  | cons c cs =>
    rw [List.flatMap_cons]
    unfold spell
    split
    · simp [StartsMark]
    · simp [StartsMark]
    · simp [StartsMark]
    · simp [StartsMark]

private theorem underscore_notMem_unspell (cs : List Char) : '_' ∉ unspell cs := by
  fun_induction unspell cs with
  | case1 => simp
  | case2 rest ih => simp [ih]
  | case3 rest ih => simp [ih]
  | case4 c rest hbang hquery ih =>
    by_cases hc : c = '_'
    · simp [hc, ih]
    · simp [hc, ih, Ne.symm hc]

private theorem unspell_flatMap_spell_cons :
    unspell ((c :: cs).flatMap spell) = c :: cs ↔
      (c = '-' → ¬ StartsMark cs) ∧ c ≠ '_' ∧ unspell (cs.flatMap spell) = cs := by
  rw [List.flatMap_cons]
  by_cases hdash : c = '-'
  · subst hdash
    change unspell ('_' :: cs.flatMap spell) = _ ↔ _
    by_cases hmark : StartsMark cs
    -- The dash and the letter after it are read as one mark.
    · refine iff_of_false (fun heq => ?_) fun h => h.1 rfl hmark
      rcases hmark with h | h
      · obtain ⟨rest, rfl⟩ := List.head?_eq_some_iff.mp h
        cases heq
      · obtain ⟨rest, rfl⟩ := List.head?_eq_some_iff.mp h
        cases heq
    · rw [unspell_underscore (mt (startsMark_flatMap_spell cs).mp hmark)]
      simp [hmark]
  by_cases hbang : c = '!'
  · subst hbang
    change '!' :: unspell (cs.flatMap spell) = _ ↔ _
    simp
  by_cases hquery : c = '?'
  · subst hquery
    change '?' :: unspell (cs.flatMap spell) = _ ↔ _
    simp
  rw [spell_of_ne hdash hbang hquery, List.singleton_append]
  by_cases hbare : c = '_'
  -- Whatever follows it, an underscore is not read as itself.
  · refine iff_of_false (fun heq => ?_) fun h => h.2.1 hbare
    apply underscore_notMem_unspell (c :: cs.flatMap spell)
    rw [heq, hbare]
    exact List.mem_cons_self
  · rw [unspell_cons hbare]
    simp [hdash, hbare]

end Reading

/-- A name without underscores in which no dash stands before a letter that marks are spelled
with. -/
def Recoverable (cs : List Char) : Prop :=
  '_' ∉ cs ∧ ¬ ['-', 'b'] <:+: cs ∧ ¬ ['-', 'q'] <:+: cs

instance (cs : List Char) : Decidable (Recoverable cs) :=
  inferInstanceAs (Decidable (_ ∧ _))

private theorem pair_infix_cons {a b c : Char} {cs : List Char} :
    [a, b] <:+: c :: cs ↔ (c = a ∧ cs.head? = some b) ∨ [a, b] <:+: cs := by
  rw [List.infix_cons_iff, List.cons_prefix_cons, List.singleton_prefix_iff_head?_eq_some, eq_comm]

private theorem recoverable_cons {c : Char} {cs : List Char} :
    Recoverable (c :: cs) ↔ (c = '-' → ¬ StartsMark cs) ∧ c ≠ '_' ∧ Recoverable cs := by
  unfold Recoverable StartsMark
  rw [List.mem_cons, pair_infix_cons, pair_infix_cons]
  tauto

/-- What is read back is what was spelled, exactly for the names that are recoverable. -/
theorem unspell_flatMap_spell_iff (cs : List Char) :
    unspell (cs.flatMap spell) = cs ↔ Recoverable cs := by
  induction cs with
  | nil => exact iff_of_true rfl (by decide)
  | cons c cs ih => rw [unspell_flatMap_spell_cons, recoverable_cons, ih]

/-! ### Functions and their words -/

private theorem mark_notMem_spell {m : Char} (hm : m = '-' ∨ m = '!' ∨ m = '?') (c : Char) :
    m ∉ spell c := by
  unfold spell
  split
  · rcases hm with rfl | rfl | rfl <;> decide
  · rcases hm with rfl | rfl | rfl <;> decide
  · rcases hm with rfl | rfl | rfl <;> decide
  · rename_i hdash hbang hquery
    rw [List.mem_singleton]
    rintro rfl
    rcases hm with rfl | rfl | rfl
    · exact hdash rfl
    · exact hbang rfl
    · exact hquery rfl

def Unmarked (cs : List Char) : Prop := ∀ c ∈ cs, c ≠ '-' ∧ c ≠ '!' ∧ c ≠ '?'

private theorem unmarked_flatMap_spell (cs : List Char) : Unmarked (cs.flatMap spell) := by
  intro d hd
  obtain ⟨c, -, hc⟩ := List.mem_flatMap.mp hd
  have hmark (m : Char) (hm : m = '-' ∨ m = '!' ∨ m = '?') : d ≠ m := by
    rintro rfl
    exact mark_notMem_spell hm c hc
  exact ⟨hmark '-' (by decide), hmark '!' (by decide), hmark '?' (by decide)⟩

private theorem flatMap_spell_unspell {cs : List Char} (h : Unmarked cs) :
    (unspell cs).flatMap spell = cs := by
  fun_induction unspell cs with
  | case1 => rfl
  | case2 rest ih =>
    have hrest := ih fun c hc => h c (by simp [hc])
    rw [List.flatMap_cons, hrest]
    rfl
  | case3 rest ih =>
    have hrest := ih fun c hc => h c (by simp [hc])
    rw [List.flatMap_cons, hrest]
    rfl
  | case4 c rest hbang hquery ih =>
    have hrest := ih fun d hd => h d (List.mem_cons_of_mem c hd)
    obtain ⟨hdash, hbang, hquery⟩ := h c List.mem_cons_self
    rw [List.flatMap_cons, hrest]
    by_cases hc : c = '_'
    · rw [if_pos hc, hc]
      rfl
    · rw [if_neg hc, spell_of_ne hdash hbang hquery, List.singleton_append]

private theorem toWord_op (cs : List Char) :
    toWord ("op_" ++ String.ofList cs) = .ok (String.ofList (unspell cs)) := by
  have hname : ("op_" ++ String.ofList cs).toList = 'o' :: 'p' :: '_' :: cs := by
    rw [String.toList_append, @String.toList_ofList cs]
    rfl
  simp only [toWord, hname]

theorem ofWord_of_unmarked {cs : List Char} (h : Unmarked cs) :
    ∃ w, toWord ("op_" ++ String.ofList cs) = .ok w ∧ ofWord w = "op_" ++ String.ofList cs ∧
      Recoverable w.toList := by
  have hspell := flatMap_spell_unspell h
  refine ⟨_, toWord_op cs, ?_, ?_⟩
  · rw [ofWord, String.toList_ofList, hspell]
  · rw [String.toList_ofList, ← unspell_flatMap_spell_iff, hspell]

private theorem toWord_ofWord_iff (n : String) :
    toWord (ofWord n) = .ok n ↔ Recoverable n.toList := by
  rw [ofWord, toWord_op, Except.ok.injEq, ← unspell_flatMap_spell_iff, String.ofList_eq]

/-- A name is read back from the name of its function exactly if it is recoverable. Different
recoverable names have different functions, and every function of a word is the one of a recoverable
name. -/
theorem names_return_iff_recoverable (n : String) :
    (toWord (ofWord n) = .ok n ↔ Recoverable n.toList) ∧
    (∀ m, Recoverable m.toList → Recoverable n.toList → ofWord m = ofWord n → m = n) ∧
    ∃ w, toWord (ofWord n) = .ok w ∧ ofWord w = ofWord n ∧ Recoverable w.toList := by
  refine ⟨toWord_ofWord_iff n, fun m hm hn h => ?_, ?_⟩
  · have hread := (toWord_ofWord_iff m).mpr hm
    rw [h, (toWord_ofWord_iff n).mpr hn] at hread
    exact (Except.ok.inj hread).symm
  · exact ofWord_of_unmarked (unmarked_flatMap_spell n.toList)

/-- Names with every mark in them. -/
theorem marks_do_not_collide :
    Recoverable "store-!".toList ∧ Recoverable "store-?".toList ∧
      toWord (ofWord "store-!") = .ok "store-!" ∧ ofWord "store-?" ≠ ofWord "store-!" := by
  have hbang : Recoverable "store-!".toList := by decide +kernel
  have hquery : Recoverable "store-?".toList := by decide +kernel
  obtain ⟨hread, hdiffers, -⟩ := names_return_iff_recoverable "store-!"
  exact ⟨hbang, hquery, hread.mpr hbang, fun h => absurd (hdiffers _ hquery hbang h) (by decide)⟩

/-- A name of letters and a dash that is read back as another name, which has the same function. -/
theorem dash_before_letter_is_lost :
    ("to-base".toList.all fun c => c.isLower || c.isDigit || ['-', '!', '?'].contains c) = true ∧
      ofWord "to-base" = "op_to_base" ∧ toWord "op_to_base" = .ok "to!ase" ∧
      ofWord "to!ase" = "op_to_base" := by
  decide +kernel

end Forthline.OperatorName
