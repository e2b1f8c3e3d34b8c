import Forthline.Table

/-!
# Look-up in tables

What is found in a table after a key was inserted or erased. A key that is inserted anew and then
erased leaves no trace.
-/

namespace Forthline

namespace Table

variable {α : Type}

theorem mem_of_get? {t : Table α} {key : String} {a : α} (h : t.get? key = some a) :
    (key, a) ∈ t.entries := by
  obtain ⟨before, after, hentries, -⟩ := List.lookup_eq_some_iff.mp h
  rw [hentries]
  simp

theorem mem_insertEntry {key : String} {a : α} {es : List (String × α)} {e : String × α}
    (h : e ∈ insertEntry key a es) : e = (key, a) ∨ e ∈ es := by
  induction es with
  | nil => exact .inl (List.mem_singleton.mp h)
  | cons e' es ih =>
    unfold insertEntry at h
    split at h
    · rcases List.mem_cons.mp h with rfl | h
      · exact .inl rfl
      · exact .inr (List.mem_cons_of_mem _ h)
    · rcases List.mem_cons.mp h with rfl | h
      · exact .inr List.mem_cons_self
      · exact (ih h).imp id (List.mem_cons_of_mem _)

@[simp] theorem get?_insert (t : Table α) (key : String) (a : α) (key' : String) :
    (t.insert key a).get? key' = if key' = key then some a else t.get? key' := by
  obtain ⟨es⟩ := t
  change (insertEntry key a es).lookup key' = if key' = key then some a else es.lookup key'
  induction es with
  | nil =>
    by_cases h : key' = key
    · simp [insertEntry, h]
    · simp [insertEntry, h, beq_eq_false_iff_ne.mpr h, List.lookup_cons]
  | cons e es ih =>
    obtain ⟨k, b⟩ := e
    by_cases hk : k = key
    · subst hk
      by_cases h : key' = k
      · simp [insertEntry, h]
      · simp [insertEntry, h, beq_eq_false_iff_ne.mpr h, List.lookup_cons]
    · by_cases h : key' = k
      · subst h
        simp [insertEntry, hk]
      · simp [insertEntry, hk, List.lookup_cons, beq_eq_false_iff_ne.mpr h, ih]

@[simp] theorem get?_erase (t : Table α) (key key' : String) :
    (t.erase key).get? key' = if key' = key then none else t.get? key' := by
  obtain ⟨es⟩ := t
  change (es.filter fun e => e.1 ≠ key).lookup key' = if key' = key then none else es.lookup key'
  induction es with
  | nil => simp
  | cons e es ih =>
    obtain ⟨k, b⟩ := e
    by_cases hk : k = key
    · subst hk
      rw [List.filter_cons_of_neg (by simp), ih]
      by_cases h : key' = k
      · rw [if_pos h, if_pos h]
      · rw [if_neg h, if_neg h, List.lookup_cons, beq_eq_false_iff_ne.mpr h]
    · rw [List.filter_cons_of_pos (by simpa using hk)]
      by_cases h : key' = k
      · subst h
        simp [hk]
      · simp only [List.lookup_cons, beq_eq_false_iff_ne.mpr h, ih]

private theorem insertEntry_fresh {key : String} (a : α) {es : List (String × α)}
    (h : ∀ e ∈ es, e.1 ≠ key) : insertEntry key a es = es ++ [(key, a)] := by
  induction es with
  | nil => rfl
  | cons e es ih =>
    have he : e.1 ≠ key := h e List.mem_cons_self
    have hes := ih fun e' he' => h e' (List.mem_cons_of_mem _ he')
    simp [insertEntry, he, hes]

theorem nodup_keys_insert {t : Table α} (h : t.keys.Nodup) (key : String) (a : α) :
    (t.insert key a).keys.Nodup := by
  obtain ⟨es⟩ := t
  change (es.map Prod.fst).Nodup at h
  change ((insertEntry key a es).map Prod.fst).Nodup
  induction es with
  | nil => simp [insertEntry]
  | cons e es ih =>
    have hes := (List.nodup_cons.mp h).2
    have he := (List.nodup_cons.mp h).1
    by_cases hkey : e.1 = key
    · simpa [insertEntry, hkey] using h
    · have hnew : e.1 ∉ (insertEntry key a es).map Prod.fst := by
        intro hmem
        obtain ⟨e', he', hsame⟩ := List.mem_map.mp hmem
        rcases mem_insertEntry he' with rfl | he'
        · exact hkey hsame.symm
        · exact he (List.mem_map.mpr ⟨e', he', hsame⟩)
      simpa [insertEntry, hkey] using ⟨by simpa using hnew, ih hes⟩

theorem keys_of_get?_eq_none {t : Table α} {key : String} (h : t.get? key = none) :
    ∀ e ∈ t.entries, e.1 ≠ key := by
  intro e he hkey
  have hnone := List.lookup_eq_none_iff.mp h e he
  simp [hkey] at hnone

theorem erase_insert_of_get?_eq_none {t : Table α} {key : String} (h : t.get? key = none)
    (a : α) : (t.insert key a).erase key = t := by
  obtain ⟨es⟩ := t
  have hes : ∀ e ∈ es, e.1 ≠ key := keys_of_get?_eq_none h
  change (⟨(insertEntry key a es).filter _⟩ : Table α) = ⟨es⟩
  rw [insertEntry_fresh a hes, List.filter_append, List.filter_eq_self.mpr]
  · simp
  · intro e he
    simpa using hes e he

def eraseAll (t : Table α) (keys : List String) : Table α := keys.foldl erase t

section EraseAll

variable (t : Table α) (keys : List String)

theorem entries_eraseAll :
    (t.eraseAll keys).entries = t.entries.filter fun e => e.1 ∉ keys := by
  induction keys generalizing t with
  | nil => exact (List.filter_eq_self.mpr (by simp)).symm
  | cons key keys ih =>
    change ((t.erase key).eraseAll keys).entries = _
    rw [ih, erase, List.filter_filter]
    apply List.filter_congr
    intro e _
    simp [Bool.and_comm]

theorem get?_eraseAll (key : String) :
    (t.eraseAll keys).get? key = if key ∈ keys then none else t.get? key := by
  induction keys generalizing t with
  | nil => simp [eraseAll]
  | cons k keys ih =>
    change ((t.erase k).eraseAll keys).get? key = _
    rw [ih, get?_erase]
    by_cases hkey : key = k
    · simp [hkey]
    · simp [hkey]

theorem eraseAll_insert {key : String} (h : key ∈ keys) (a : α) :
    (t.insert key a).eraseAll keys = t.eraseAll keys := by
  have hentries : ((t.insert key a).eraseAll keys).entries = (t.eraseAll keys).entries := by
    rw [entries_eraseAll, entries_eraseAll]
    change (insertEntry key a t.entries).filter _ = _
    induction t.entries with
    | nil => simp [insertEntry, h]
    | cons e es ih =>
      by_cases he : e.1 = key
      · simp [insertEntry, he, h]
      · simp only [insertEntry, if_neg he, List.filter_cons, ih]
  exact congrArg Table.mk hentries

theorem eraseAll_eq_self_iff : t.eraseAll keys = t ↔ ∀ key ∈ keys, t.get? key = none := by
  constructor
  · intro heq key hkey
    rw [← heq, get?_eraseAll, if_pos hkey]
  · intro hnone
    have hentries : (t.eraseAll keys).entries = t.entries := by
      rw [entries_eraseAll, List.filter_eq_self]
      intro e he
      have hother : e.1 ∉ keys := fun hkey => keys_of_get?_eq_none (hnone e.1 hkey) e he rfl
      simpa using hother
    exact congrArg Table.mk hentries

end EraseAll

end Table

end Forthline
