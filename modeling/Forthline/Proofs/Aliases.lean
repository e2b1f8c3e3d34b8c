import Mathlib.Data.List.Nodup
import Mathlib.Data.Finset.Card
import Forthline.Dictionary
import Forthline.Proofs.Tables

/-!
# Paths of aliases

From a name a lookup goes along a path: the lowercase name first, and after a key that is an alias
the key it stands for. A lookup finds what stands at the end of the path, and fails when the path
has no end. It sees that at the first key that it meets again; until then the keys are different
aliases, so the lookup comes to its end within the number of redefinitions.
-/

namespace Forthline

namespace Dictionary

def aliasOf? (d : Dictionary) (key : String) : Option String :=
  match d.redefinitions.get? key with
  | some (.alias target, _) => some target
  | _ => none

/-- The keys from a name along its aliases, `none` after the end. -/
def path (d : Dictionary) (name : String) : Nat → Option String
  | 0 => some (Text.lower name)
  | i + 1 => (d.path name i).bind d.aliasOf?

/-- The first keys of the path, `count` of them where the path is long enough. -/
def trail (d : Dictionary) (name : String) (count : Nat) : List String :=
  (List.range count).filterMap (d.path name)

def Reaches (d : Dictionary) (name key : String) : Prop := ∃ i, d.path name i = some key

def NeverStops (d : Dictionary) (name : String) : Prop := ∀ i, (d.path name i).isSome

def wordAt? (d : Dictionary) (key : String) : Option Word :=
  match d.redefinitions.get? key with
  | some (.captured w, _) => some w
  | _ => (d.words.get? key).map Prod.fst

section Path

variable {d : Dictionary} {name key : String} {i j n : Nat}

private theorem path_eq_none_of_le (h : d.path name i = none) (hle : i ≤ j) :
    d.path name j = none := by
  induction j, hle using Nat.le_induction with
  | base => exact h
  | succ j _ ih => simp [path, ih]

private theorem path_past_end (h : d.path name i = some key) (hend : d.aliasOf? key = none)
    (hlt : i < j) : d.path name j = none := by
  have hnext : d.path name (i + 1) = none := by simp [path, h, hend]
  exact path_eq_none_of_le hnext hlt

private theorem not_neverStops (h : d.path name i = some key) (hend : d.aliasOf? key = none) :
    ¬d.NeverStops name := by
  intro hnever
  have hsome := hnever (i + 1)
  rw [path_past_end h hend (Nat.lt_succ_self i)] at hsome
  cases hsome

private theorem end_unique {key' : String} (h : d.path name i = some key)
    (hend : d.aliasOf? key = none) (h' : d.path name j = some key')
    (hend' : d.aliasOf? key' = none) : key' = key := by
  rcases Nat.lt_trichotomy i j with hlt | rfl | hlt
  · rw [path_past_end h hend hlt] at h'
    cases h'
  · rw [h] at h'
    cases h'
    rfl
  · rw [path_past_end h' hend' hlt] at h
    cases h

private theorem neverStops_of_return (hlt : i < j) (hi : d.path name i = some key)
    (hj : d.path name j = some key) : d.NeverStops name := by
  have hrepeat : ∀ k, d.path name (i + k) = d.path name (j + k) := by
    intro k
    induction k with
    | zero => rw [Nat.add_zero, Nat.add_zero, hi, hj]
    | succ k ih => rw [← Nat.add_assoc, ← Nat.add_assoc, path, path, ih]
  -- A first place past the end would have an earlier one.
  intro n
  induction n using Nat.strong_induction_on with
  | _ n ih =>
    by_cases hn : j ≤ n
    · obtain ⟨k, rfl⟩ := Nat.exists_eq_add_of_le hn
      rw [← hrepeat k]
      exact ih (i + k) (by omega)
    · cases hpath : d.path name n with
      | some _ => rfl
      | none =>
        rw [path_eq_none_of_le hpath (by omega : n ≤ j)] at hj
        cases hj

theorem trail_succ (h : d.path name n = some key) :
    d.trail name (n + 1) = d.trail name n ++ [key] := by
  simp [trail, List.range_succ, h]

theorem mem_trail : key ∈ d.trail name n ↔ ∃ i < n, d.path name i = some key := by
  simp [trail]

private theorem trail_initial {m : Nat} (hle : m ≤ n) : d.trail name m <+: d.trail name n := by
  obtain ⟨k, rfl⟩ := Nat.exists_eq_add_of_le hle
  rw [trail, trail, List.range_add, List.filterMap_append]
  exact List.prefix_append _ _

private theorem nodup_trail_iff (hnodup : (d.trail name n).Nodup)
    (hkey : d.path name n = some key) (hseen : key ∈ d.trail name n) (m : Nat) :
    (d.trail name m).Nodup ↔ m ≤ n := by
  constructor
  · intro hm
    by_contra hlt
    have htrail : (d.trail name (n + 1)).Nodup := hm.sublist (trail_initial (by omega)).sublist
    rw [trail_succ hkey, List.nodup_append] at htrail
    exact htrail.2.2 key hseen key (List.mem_singleton_self key) rfl
  · intro hle
    exact hnodup.sublist (trail_initial hle).sublist

end Path

section Following

variable {d : Dictionary} {name : String}

private inductive Ending (d : Dictionary) (name : String) : Except Cause (Option Word) → Prop where
  | found {i : Nat} {key : String} (hkey : d.path name i = some key)
      (hend : d.aliasOf? key = none) : Ending d name (.ok (d.wordAt? key))
  | circle {n : Nat} {key : String} (hkey : d.path name n = some key)
      (hnodup : (d.trail name n).Nodup) (hseen : key ∈ d.trail name n) :
      Ending d name (.error (.circular name (d.trail name n ++ [key])))

private structure Passed (d : Dictionary) (name : String) (n : Nat) (seen : List String)
    (key : String) : Prop where
  current : d.path name n = some key
  before : seen.reverse = d.trail name n
  nodup : seen.Nodup
  length : seen.length = n
  aliases : ∀ k ∈ seen, k ∈ d.redefinitions.keys

private theorem Passed.step {n : Nat} {seen : List String} {key target : String} {p : Bool}
    (h : Passed d name n seen key) (hnew : key ∉ seen)
    (halias : d.redefinitions.get? key = some (.alias target, p)) :
    Passed d name (n + 1) (key :: seen) target where
  current := by simp [path, h.current, aliasOf?, halias]
  before := by rw [List.reverse_cons, h.before, trail_succ h.current]
  nodup := List.nodup_cons.mpr ⟨hnew, h.nodup⟩
  length := by rw [List.length_cons, h.length]
  aliases := by
    intro k hk
    rcases List.mem_cons.mp hk with rfl | hk
    · exact List.mem_map.mpr ⟨_, Table.mem_of_get? halias, rfl⟩
    · exact h.aliases k hk

private theorem Passed.length_le {n : Nat} {seen : List String} {key : String}
    (h : Passed d name n seen key) : n ≤ d.redefinitions.size := by
  have hcard : seen.toFinset.card ≤ d.redefinitions.keys.toFinset.card := by
    apply Finset.card_le_card
    intro k hk
    exact List.mem_toFinset.mpr (h.aliases k (List.mem_toFinset.mp hk))
  rw [List.toFinset_card_of_nodup h.nodup, h.length] at hcard
  have hkeys : d.redefinitions.keys.toFinset.card ≤ d.redefinitions.keys.length :=
    List.toFinset_card_le _
  have hsize : d.redefinitions.keys.length = d.redefinitions.size := List.length_map _
  omega

private theorem follow_ending {n budget : Nat} {seen : List String} {key : String}
    (hpassed : Passed d name n seen key) (hbudget : budget + n = d.redefinitions.size + 1) :
    Ending d name (d.follow name budget seen key) := by
  fun_induction follow d name budget seen key generalizing n with
  | case1 budget seen key hseen =>
    have hseen : key ∈ seen := List.contains_iff_mem.mp hseen
    rw [List.reverse_cons, hpassed.before]
    apply Ending.circle hpassed.current
    · rw [← hpassed.before]
      exact List.nodup_reverse.mpr hpassed.nodup
    · rw [← hpassed.before]
      exact List.mem_reverse.mpr hseen
  | case2 budget seen key _ w p hcaptured =>
    have hword : d.wordAt? key = some w := by simp [wordAt?, hcaptured]
    rw [← hword]
    exact .found hpassed.current (by simp [aliasOf?, hcaptured])
  | case3 seen key _ target p halias =>
    have hle := hpassed.length_le
    omega
  | case4 seen key hnew target p halias budget ih =>
    have hnew : key ∉ seen := fun hmem => hnew (List.contains_iff_mem.mpr hmem)
    exact ih (hpassed.step hnew halias) (by omega)
  | case5 budget seen key _ hnone =>
    have hword : d.wordAt? key = (d.words.get? key).map Prod.fst := by simp [wordAt?, hnone]
    rw [← hword]
    exact .found hpassed.current (by simp [aliasOf?, hnone])

private theorem lookup_ending (d : Dictionary) (name : String) :
    Ending d name (d.lookup name) := by
  apply follow_ending (n := 0)
  · exact ⟨rfl, rfl, List.nodup_nil, rfl, by simp⟩
  · rfl

end Following

section EndOfPath

variable {d : Dictionary} {name key : String}

/-- The word was captured at the key, or the key is not redefined and has it as its word. -/
def Holds (d : Dictionary) (key : String) (w : Word) : Prop :=
  (∃ p, d.redefinitions.get? key = some (.captured w, p)) ∨
    d.redefinitions.get? key = none ∧ ∃ p, d.words.get? key = some (w, p)

private theorem aliasOf?_of_holds {w : Word} (h : d.Holds key w) : d.aliasOf? key = none := by
  rcases h with ⟨p, h⟩ | ⟨h, -⟩ <;> simp [aliasOf?, h]

private theorem wordAt?_eq_some_iff (hend : d.aliasOf? key = none) (w : Word) :
    d.wordAt? key = some w ↔ d.Holds key w := by
  unfold aliasOf? at hend
  unfold wordAt? Holds
  rcases hredefined : d.redefinitions.get? key with - | ⟨target | v, p⟩
  · simp
  · simp [hredefined] at hend
  · simp

private theorem wordAt?_eq_none_iff (hend : d.aliasOf? key = none) :
    d.wordAt? key = none ↔ d.redefinitions.get? key = none ∧ d.words.get? key = none := by
  unfold aliasOf? at hend
  unfold wordAt?
  rcases hredefined : d.redefinitions.get? key with - | ⟨target | v, p⟩
  · simp
  · simp [hredefined] at hend
  · simp

private theorem lookup_of_end (hreaches : d.Reaches name key) (hend : d.aliasOf? key = none) :
    d.lookup name = .ok (d.wordAt? key) := by
  obtain ⟨i, hi⟩ := hreaches
  have hending := lookup_ending d name
  generalize d.lookup name = result at hending
  cases hending with
  | found hkey hend' => rw [end_unique hi hend hkey hend']
  | circle hkey _ hseen =>
    obtain ⟨j, hlt, hj⟩ := mem_trail.mp hseen
    exact absurd (neverStops_of_return hlt hj hkey) (not_neverStops hi hend)

theorem lookup_eq_word_iff {w : Word} :
    d.lookup name = .ok (some w) ↔ ∃ key, d.Reaches name key ∧ d.Holds key w := by
  constructor
  · intro h
    have hending := lookup_ending d name
    rw [h] at hending
    generalize hresult : Except.ok (some w) = result at hending
    cases hending with
    | @found i key hkey hend =>
      have hword : d.wordAt? key = some w := (Except.ok.inj hresult).symm
      exact ⟨key, ⟨i, hkey⟩, (wordAt?_eq_some_iff hend w).mp hword⟩
    | circle => cases hresult
  · intro ⟨key, hreaches, hholds⟩
    have hend := aliasOf?_of_holds hholds
    rw [lookup_of_end hreaches hend, (wordAt?_eq_some_iff hend w).mpr hholds]

theorem lookup_eq_none_iff :
    d.lookup name = .ok none ↔ ∃ key, d.Reaches name key ∧
      d.redefinitions.get? key = none ∧ d.words.get? key = none := by
  constructor
  · intro h
    have hending := lookup_ending d name
    rw [h] at hending
    generalize hresult : Except.ok none = result at hending
    cases hending with
    | @found i key hkey hend =>
      have hword : d.wordAt? key = none := (Except.ok.inj hresult).symm
      exact ⟨key, ⟨i, hkey⟩, (wordAt?_eq_none_iff hend).mp hword⟩
    | circle => cases hresult
  · intro ⟨key, hreaches, hnone⟩
    have hend : d.aliasOf? key = none := by simp [aliasOf?, hnone.1]
    rw [lookup_of_end hreaches hend, (wordAt?_eq_none_iff hend).mpr hnone]

/-- A failure carries the path up to the first key that comes again. -/
theorem circle_of_lookup_error {c : Cause} (h : d.lookup name = .error c) :
    ∃ n key, (∀ m, (d.trail name m).Nodup ↔ m ≤ n) ∧ d.path name n = some key ∧
      key ∈ d.trail name n ∧ c = .circular name (d.trail name n ++ [key]) := by
  have hending := lookup_ending d name
  rw [h] at hending
  cases hending with
  | @circle n key hkey hnodup hseen =>
    exact ⟨n, key, nodup_trail_iff hnodup hkey hseen, hkey, hseen, rfl⟩

theorem lookup_fails_iff : (∃ c, d.lookup name = .error c) ↔ d.NeverStops name := by
  constructor
  · intro ⟨c, hc⟩
    obtain ⟨n, key, -, hkey, hseen, -⟩ := circle_of_lookup_error hc
    obtain ⟨i, hlt, hi⟩ := mem_trail.mp hseen
    exact neverStops_of_return hlt hi hkey
  · intro hnever
    have hending := lookup_ending d name
    generalize d.lookup name = result at hending
    cases hending with
    | found hkey hend => exact absurd hnever (not_neverStops hkey hend)
    | circle => exact ⟨_, rfl⟩

end EndOfPath

/-- A lookup gives a word exactly when the path comes to a key that holds it, and none exactly
when the path comes to a key that no table has. It fails exactly when the path has no end: then
the failure carries the longest start of the path without repetition, and after it the first key
that comes again. -/
theorem lookup_resolves_aliases (d : Dictionary) (name : String) :
    (∀ w, d.lookup name = .ok (some w) ↔ ∃ key, d.Reaches name key ∧
      ((∃ p, d.redefinitions.get? key = some (.captured w, p)) ∨
        d.redefinitions.get? key = none ∧ ∃ p, d.words.get? key = some (w, p))) ∧
    (d.lookup name = .ok none ↔ ∃ key, d.Reaches name key ∧
      d.redefinitions.get? key = none ∧ d.words.get? key = none) ∧
    ((∃ c, d.lookup name = .error c) ↔ d.NeverStops name) ∧
    ∀ c, d.lookup name = .error c → c.kind = "CircularDefinition" ∧ c.token? = some name ∧
      ∃ n key, (∀ m, (d.trail name m).Nodup ↔ m ≤ n) ∧ d.path name n = some key ∧
        key ∈ d.trail name n ∧ c.chain = d.trail name n ++ [key] := by
  refine ⟨fun w => lookup_eq_word_iff, lookup_eq_none_iff, lookup_fails_iff, ?_⟩
  intro c hc
  obtain ⟨n, key, hnodup, hkey, hseen, rfl⟩ := circle_of_lookup_error hc
  exact ⟨rfl, rfl, n, key, hnodup, hkey, hseen, rfl⟩

def roundabout : Dictionary where
  redefinitions := ⟨[("a", .alias "b", false), ("b", .alias "c", false), ("c", .alias "b", true)]⟩

theorem roundabout_never_stops :
    roundabout.lookup "A" = .error (.circular "A" ["a", "b", "c", "b"]) ∧
    roundabout.NeverStops "A" := by
  have hlookup : roundabout.lookup "A" = .error (.circular "A" ["a", "b", "c", "b"]) := rfl
  exact ⟨hlookup, (lookup_resolves_aliases roundabout "A").2.2.1.mp ⟨_, hlookup⟩⟩

end Dictionary

end Forthline
