import Forthline.Proofs.Allocation
import Forthline.Proofs.Lowercase

/-!
# Names of variables

A name leads to the cells that were given to it last. Variables are named and looked up in lower
case, so the case of their names does not matter for that; but a name is forgotten as it is
spelled, and so only in lower case. The journal of a memory, searched from its end, says where each
name leads.
-/

namespace Forthline

namespace Memory

namespace Request

/-- The key under which a request names its cells: a variable's name in lower case, a block's as it
is spelled. -/
def key? : Request → Option String
  | addVariable name _ => some (Text.lower name)
  | addBlock name _ _ => some name
  | _ => none

def released? : Request → Option String
  | release name => some name
  | _ => none

theorem key?_of_released? {q : Request} {key : String} (h : q.released? = some key) :
    q.key? = none := by
  cases q with
  | release name => rfl
  | _ => cases h

end Request

structure Entry where
  request : Request
  answer : Except Cause (Option Int)

namespace Entry

def Gives (e : Entry) (key : String) (a : Int) : Prop :=
  e.request.key? = some key ∧ e.answer = .ok (some a)

def Forgets (e : Entry) (key : String) : Prop := e.request.released? = some key

def decides (key : String) (e : Entry) : Option (Option Int) :=
  if e.request.released? = some key then some none
  else if e.request.key? = some key then
    match e.answer with
    | .ok (some a) => some (some a)
    | _ => none
  else none

variable {e : Entry} {key : String} {a : Int}

theorem decides_eq_forgotten_iff : e.decides key = some none ↔ e.Forgets key := by
  unfold decides Forgets
  by_cases hreleased : e.request.released? = some key
  · simp [hreleased]
  · by_cases hkey : e.request.key? = some key
    · simp only [hreleased, hkey, if_true, if_false, iff_false]
      split <;> simp
    · simp [hreleased, hkey]

theorem decides_eq_some_iff : e.decides key = some (some a) ↔ e.Gives key a := by
  unfold decides Gives
  by_cases hreleased : e.request.released? = some key
  · simp [hreleased, Request.key?_of_released? hreleased]
  · by_cases hkey : e.request.key? = some key
    · simp only [hreleased, hkey, if_true, if_false, true_and]
      split
      · rename_i b hanswer
        simp [hanswer]
      · rename_i hother
        simpa using hother a
    · simp [hreleased, hkey]

theorem decides_eq_none_iff : e.decides key = none ↔ ¬e.Forgets key ∧ ∀ a, ¬e.Gives key a := by
  rw [← decides_eq_forgotten_iff]
  simp only [← decides_eq_some_iff]
  rcases e.decides key with _ | _ | a
  · simp
  · simp
  · simp

theorem decides_granted {q : Request} (h : q.released? = none) :
    decides key ⟨q, .ok (some a)⟩ = if q.key? = some key then some (some a) else none := by
  simp [decides, h]

theorem decides_refused {q : Request} (h : q.released? = none) (c : Cause) :
    decides key ⟨q, .error c⟩ = none := by
  simp [decides, h]

end Entry

variable {σ : Type}

def journal (m : Memory σ) : List Request → List Entry
  | [] => []
  | q :: qs => ⟨q, (m.serve q).1⟩ :: (m.serve q).2.journal qs

def leads (m : Memory σ) (key : String) : Option Int :=
  (m.bindings.get? key).map Binding.address

section Leads

variable {m : Memory σ} {q : Request} {key : String}

private theorem leads_bind (m' : Memory σ) (hsame : m'.bindings = m.bindings)
    (hreleased : q.released? = none) {name : String} (hkey : q.key? = some name) (b : Binding) :
    (m'.bind name b).leads key =
      (Entry.decides key ⟨q, .ok (some b.address)⟩).getD (m.leads key) := by
  rw [Entry.decides_granted hreleased, hkey, leads, bind, Table.get?_insert, hsame]
  by_cases hname : key = name
  · simp [hname]
  · simp [hname, Ne.symm hname, leads]

private theorem leads_kept {m' : Memory σ} (hsame : m'.bindings = m.bindings)
    (hreleased : q.released? = none) {answer : Except Cause (Option Int)}
    (hidle : q.key? = none ∨ ∃ c, answer = .error c) :
    m'.leads key = (Entry.decides key ⟨q, answer⟩).getD (m.leads key) := by
  have hnone : Entry.decides key ⟨q, answer⟩ = none := by
    rcases hidle with hkey | ⟨c, rfl⟩
    · simp [Entry.decides, hreleased, hkey]
    · exact Entry.decides_refused hreleased c
  rw [hnone, leads, leads, hsame]
  rfl

end Leads

theorem leads_serve (m : Memory σ) (q : Request) (key : String) :
    (m.serve q).2.leads key = (Entry.decides key ⟨q, (m.serve q).1⟩).getD (m.leads key) := by
  cases q with
  | allot size =>
    rcases m.allot_cases size with ⟨-, h⟩ | ⟨-, c, h⟩
    · rw [serve, h]
      exact leads_kept rfl rfl (.inl rfl)
    · rw [serve, h]
      exact leads_kept rfl rfl (.inl rfl)
  | addVariable name size =>
    rcases m.addVariable_cases name size with ⟨-, h⟩ | ⟨-, c, h⟩
    · rw [serve, h]
      exact leads_bind (m.advance size) rfl rfl rfl _
    · rw [serve, h]
      exact leads_kept rfl rfl (.inr ⟨c, rfl⟩)
  | addBlock name size start =>
    cases start with
    | none =>
      rcases m.addBlock_cases name size with ⟨-, h⟩ | ⟨-, c, h⟩
      · rw [serve, h]
        exact leads_bind (m.advance size) rfl rfl rfl _
      · rw [serve, h]
        exact leads_kept rfl rfl (.inr ⟨c, rfl⟩)
    | some address =>
      rcases m.addBlock_placed name size address with ⟨a, -, h⟩ | ⟨c, h⟩
      · rw [serve, h]
        exact leads_bind m rfl rfl rfl _
      · rw [serve, h]
        exact leads_kept rfl rfl (.inr ⟨c, rfl⟩)
  | release name =>
    change (m.release name).leads key = _
    rw [leads, Memory.release, Table.get?_erase]
    by_cases hname : key = name
    · simp [Entry.decides, Request.released?, hname]
    · simp [Entry.decides, Request.released?, Request.key?, hname, Ne.symm hname, leads]
  | write address value size =>
    rw [serve]
    cases h : m.write address value size with
    | error c => exact leads_kept rfl rfl (.inl rfl)
    | ok w => exact leads_kept (evolves_write h).bindings rfl (.inl rfl)
  | read address size => exact leads_kept rfl rfl (.inl rfl)

theorem leads_serveAll (m : Memory σ) (qs : List Request) (key : String) :
    (m.serveAll qs).2.leads key =
      ((m.journal qs).reverse.findSome? (Entry.decides key)).getD (m.leads key) := by
  induction qs generalizing m with
  | nil => rfl
  | cons q qs ih =>
    rw [serveAll, journal, ih, List.reverse_cons, List.findSome?_append, leads_serve]
    cases ((m.serve q).2.journal qs).reverse.findSome? (Entry.decides key) with
    | none => simp
    | some found => rfl

private theorem findSome?_reverse_eq_some_iff {entries : List Entry} {key : String}
    {found : Option Int} :
    entries.reverse.findSome? (Entry.decides key) = some found ↔
      ∃ before e after, entries = before ++ e :: after ∧ e.decides key = some found ∧
        ∀ later ∈ after, later.decides key = none := by
  rw [List.findSome?_eq_some_iff]
  constructor
  · rintro ⟨after, e, before, hentries, hfound, hnone⟩
    have hreversed := congrArg List.reverse hentries
    refine ⟨before.reverse, e, after.reverse, by simpa using hreversed, hfound, ?_⟩
    intro later hlater
    exact hnone later (List.mem_reverse.mp hlater)
  · rintro ⟨before, e, after, rfl, hfound, hnone⟩
    refine ⟨after.reverse, e, before.reverse, by simp, hfound, ?_⟩
    intro later hlater
    exact hnone later (List.mem_reverse.mp hlater)

/-- Variables have the address that was given to their name last, unless a later request had the
name forgotten. They are named and looked up in any case, but forgotten only in lower case: a
release that is spelled otherwise does nothing to them. -/
theorem variable_has_latest_address (size heapLimit next : Int) (qs : List Request)
    (name : String) :
    let m : Memory σ := { size, heapLimit, next }
    (∀ a, (m.serveAll qs).2.addressOf? name = some a ↔
      ∃ before e after, m.journal qs = before ++ e :: after ∧ e.Gives (Text.lower name) a ∧
        ∀ later ∈ after, ¬later.Forgets (Text.lower name) ∧
          ∀ b, ¬later.Gives (Text.lower name) b) ∧
    ((m.serveAll qs).2.addressOf? name = none ↔
      ∀ before e after a, m.journal qs = before ++ e :: after → e.Gives (Text.lower name) a →
        ∃ later ∈ after, later.Forgets (Text.lower name)) ∧
    ∀ spelled, Text.lower spelled ≠ spelled →
      (m.serveAll (qs ++ [.release spelled])).2.addressOf? name =
        (m.serveAll qs).2.addressOf? name := by
  intro m
  let key := Text.lower name
  have hsearch : (m.serveAll qs).2.addressOf? name =
      ((m.journal qs).reverse.findSome? (Entry.decides key)).getD none :=
    m.leads_serveAll qs key
  have hgiven (a : Int) : (m.serveAll qs).2.addressOf? name = some a ↔
      ∃ before e after, m.journal qs = before ++ e :: after ∧ e.Gives key a ∧
        ∀ later ∈ after, ¬later.Forgets key ∧ ∀ b, ¬later.Gives key b := by
    have hfound : (m.serveAll qs).2.addressOf? name = some a ↔
        (m.journal qs).reverse.findSome? (Entry.decides key) = some (some a) := by
      rw [hsearch]
      cases (m.journal qs).reverse.findSome? (Entry.decides key) <;> simp
    simp only [hfound, findSome?_reverse_eq_some_iff, Entry.decides_eq_some_iff,
      Entry.decides_eq_none_iff]
  refine ⟨hgiven, ⟨?_, ?_⟩, ?_⟩
  · intro hnone before e after a hjournal hgives
    have hdecides : e.decides key = some (some a) := Entry.decides_eq_some_iff.mpr hgives
    rw [hsearch, hjournal] at hnone
    -- The entry itself would give the key an address, so a later one must have the last word.
    cases hlast : after.reverse.findSome? (Entry.decides key) with
    | none => simp [hlast, hdecides] at hnone
    | some found =>
      have hforgotten : found = none := by simpa [hlast] using hnone
      subst hforgotten
      obtain ⟨later, hlater, hforgets⟩ := List.exists_of_findSome?_eq_some hlast
      exact ⟨later, List.mem_reverse.mp hlater, Entry.decides_eq_forgotten_iff.mp hforgets⟩
  · intro hforgotten
    apply Option.eq_none_iff_forall_ne_some.mpr
    intro a ha
    obtain ⟨before, e, after, hjournal, hgives, hlast⟩ := (hgiven a).mp ha
    obtain ⟨later, hlater, hforgets⟩ := hforgotten before e after a hjournal hgives
    exact (hlast later hlater).1 hforgets
  · intro spelled hspelled
    have hother : key ≠ spelled := by
      intro hkey
      apply hspelled
      rw [← hkey, Text.lower_lower]
    rw [serveAll_append]
    change (((m.serveAll qs).2.release spelled).bindings.get? key).map _ = _
    rw [Memory.release, Table.get?_erase, if_neg hother]
    rfl

/-- A variable can outlive the release of its name. -/
theorem release_can_miss_variable :
    (({} : Memory Unit).serveAll [.addVariable "Count" 1, .release "Count"]).2.addressOf? "Count" =
      some 1000 := by
  decide +kernel

end Memory

end Forthline
