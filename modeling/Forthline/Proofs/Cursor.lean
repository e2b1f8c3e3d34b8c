import Forthline.Proofs.Outcomes
import Forthline.Token.Stream

/-!
# Streams as lists of entries

However far a stream looked ahead, it stands for the list of the entries that are left: those it
looked at and those it will find in the rest of its text. Taking a token takes the first of them,
and looking ahead takes none. Where in the text a token stands is of no account.
-/

namespace Forthline

private theorem length_scanWord_lt (column : Nat) {c : Char} {rest : List Char}
    (h : Text.isBlank c = false) :
    (scanWord column (c :: rest)).rest.length < (c :: rest).length := by
  have htake : ((c :: rest).takeWhile fun c => !Text.isBlank c).length =
      (rest.takeWhile fun c => !Text.isBlank c).length + 1 := by
    simp [h]
  change ((c :: rest).drop ((c :: rest).takeWhile fun c => !Text.isBlank c).length).length < _
  rw [List.length_drop, htake, List.length_cons]
  omega

private theorem length_scanQuoted_le (column : Nat) (cs : List Char) :
    (scanQuoted column cs).rest.length ≤ cs.length := by
  unfold scanQuoted
  dsimp only
  split
  · simp
  · rename_i rest h
    have hlength := congrArg List.length h
    simp only [List.length_drop, List.length_cons] at hlength
    dsimp only
    omega

theorem length_rest_lt_of_scan {comment : Bool} {column : Nat} {cs : List Char} {s : Scanned}
    (h : scan comment column cs = some s) : s.rest.length < cs.length := by
  induction cs generalizing comment column with
  | nil => cases h
  | cons c rest ih =>
    have hskip {comment : Bool} {column : Nat} (h : scan comment column rest = some s) :
        s.rest.length < (c :: rest).length :=
      Nat.lt_succ_of_lt (ih h)
    unfold scan at h
    split at h
    · exact hskip h
    · split at h
      · exact hskip h
      · rename_i hblank
        split at h
        · exact hskip h
        · cases h
        · rename_i content
          cases h
          have hle := length_scanQuoted_le column content
          simp only [List.length_cons]
          omega
        · cases h
          exact length_scanWord_lt column (by simpa using hblank)

theorem entriesFrom_add (fuel extra column : Nat) (cs : List Char)
    (h : cs.length ≤ fuel) :
    entriesFrom (fuel + extra) column cs = entriesFrom fuel column cs := by
  induction fuel generalizing column cs with
  | zero =>
    have hcs : cs = [] := List.length_eq_zero_iff.mp (Nat.le_zero.mp h)
    subst hcs
    cases extra with
    | zero => rfl
    | succ extra => rfl
  | succ fuel ih =>
    rw [Nat.add_right_comm]
    unfold entriesFrom
    cases hscan : scan false column cs with
    | none => rfl
    | some s =>
      have hlt := length_rest_lt_of_scan hscan
      simp only [ih s.column s.rest (by omega)]

namespace Stream

def unread (s : Stream) : List Entry := entriesFrom s.rest.length s.column s.rest

def left (s : Stream) : List Entry := s.ahead ++ s.unread

private theorem read_of_unread_nil {s : Stream} (h : s.unread = []) : s.read = none := by
  unfold unread at h
  unfold read
  cases hrest : s.rest with
  | nil => rfl
  | cons c rest =>
    rw [hrest, List.length_cons, entriesFrom] at h
    cases hscan : scan false s.column (c :: rest) with
    | none => rfl
    | some r =>
      rw [hscan] at h
      cases h

private theorem read_of_unread_cons {s : Stream} {e : Entry} {es : List Entry}
    (h : s.unread = e :: es) :
    ∃ s', s.read = some (e, s') ∧ s'.unread = es ∧ s'.ahead = s.ahead ∧ s'.taken = s.taken := by
  unfold unread at h
  unfold read
  cases hrest : s.rest with
  | nil =>
    rw [hrest] at h
    cases h
  | cons c rest =>
    rw [hrest, List.length_cons, entriesFrom] at h
    cases hscan : scan false s.column (c :: rest) with
    | none =>
      rw [hscan] at h
      cases h
    | some r =>
      rw [hscan] at h
      simp only [List.cons.injEq] at h
      obtain ⟨rfl, hes⟩ := h
      refine ⟨_, rfl, ?_, rfl, rfl⟩
      have hlt := length_rest_lt_of_scan hscan
      simp only [List.length_cons] at hlt
      obtain ⟨extra, hextra⟩ := Nat.exists_eq_add_of_le (Nat.le_of_lt_succ hlt)
      rw [hextra, entriesFrom_add _ _ _ _ (Nat.le_refl _)] at hes
      exact hes

theorem pull_of_left_nil {s : Stream} (h : s.left = []) : s.pull = none := by
  obtain ⟨hahead, hunread⟩ := List.append_eq_nil_iff.mp h
  unfold pull
  rw [hahead]
  exact read_of_unread_nil hunread

theorem pull_of_left_cons {s : Stream} {e : Entry} {es : List Entry} (h : s.left = e :: es) :
    ∃ s', s.pull = some (e, s') ∧ s'.left = es ∧ s'.taken = s.taken := by
  unfold pull
  unfold left at h
  cases hahead : s.ahead with
  | nil =>
    rw [hahead, List.nil_append] at h
    obtain ⟨s', hread, hunread, hahead', htaken⟩ := read_of_unread_cons h
    refine ⟨s', hread, ?_, htaken⟩
    rw [left, hahead', hahead, hunread]
    rfl
  | cons e' ahead =>
    rw [hahead, List.cons_append, List.cons.injEq] at h
    obtain ⟨rfl, hes⟩ := h
    exact ⟨_, rfl, hes, rfl⟩

theorem next_of_left_nil {s : Stream} (h : s.left = []) : s.next = (.ok none, s) := by
  unfold next
  rw [pull_of_left_nil h]

theorem next_of_left_cons {s : Stream} {t : Token} {es : List Entry}
    (h : s.left = .complete t :: es) : ∃ s', s.next = (.ok (some t), s') ∧ s'.left = es := by
  obtain ⟨s', hpull, hleft, -⟩ := pull_of_left_cons h
  unfold next
  rw [hpull]
  exact ⟨_, rfl, hleft⟩

theorem fill_eq (count : Nat) (s : Stream) :
    (s.fill count).ahead = s.ahead ++ s.unread.take count ∧ (s.fill count).left = s.left ∧
      (s.fill count).taken = s.taken := by
  induction count generalizing s with
  | zero => exact ⟨by simp [fill], rfl, rfl⟩
  | succ count ih =>
    cases hunread : s.unread with
    | nil =>
      rw [fill, read_of_unread_nil hunread]
      exact ⟨by simp, rfl, rfl⟩
    | cons e es =>
      obtain ⟨s', hread, hes, hahead, htaken⟩ := read_of_unread_cons hunread
      obtain ⟨hahead', hleft', htaken'⟩ := ih { s' with ahead := s'.ahead ++ [e] }
      rw [fill, hread]
      refine ⟨?_, ?_, htaken'.trans htaken⟩
      · rw [hahead']
        change (s'.ahead ++ [e]) ++ s'.unread.take count = _
        rw [hahead, hes, List.append_assoc]
        rfl
      · rw [hleft']
        change (s'.ahead ++ [e]) ++ s'.unread = s.ahead ++ s.unread
        rw [hahead, hes, hunread, List.append_assoc]
        rfl

theorem peek_of_pos {n : Int} (h : 1 ≤ n) (s : Stream) :
    ∃ s', s.peek n = (.ok (s.left[n.toNat - 1]?.map Entry.token), s') ∧ s'.left = s.left ∧
      s'.taken = s.taken := by
  obtain ⟨hahead, hleft, htaken⟩ := fill_eq (n.toNat - s.ahead.length) s
  refine ⟨s.fill (n.toNat - s.ahead.length), ?_, hleft, htaken⟩
  -- The entry at the position is one already looked at, or among those read now.
  have hentry : (s.ahead ++ s.unread.take (n.toNat - s.ahead.length))[n.toNat - 1]? =
      s.left[n.toNat - 1]? := by
    unfold left
    by_cases hin : n.toNat - 1 < s.ahead.length
    · rw [List.getElem?_append_left hin, List.getElem?_append_left hin]
    · have hout : s.ahead.length ≤ n.toNat - 1 := Nat.le_of_not_lt hin
      rw [List.getElem?_append_right hout, List.getElem?_append_right hout,
        List.getElem?_take_of_lt (by omega)]
  unfold peek
  rw [if_pos h, hahead, hentry]

theorem peek_left (s : Stream) :
    ∃ s', s.peek 1 = (.ok (s.left.head?.map Entry.token), s') ∧ s'.left = s.left := by
  obtain ⟨s', hpeek, hleft, -⟩ := s.peek_of_pos (Int.le_refl 1)
  exact ⟨s', by rw [hpeek, List.head?_eq_getElem?]; rfl, hleft⟩

end Stream

def Token.content (t : Token) : String × Bool := (t.value, t.literal)

theorem Token.value_of_content {t u : Token} (h : t.content = u.content) : t.value = u.value :=
  congrArg Prod.fst h

theorem Token.literal_of_content {t u : Token} (h : t.content = u.content) :
    t.literal = u.literal :=
  congrArg Prod.snd h

theorem Entry.consume_eq_ok_iff {e : Entry} {t : Token} :
    e.consume = .ok t ↔ e = .complete t := by
  cases e with
  | complete u => exact ⟨fun h => by cases h; rfl, fun h => by cases h; rfl⟩
  | unterminated u => exact ⟨nofun, nofun⟩

theorem consumed_iff {es : List Entry} {ts : List Token} :
    es.mapM Entry.consume = .ok ts ↔ es = ts.map .complete := by
  simp only [mapM_eq_ok_iff, Entry.consume_eq_ok_iff]
  rw [← List.forall₂_eq_eq_eq, List.forall₂_map_right_iff]

namespace Stream

/-- The tokens that are left have these contents, and no quoted text is left open. -/
def Holds (s : Stream) (cs : List (String × Bool)) : Prop :=
  ∃ ts : List Token, s.left = ts.map .complete ∧ ts.map Token.content = cs

theorem holds_ofText {text : String} {ts : List Token} (h : tokenize text = .ok ts) :
    (ofText text).Holds (ts.map Token.content) :=
  ⟨ts, consumed_iff.mp h, rfl⟩

theorem Holds.unique {s : Stream} {cs ds : List (String × Bool)} (h : s.Holds cs)
    (h' : s.Holds ds) : cs = ds := by
  obtain ⟨ts, hts, rfl⟩ := h
  obtain ⟨us, hus, rfl⟩ := h'
  have hsame : ts = us := by
    refine (List.map_inj_right fun t u htu => ?_).mp (hts.symm.trans hus)
    cases htu
    rfl
  rw [hsame]

theorem Holds.next_nil {s : Stream} (h : s.Holds []) : s.next = (.ok none, s) := by
  obtain ⟨ts, hleft, hts⟩ := h
  have hnil : ts = [] := List.map_eq_nil_iff.mp hts
  subst hnil
  exact next_of_left_nil hleft

theorem Holds.next_cons {s : Stream} {c : String × Bool} {cs : List (String × Bool)}
    (h : s.Holds (c :: cs)) :
    ∃ t s', s.next = (.ok (some t), s') ∧ t.content = c ∧ s'.Holds cs := by
  obtain ⟨ts, hleft, hts⟩ := h
  obtain ⟨t, us, rfl, ht, hus⟩ := List.map_eq_cons_iff.mp hts
  obtain ⟨s', hnext, hrest⟩ := next_of_left_cons hleft
  exact ⟨t, s', hnext, ht, us, hrest, hus⟩

theorem Holds.peek {s : Stream} {cs : List (String × Bool)} (h : s.Holds cs) :
    ∃ t s', s.peek 1 = (.ok t, s') ∧ t.map Token.content = cs.head? ∧ s'.Holds cs := by
  obtain ⟨ts, hleft, hts⟩ := h
  obtain ⟨s', hpeek, hrest⟩ := peek_left s
  refine ⟨_, s', hpeek, ?_, ts, hrest.trans hleft, hts⟩
  subst hts
  rw [hleft]
  cases ts with
  | nil => rfl
  | cons t ts => rfl

end Stream

end Forthline
