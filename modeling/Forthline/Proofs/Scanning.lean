import Forthline.Proofs.Cursor

/-!
# Cutting a text into pieces

From left to right, the rules of the reader cut a text into blanks, comments, words and quoted
texts. The pieces are a second account of what a text holds: the tokens are those of the words and
of the quoted texts, and a text is refused exactly where the pieces stop at a quote that nothing
closes.
-/

namespace Forthline

def Marked (cs : List Char) : Prop :=
  ['(', ' '] <+: cs ∨ ['\\', ' '] <+: cs ∨ ['.', '"', ' '] <+: cs

instance (cs : List Char) : Decidable (Marked cs) :=
  inferInstanceAs (Decidable (_ ∨ _ ∨ _))

/-- What the rules cut off the start of a text. A comment in parentheses may lack its end. -/
inductive Piece where
  | blank (c : Char)
  | comment (body : List Char)
  | openComment (body : List Char)
  | lineComment (body : List Char)
  | word (value : List Char)
  | quoted (value : List Char)

namespace Piece

def chars : Piece → List Char
  | blank c => [c]
  | comment body => '(' :: ' ' :: (body ++ [')'])
  | openComment body => '(' :: ' ' :: body
  | lineComment body => '\\' :: ' ' :: body
  | word value => value
  | quoted value => '.' :: '"' :: ' ' :: (value ++ ['"'])

def Fits : Piece → List Char → Prop
  | blank c, _ => Text.isBlank c = true
  | comment body, _ => ')' ∉ body
  | openComment body, rest => ')' ∉ body ∧ rest = []
  | lineComment _, rest => rest = []
  | word value, rest =>
    value ≠ [] ∧ (∀ c ∈ value, Text.isBlank c = false) ∧
      (∀ c ∈ rest.head?, Text.isBlank c = true) ∧ ¬ Marked (value ++ rest)
  | quoted value, _ => '"' ∉ value

def token? (column : Nat) : Piece → Option Token
  | word value => some { value := String.ofList value, column }
  | quoted value => some { value := String.ofList value, literal := true, column }
  | _ => none

end Piece

def written (ps : List Piece) : List Char := ps.flatMap Piece.chars

def tokensFrom (column : Nat) : List Piece → List Token
  | [] => []
  | p :: ps => (p.token? column).toList ++ tokensFrom (columnAfter column p.chars) ps

/-- The rules cut the pieces off a text, one after another, and leave the rest of it. -/
inductive Cut : List Char → List Piece → List Char → Prop
  | done (cs : List Char) : Cut cs [] cs
  | piece {p : Piece} {rest : List Char} {ps : List Piece} {left : List Char} :
      p.Fits rest → Cut rest ps left → Cut (p.chars ++ rest) (p :: ps) left

theorem columnAfter_append (column : Nat) (cs ds : List Char) :
    columnAfter column (cs ++ ds) = columnAfter (columnAfter column cs) ds :=
  List.foldl_append

theorem columnAfter_of_notMem {cs : List Char} (column : Nat) (h : '\n' ∉ cs) :
    columnAfter column cs = column + cs.length := by
  induction cs generalizing column with
  | nil => rfl
  | cons c cs ih =>
    have hc : c ≠ '\n' := fun he => h (by simp [he])
    have hcs : '\n' ∉ cs := fun hm => h (List.mem_cons_of_mem c hm)
    change columnAfter (nextColumn column c) cs = _
    rw [nextColumn, if_neg hc, ih _ hcs, List.length_cons]
    omega

/-! ### The reader on one piece -/

private theorem scan_inside (column : Nat) (c : Char) (rest : List Char) :
    scan true column (c :: rest) = scan (c ≠ ')') (nextColumn column c) rest :=
  rfl

private theorem scan_blank {c : Char} (column : Nat) (rest : List Char)
    (h : Text.isBlank c = true) :
    scan false column (c :: rest) = scan false (nextColumn column c) rest := by
  conv =>
    lhs
    unfold scan
  rw [if_neg Bool.false_ne_true, if_pos h]

private theorem scan_opening (column : Nat) (rest : List Char) :
    scan false column ('(' :: ' ' :: rest) = scan true (column + 1) (' ' :: rest) :=
  rfl

private theorem scan_lineComment (column : Nat) (rest : List Char) :
    scan false column ('\\' :: ' ' :: rest) = none :=
  rfl

private theorem scan_quote (column : Nat) (rest : List Char) :
    scan false column ('.' :: '"' :: ' ' :: rest) = some (scanQuoted column rest) :=
  rfl

private theorem scan_comment {body : List Char} (column : Nat) (rest : List Char)
    (h : ')' ∉ body) :
    scan true column (body ++ ')' :: rest) =
      scan false (columnAfter column (body ++ [')'])) rest := by
  induction body generalizing column with
  | nil => rfl
  | cons c body ih =>
    have hc : c ≠ ')' := fun he => h (by simp [he])
    have hbody : ')' ∉ body := fun hm => h (List.mem_cons_of_mem c hm)
    rw [List.cons_append, scan_inside, decide_eq_true hc]
    exact ih (nextColumn column c) hbody

private theorem scan_openComment {body : List Char} (column : Nat) (h : ')' ∉ body) :
    scan true column body = none := by
  induction body generalizing column with
  | nil => rfl
  | cons c body ih =>
    have hc : c ≠ ')' := fun he => h (by simp [he])
    have hbody : ')' ∉ body := fun hm => h (List.mem_cons_of_mem c hm)
    rw [scan_inside, decide_eq_true hc]
    exact ih (nextColumn column c) hbody

theorem takeWhile_of_fits {p : Char → Bool} {value rest : List Char}
    (hvalue : ∀ c ∈ value, p c = true) (hrest : ∀ c ∈ rest.head?, p c = false) :
    (value ++ rest).takeWhile p = value := by
  rw [List.takeWhile_append_of_pos hvalue]
  cases rest with
  | nil => simp
  | cons c rest => simp [hrest c rfl]

private theorem scan_quoted {value : List Char} (column : Nat) (rest : List Char)
    (h : '"' ∉ value) :
    scanQuoted column (value ++ '"' :: rest) =
      { entry := .complete { value := String.ofList value, literal := true, column }
        rest
        column := columnAfter (column + 3) value + 1 } := by
  have htake : (value ++ '"' :: rest).takeWhile (· ≠ '"') = value := by
    apply takeWhile_of_fits
    · intro c hc
      have hne : c ≠ '"' := fun he => h (he ▸ hc)
      simpa using hne
    · simp
  unfold scanQuoted
  simp only [htake, List.drop_left]

private theorem scan_openQuoted {value : List Char} (column : Nat) (h : '"' ∉ value) :
    scanQuoted column value =
      { entry := .unterminated { value := String.ofList value, literal := true, column }
        rest := []
        column := columnAfter (column + 3) value } := by
  have htake : value.takeWhile (· ≠ '"') = value := by
    have hall : ∀ c ∈ value, decide (c ≠ '"') = true := by
      intro c hc
      have hne : c ≠ '"' := fun he => h (he ▸ hc)
      simpa using hne
    have happend := @takeWhile_of_fits _ value [] hall (by simp)
    rwa [List.append_nil] at happend
  unfold scanQuoted
  simp only [htake, List.drop_length]

private theorem scan_of_not_marked {c : Char} {cs : List Char} (column : Nat)
    (hc : Text.isBlank c = false) (h : ¬ Marked (c :: cs)) :
    scan false column (c :: cs) = some (scanWord column (c :: cs)) := by
  unfold scan
  simp only [Bool.false_eq_true, if_false, hc]
  split
  · exact absurd (.inl (by simp)) h
  · exact absurd (.inr (.inl (by simp))) h
  · exact absurd (.inr (.inr (by simp))) h
  · rfl

private theorem scan_word {value rest : List Char} (column : Nat)
    (h : (Piece.word value).Fits rest) :
    scan false column (value ++ rest) =
      some { entry := .complete { value := String.ofList value, column }
             rest
             column := columnAfter column value } := by
  obtain ⟨hne, hvalue, hrest, hmarked⟩ := h
  have htake : (value ++ rest).takeWhile (fun c => !Text.isBlank c) = value := by
    apply takeWhile_of_fits
    · intro c hc
      simp [hvalue c hc]
    · intro c hc
      simp [hrest c hc]
  have hscan : scan false column (value ++ rest) = some (scanWord column (value ++ rest)) := by
    cases value with
    | nil => exact absurd rfl hne
    | cons c value => exact scan_of_not_marked column (hvalue c (by simp)) hmarked
  rw [hscan]
  unfold scanWord
  simp only [htake, List.drop_left]

private theorem scan_of_token_none {p : Piece} {rest : List Char} (column : Nat)
    (h : p.Fits rest) (hp : p.token? column = none) :
    scan false column (p.chars ++ rest) = scan false (columnAfter column p.chars) rest := by
  cases p with
  | blank c =>
    exact scan_blank column rest h
  | comment body =>
    have hinside : ')' ∉ body := h
    have hbody : ')' ∉ ' ' :: body := by simpa using hinside
    have hscan := scan_comment (column + 1) rest hbody
    have hchars : (Piece.comment body).chars ++ rest = '(' :: ' ' :: (body ++ ')' :: rest) := by
      simp [Piece.chars]
    rw [hchars, scan_opening]
    exact hscan
  | openComment body =>
    obtain ⟨hbody, rfl⟩ := h
    rw [List.append_nil]
    exact scan_openComment (column + 1) (by simpa using hbody)
  | lineComment body =>
    cases h
    exact scan_lineComment column (body ++ [])
  | word value => cases hp
  | quoted value => cases hp

private theorem scan_of_token_some {p : Piece} {rest : List Char} {column : Nat} {t : Token}
    (h : p.Fits rest) (hp : p.token? column = some t) :
    scan false column (p.chars ++ rest) =
      some { entry := .complete t, rest, column := columnAfter column p.chars } := by
  cases p with
  | word value =>
    cases hp
    exact scan_word column h
  | quoted value =>
    cases hp
    have hchars : (Piece.quoted value).chars ++ rest =
        '.' :: '"' :: ' ' :: (value ++ '"' :: rest) := by
      simp [Piece.chars]
    have hcolumn : columnAfter column (Piece.quoted value).chars =
        columnAfter (column + 3) value + 1 := by
      change columnAfter (column + 3) (value ++ ['"']) = _
      rw [columnAfter_append]
      rfl
    rw [hchars, scan_quote, scan_quoted column rest h, hcolumn]
  | blank c => cases hp
  | comment body => cases hp
  | openComment body => cases hp
  | lineComment body => cases hp

/-! ### The reader on a whole text -/

private theorem entriesFrom_eq (column : Nat) (cs : List Char) :
    entriesFrom cs.length column cs =
      match scan false column cs with
      | none => []
      | some s => s.entry :: entriesFrom s.rest.length s.column s.rest := by
  cases cs with
  | nil => rfl
  | cons c rest =>
    rw [List.length_cons, entriesFrom]
    cases hscan : scan false column (c :: rest) with
    | none => rfl
    | some s =>
      have hlt := length_rest_lt_of_scan hscan
      obtain ⟨extra, hextra⟩ := Nat.exists_eq_add_of_le (Nat.le_of_lt_succ hlt)
      simp only [hextra, entriesFrom_add _ _ _ _ (Nat.le_refl _)]

private theorem entries_of_piece {p : Piece} {rest : List Char} (column : Nat)
    (h : p.Fits rest) :
    entriesFrom (p.chars ++ rest).length column (p.chars ++ rest) =
      (p.token? column).toList.map .complete ++
        entriesFrom rest.length (columnAfter column p.chars) rest := by
  rw [entriesFrom_eq]
  cases hp : p.token? column with
  | none =>
    rw [scan_of_token_none column h hp, ← entriesFrom_eq]
    rfl
  | some t =>
    rw [scan_of_token_some h hp]
    rfl

private theorem entries_of_open {value : List Char} (column : Nat) (h : '"' ∉ value) :
    entriesFrom ('.' :: '"' :: ' ' :: value).length column ('.' :: '"' :: ' ' :: value) =
      [.unterminated { value := String.ofList value, literal := true, column }] := by
  rw [entriesFrom_eq, scan_quote, scan_openQuoted column h]
  rfl

theorem written_cons (p : Piece) (ps : List Piece) : written (p :: ps) = p.chars ++ written ps :=
  rfl

theorem written_append (ps qs : List Piece) : written (ps ++ qs) = written ps ++ written qs :=
  List.flatMap_append

theorem Cut.entries {cs left : List Char} {ps : List Piece} (h : Cut cs ps left) (column : Nat) :
    entriesFrom cs.length column cs =
      (tokensFrom column ps).map .complete ++
        entriesFrom left.length (columnAfter column (written ps)) left := by
  induction h generalizing column with
  | done cs => rfl
  | piece hfits hcut ih =>
    rw [entries_of_piece column hfits, ih, tokensFrom, List.map_append, List.append_assoc,
      written_cons, columnAfter_append]

private theorem consume_open (ts : List Token) (t : Token) :
    (ts.map Entry.complete ++ [Entry.unterminated t]).mapM Entry.consume =
      .error (.unterminated t.value t.column) := by
  induction ts with
  | nil => rfl
  | cons u ts ih =>
    rw [List.map_cons, List.cons_append, List.mapM_cons, ih]
    rfl

private theorem entries_of_cut {text : String} {ps : List Piece} (h : Cut text.toList ps []) :
    entries text = (tokensFrom 1 ps).map .complete := by
  have hcut := h.entries 1
  rwa [List.length_nil, entriesFrom, List.append_nil] at hcut

private theorem entries_of_open_cut {text : String} {ps : List Piece} {value : List Char}
    (h : Cut text.toList ps ('.' :: '"' :: ' ' :: value)) (hvalue : '"' ∉ value) :
    entries text = (tokensFrom 1 ps).map .complete ++
      [.unterminated { value := String.ofList value, literal := true,
                       column := columnAfter 1 (written ps) }] := by
  have hcut := h.entries 1
  rwa [entries_of_open _ hvalue] at hcut

private theorem tokenize_of_cut {text : String} {ps : List Piece}
    (h : Cut text.toList ps []) : tokenize text = .ok (tokensFrom 1 ps) := by
  rw [tokenize, entries_of_cut h, consumed_iff.mpr rfl]

private theorem tokenize_of_open {text : String} {ps : List Piece} {value : List Char}
    (h : Cut text.toList ps ('.' :: '"' :: ' ' :: value)) (hvalue : '"' ∉ value) :
    tokenize text =
      .error (.unterminated (String.ofList value) (columnAfter 1 (written ps))) := by
  rw [tokenize, entries_of_open_cut h hvalue, consume_open]

private theorem Piece.chars_ne_nil {p : Piece} {rest : List Char} (h : p.Fits rest) :
    p.chars ≠ [] := by
  cases p with
  | word value => exact h.1
  | blank c => exact List.cons_ne_nil _ _
  | comment body => exact List.cons_ne_nil _ _
  | openComment body => exact List.cons_ne_nil _ _
  | lineComment body => exact List.cons_ne_nil _ _
  | quoted value => exact List.cons_ne_nil _ _

private theorem exists_word {c : Char} {cs : List Char} (hc : Text.isBlank c = false)
    (h : ¬ Marked (c :: cs)) :
    ∃ value rest, c :: cs = value ++ rest ∧ (Piece.word value).Fits rest := by
  have hsplit : (c :: cs).takeWhile (fun c => !Text.isBlank c) ++
      (c :: cs).dropWhile (fun c => !Text.isBlank c) = c :: cs :=
    List.takeWhile_append_dropWhile
  refine ⟨_, _, hsplit.symm, ?_, ?_, ?_, hsplit.symm ▸ h⟩
  · simp [hc]
  · intro d hd
    have hall := List.all_eq_true.mp List.all_takeWhile d hd
    simpa using hall
  · intro d hd
    have hhead := List.head?_dropWhile_not (fun c => !Text.isBlank c) (c :: cs)
    rw [Option.mem_def.mp hd] at hhead
    simpa using hhead

private theorem exists_piece {cs : List Char} (h : cs ≠ []) :
    (∃ p : Piece, ∃ rest, cs = p.chars ++ rest ∧ p.Fits rest) ∨
      ∃ value, cs = '.' :: '"' :: ' ' :: value ∧ '"' ∉ value := by
  obtain ⟨c, cs, rfl⟩ := List.exists_cons_of_ne_nil h
  by_cases hmarked : Marked (c :: cs)
  · obtain ⟨content, hcontent⟩ | ⟨content, hcontent⟩ | ⟨content, hcontent⟩ := hmarked
    · by_cases hend : ')' ∈ content
      · obtain ⟨body, rest, rfl, hbody⟩ := List.eq_append_cons_of_mem hend
        exact .inl ⟨.comment body, rest, by simp [← hcontent, Piece.chars], hbody⟩
      · exact .inl ⟨.openComment content, [], by simp [← hcontent, Piece.chars], hend, rfl⟩
    · exact .inl ⟨.lineComment content, [], by simp [← hcontent, Piece.chars], rfl⟩
    · by_cases hend : '"' ∈ content
      · obtain ⟨value, rest, rfl, hvalue⟩ := List.eq_append_cons_of_mem hend
        exact .inl ⟨.quoted value, rest, by simp [← hcontent, Piece.chars], hvalue⟩
      · exact .inr ⟨content, hcontent.symm, hend⟩
  · by_cases hc : Text.isBlank c = true
    · exact .inl ⟨.blank c, cs, rfl, hc⟩
    · obtain ⟨value, rest, hsplit, hfits⟩ := exists_word (by simpa using hc) hmarked
      exact .inl ⟨.word value, rest, hsplit, hfits⟩

/-- The rules cut every text to its end, or up to a quote that nothing closes. -/
theorem Cut.exists (cs : List Char) :
    (∃ ps, Cut cs ps []) ∨
      ∃ ps value, Cut cs ps ('.' :: '"' :: ' ' :: value) ∧ '"' ∉ value := by
  by_cases hnil : cs = []
  · subst hnil
    exact .inl ⟨[], .done []⟩
  · obtain ⟨p, rest, hcs, hfits⟩ | ⟨value, hcs, hvalue⟩ := exists_piece hnil
    · have hpos := List.length_pos_iff.mpr (Piece.chars_ne_nil hfits)
      have hlt : rest.length < cs.length := by
        rw [hcs, List.length_append]
        omega
      obtain ⟨ps, hps⟩ | ⟨ps, value, hps, hvalue⟩ := Cut.exists rest
      · exact .inl ⟨p :: ps, hcs ▸ .piece hfits hps⟩
      · exact .inr ⟨p :: ps, value, hcs ▸ .piece hfits hps, hvalue⟩
    · exact .inr ⟨[], value, hcs ▸ .done _, hvalue⟩
termination_by cs.length

theorem exists_entries_eq (text : String) :
    ∃ ts : List Token, ∃ opened : Option Token,
      entries text = ts.map .complete ++ opened.toList.map .unterminated := by
  obtain ⟨ps, hps⟩ | ⟨ps, value, hps, hvalue⟩ := Cut.exists text.toList
  · exact ⟨tokensFrom 1 ps, none, by simp [entries_of_cut hps]⟩
  · exact ⟨_, some _, entries_of_open_cut hps hvalue⟩

theorem tokenize_eq_ok_iff {text : String} {ts : List Token} :
    tokenize text = .ok ts ↔ ∃ ps, Cut text.toList ps [] ∧ tokensFrom 1 ps = ts := by
  constructor
  · intro h
    obtain ⟨ps, hps⟩ | ⟨ps, value, hps, hvalue⟩ := Cut.exists text.toList
    · refine ⟨ps, hps, ?_⟩
      rw [tokenize_of_cut hps] at h
      exact Except.ok.inj h
    · rw [tokenize_of_open hps hvalue] at h
      cases h
  · rintro ⟨ps, hps, rfl⟩
    exact tokenize_of_cut hps

theorem tokenize_eq_error_iff {text : String} {e : Cause} :
    tokenize text = .error e ↔
      ∃ ps value, Cut text.toList ps ('.' :: '"' :: ' ' :: value) ∧ '"' ∉ value ∧
        e = .unterminated (String.ofList value) (columnAfter 1 (written ps)) := by
  constructor
  · intro h
    obtain ⟨ps, hps⟩ | ⟨ps, value, hps, hvalue⟩ := Cut.exists text.toList
    · rw [tokenize_of_cut hps] at h
      cases h
    · refine ⟨ps, value, hps, hvalue, ?_⟩
      rw [tokenize_of_open hps hvalue] at h
      exact (Except.error.inj h).symm
  · rintro ⟨ps, value, hps, hvalue, rfl⟩
    exact tokenize_of_open hps hvalue

/-! ### Where tokens stand -/

def Token.width (t : Token) : Nat := t.value.length + if t.literal then 4 else 0

def HoldsComment (cs : List Char) (start stop : Nat) : Prop :=
  (∃ body rest, cs.drop start = '(' :: ' ' :: (body ++ ')' :: rest) ∧ ')' ∉ body ∧
      stop = start + body.length + 3) ∨
    (∃ body, cs.drop start = '(' :: ' ' :: body ∧ ')' ∉ body ∧ stop = cs.length) ∨
    ∃ body, cs.drop start = '\\' :: ' ' :: body ∧ stop = cs.length

/-- The tokens are those of the text: each stands where its column says, none overlaps another, and
between them are only blanks and comments. -/
structure Faithful (cs : List Char) (ts : List Token) : Prop where
  ordered : ts.Pairwise fun t u => t.column < u.column ∧ t.column + t.width ≤ u.column
  word : ∀ t ∈ ts, t.literal = false →
    t.value ≠ "" ∧ (∀ c ∈ t.value.toList, Text.isBlank c = false) ∧ 1 ≤ t.column ∧
      ∃ rest, cs.drop (t.column - 1) = t.value.toList ++ rest ∧
        ∀ c ∈ rest.head?, Text.isBlank c = true
  quoted : ∀ t ∈ ts, t.literal = true →
    '"' ∉ t.value.toList ∧ 1 ≤ t.column ∧
      ∃ rest, cs.drop (t.column - 1) = '.' :: '"' :: ' ' :: (t.value.toList ++ '"' :: rest)
  outside : ∀ i c, cs[i]? = some c →
    (∃ t ∈ ts, t.column ≤ i + 1 ∧ i + 1 < t.column + t.width) ∨ Text.isBlank c = true ∨
      ∃ start stop, HoldsComment cs start stop ∧ start ≤ i ∧ i < stop ∧
        ∀ t ∈ ts, t.column + t.width ≤ start + 1 ∨ stop + 1 ≤ t.column

private theorem column_of_token {p : Piece} {column : Nat} {t : Token}
    (h : p.token? column = some t) : t.column = column ∧ t.width = p.chars.length := by
  cases p with
  | word value =>
    cases h
    simp [Token.width, Piece.chars]
  | quoted value =>
    cases h
    simp [Token.width, Piece.chars]
  | blank c => cases h
  | comment body => cases h
  | openComment body => cases h
  | lineComment body => cases h

theorem tokensFrom_append (column : Nat) (ps qs : List Piece) :
    tokensFrom column (ps ++ qs) =
      tokensFrom column ps ++ tokensFrom (columnAfter column (written ps)) qs := by
  induction ps generalizing column with
  | nil => rfl
  | cons p ps ih =>
    rw [List.cons_append, tokensFrom, tokensFrom, ih, List.append_assoc, written_cons,
      columnAfter_append]

private theorem exists_of_mem_tokensFrom {column : Nat} {ps : List Piece} {t : Token}
    (h : t ∈ tokensFrom column ps) :
    ∃ before p after, ps = before ++ p :: after ∧
      p.token? (columnAfter column (written before)) = some t := by
  induction ps generalizing column with
  | nil => cases h
  | cons p ps ih =>
    obtain hp | hps := List.mem_append.mp h
    · exact ⟨[], p, ps, rfl, Option.mem_toList.mp hp⟩
    · obtain ⟨before, q, after, rfl, hq⟩ := ih hps
      refine ⟨p :: before, q, after, rfl, ?_⟩
      rw [written_cons, columnAfter_append]
      exact hq

private theorem column_bounds {column : Nat} {ps : List Piece} {t : Token}
    (hfeed : '\n' ∉ written ps) (h : t ∈ tokensFrom column ps) :
    column ≤ t.column ∧ t.column + t.width ≤ column + (written ps).length := by
  obtain ⟨before, p, after, rfl, hp⟩ := exists_of_mem_tokensFrom h
  rw [written_append, written_cons] at hfeed ⊢
  have hbefore : '\n' ∉ written before := fun hm => hfeed (List.mem_append_left _ hm)
  obtain ⟨hcolumn, hwidth⟩ := column_of_token hp
  rw [columnAfter_of_notMem column hbefore] at hcolumn
  simp only [List.length_append]
  omega

private theorem Cut.eq_written {cs left : List Char} {ps : List Piece} (h : Cut cs ps left) :
    cs = written ps ++ left := by
  induction h with
  | done cs => rfl
  | piece hfits hcut ih => rw [written_cons, List.append_assoc, ← ih]

private theorem Cut.fits {cs left : List Char} {before after : List Piece} {p : Piece}
    (h : Cut cs (before ++ p :: after) left) : p.Fits (written after ++ left) := by
  induction before generalizing cs with
  | nil =>
    cases h with
    | piece hfits hcut => rwa [← hcut.eq_written]
  | cons q before ih =>
    cases h with
    | piece hfits hcut => exact ih hcut

private theorem Cut.ordered {cs left : List Char} {ps : List Piece} (h : Cut cs ps left)
    (hfeed : '\n' ∉ written ps) (column : Nat) :
    (tokensFrom column ps).Pairwise fun t u =>
      t.column < u.column ∧ t.column + t.width ≤ u.column := by
  induction h generalizing column with
  | done cs => exact List.Pairwise.nil
  | @piece p rest ps left hfits hcut ih =>
    rw [written_cons] at hfeed
    have hp : '\n' ∉ p.chars := fun hm => hfeed (List.mem_append_left _ hm)
    have hps : '\n' ∉ written ps := fun hm => hfeed (List.mem_append_right _ hm)
    rw [tokensFrom, List.pairwise_append]
    refine ⟨?_, ih hps _, ?_⟩
    · cases p.token? column with
      | none => exact List.Pairwise.nil
      | some t => exact List.pairwise_singleton _ t
    · intro t ht u hu
      obtain ⟨hcolumn, hwidth⟩ := column_of_token (Option.mem_toList.mp ht)
      have hafter := (column_bounds hps hu).1
      have hpos := List.length_pos_iff.mpr (Piece.chars_ne_nil hfits)
      rw [columnAfter_of_notMem column hp] at hafter
      omega

private theorem exists_piece_at {ps : List Piece} {i : Nat} (h : i < (written ps).length) :
    ∃ before p after, ps = before ++ p :: after ∧ (written before).length ≤ i ∧
      i < (written before).length + p.chars.length := by
  induction ps generalizing i with
  | nil => cases h
  | cons p ps ih =>
    rw [written_cons, List.length_append] at h
    by_cases hi : i < p.chars.length
    · exact ⟨[], p, ps, rfl, Nat.zero_le i, by simpa [written] using hi⟩
    · obtain ⟨before, q, after, rfl, hle, hlt⟩ := @ih (i - p.chars.length) (by omega)
      refine ⟨p :: before, q, after, rfl, ?_, ?_⟩
      · rw [written_cons, List.length_append]
        omega
      · rw [written_cons, List.length_append]
        omega

private theorem blank_or_comment {p : Piece} {before after : List Char} {column i : Nat} {c : Char}
    (hfits : p.Fits after) (hp : p.token? column = none)
    (hc : (before ++ (p.chars ++ after))[i]? = some c) (hle : before.length ≤ i)
    (hlt : i < before.length + p.chars.length) :
    Text.isBlank c = true ∨
      HoldsComment (before ++ (p.chars ++ after)) before.length
        (before.length + p.chars.length) := by
  have hdrop : (before ++ (p.chars ++ after)).drop before.length = p.chars ++ after :=
    List.drop_left
  cases p with
  | blank d =>
    have hi : i = before.length := by
      simp only [Piece.chars, List.length_cons, List.length_nil] at hlt
      omega
    have hd : d = c := by simpa [hi, Piece.chars] using hc
    exact .inl (hd ▸ hfits)
  | comment body =>
    refine .inr (.inl ⟨body, after, ?_, hfits, ?_⟩)
    · rw [hdrop]
      simp [Piece.chars]
    · simp [Piece.chars]
      omega
  | openComment body =>
    obtain ⟨hbody, rfl⟩ := hfits
    refine .inr (.inr (.inl ⟨body, ?_, hbody, ?_⟩))
    · rw [hdrop, List.append_nil]
      rfl
    · simp
  | lineComment body =>
    cases hfits
    refine .inr (.inr (.inr ⟨body, ?_, ?_⟩))
    · rw [hdrop, List.append_nil]
      rfl
    · simp
  | word value => cases hp
  | quoted value => cases hp

private theorem Cut.place {cs : List Char} {ps : List Piece} {t : Token} (h : Cut cs ps [])
    (hfeed : '\n' ∉ cs) (ht : t ∈ tokensFrom 1 ps) :
    ∃ p : Piece, ∃ rest, p.token? t.column = some t ∧ p.Fits rest ∧ 1 ≤ t.column ∧
      cs.drop (t.column - 1) = p.chars ++ rest := by
  obtain ⟨before, p, after, rfl, hp⟩ := exists_of_mem_tokensFrom ht
  have hcs : cs = written before ++ (p.chars ++ written after) := by
    simpa [written_append, written_cons] using h.eq_written
  have hbefore : '\n' ∉ written before := by
    intro hm
    rw [hcs] at hfeed
    exact hfeed (List.mem_append_left _ hm)
  rw [columnAfter_of_notMem 1 hbefore] at hp
  have hcolumn := (column_of_token hp).1
  have hindex : t.column - 1 = (written before).length := by omega
  refine ⟨p, written after, hcolumn ▸ hp, by simpa using h.fits, by omega, ?_⟩
  rw [hindex, hcs, List.drop_left]

private theorem Cut.word {cs : List Char} {ps : List Piece} {t : Token} (h : Cut cs ps [])
    (hfeed : '\n' ∉ cs) (ht : t ∈ tokensFrom 1 ps) (hliteral : t.literal = false) :
    t.value ≠ "" ∧ (∀ c ∈ t.value.toList, Text.isBlank c = false) ∧ 1 ≤ t.column ∧
      ∃ rest, cs.drop (t.column - 1) = t.value.toList ++ rest ∧
        ∀ c ∈ rest.head?, Text.isBlank c = true := by
  obtain ⟨p, rest, hp, hfits, hpos, hdrop⟩ := h.place hfeed ht
  cases p with
  | word value =>
    obtain ⟨hne, hvalue, hrest, -⟩ := hfits
    have htext : t.value.toList = value := by
      rw [← Option.some.inj hp]
      exact String.toList_ofList
    refine ⟨?_, by rwa [htext], hpos, rest, by rw [htext]; exact hdrop, hrest⟩
    intro hempty
    rw [hempty] at htext
    exact hne htext.symm
  | quoted value =>
    rw [← Option.some.inj hp] at hliteral
    cases hliteral
  | blank c => cases hp
  | comment body => cases hp
  | openComment body => cases hp
  | lineComment body => cases hp

private theorem Cut.quoted {cs : List Char} {ps : List Piece} {t : Token} (h : Cut cs ps [])
    (hfeed : '\n' ∉ cs) (ht : t ∈ tokensFrom 1 ps) (hliteral : t.literal = true) :
    '"' ∉ t.value.toList ∧ 1 ≤ t.column ∧
      ∃ rest, cs.drop (t.column - 1) = '.' :: '"' :: ' ' :: (t.value.toList ++ '"' :: rest) := by
  obtain ⟨p, rest, hp, hfits, hpos, hdrop⟩ := h.place hfeed ht
  cases p with
  | quoted value =>
    have htext : t.value.toList = value := by
      rw [← Option.some.inj hp]
      exact String.toList_ofList
    refine ⟨by rwa [htext], hpos, rest, ?_⟩
    rw [htext, hdrop]
    simp [Piece.chars]
  | word value =>
    rw [← Option.some.inj hp] at hliteral
    cases hliteral
  | blank c => cases hp
  | comment body => cases hp
  | openComment body => cases hp
  | lineComment body => cases hp

private theorem Cut.outside {cs : List Char} {ps : List Piece} {i : Nat} {c : Char}
    (h : Cut cs ps []) (hfeed : '\n' ∉ cs) (hc : cs[i]? = some c) :
    (∃ t ∈ tokensFrom 1 ps, t.column ≤ i + 1 ∧ i + 1 < t.column + t.width) ∨
      Text.isBlank c = true ∨
      ∃ start stop, HoldsComment cs start stop ∧ start ≤ i ∧ i < stop ∧
        ∀ t ∈ tokensFrom 1 ps, t.column + t.width ≤ start + 1 ∨ stop + 1 ≤ t.column := by
  obtain ⟨hi, -⟩ := List.getElem?_eq_some_iff.mp hc
  obtain ⟨before, p, after, rfl, hle, hlt⟩ :=
    exists_piece_at (show i < (written ps).length by simpa [h.eq_written] using hi)
  have hcs : cs = written before ++ (p.chars ++ written after) := by
    simpa [written_append, written_cons] using h.eq_written
  have hfits : p.Fits (written after) := by simpa using h.fits
  rw [hcs] at hfeed hc ⊢
  have hbefore : '\n' ∉ written before := fun hm => hfeed (List.mem_append_left _ hm)
  have hchars : '\n' ∉ p.chars := fun hm =>
    hfeed (List.mem_append_right _ (List.mem_append_left _ hm))
  have hafter : '\n' ∉ written after := fun hm =>
    hfeed (List.mem_append_right _ (List.mem_append_right _ hm))
  rw [tokensFrom_append, tokensFrom, columnAfter_of_notMem 1 hbefore,
    columnAfter_of_notMem _ hchars]
  -- The piece around the character has a token, or it keeps clear of those on both sides.
  cases hp : p.token? (1 + (written before).length) with
  | some t =>
    obtain ⟨hcolumn, hwidth⟩ := column_of_token hp
    exact .inl ⟨t, by simp, by omega, by omega⟩
  | none =>
    refine .inr ((blank_or_comment hfits hp hc hle hlt).imp_right fun hcomment => ?_)
    refine ⟨_, _, hcomment, hle, hlt, fun t ht => ?_⟩
    rw [Option.toList_none, List.nil_append] at ht
    obtain ht | ht := List.mem_append.mp ht
    · have hbounds := column_bounds hbefore ht
      omega
    · have hbounds := column_bounds hafter ht
      omega

/-- Tokens are faithful to the text. In a text without line feeds every token stands at its column,
tokens follow one another without overlapping, and all else is blanks and comments. Any text is
refused exactly when the rules, from left to right, meet a quote that nothing closes; the refusal
names its column. -/
theorem tokenize_faithful (text : String) :
    (∀ ts, '\n' ∉ text.toList → tokenize text = .ok ts → Faithful text.toList ts) ∧
      ∀ e, tokenize text = .error e ↔
        ∃ ps value, Cut text.toList ps ('.' :: '"' :: ' ' :: value) ∧ '"' ∉ value ∧
          e = .unterminated (String.ofList value) (columnAfter 1 (written ps)) := by
  refine ⟨?_, fun e => tokenize_eq_error_iff⟩
  intro ts hfeed h
  obtain ⟨ps, hps, rfl⟩ := tokenize_eq_ok_iff.mp h
  have hwritten : written ps = text.toList := by simpa using hps.eq_written.symm
  exact {
    ordered := hps.ordered (by rwa [hwritten]) 1
    word := fun t => hps.word hfeed
    quoted := fun t => hps.quoted hfeed
    outside := fun i c => hps.outside hfeed }

private def remarks : String := "2 dup( ( twice ) .\" a ( b\" .\"c * \\ .\" end"

private def remarkTokens : List Token :=
  [{ value := "2", column := 1 }, { value := "dup(", column := 3 },
   { value := "a ( b", literal := true, column := 18 }, { value := ".\"c", column := 28 },
   { value := "*", column := 32 }]

theorem tokenize_faithful_remarks :
    ('\n' ∉ remarks.toList ∧ tokenize remarks = .ok remarkTokens ∧
        Faithful remarks.toList remarkTokens) ∧
      ∃ ps value, Cut "( .\" ) .\" x )".toList ps ('.' :: '"' :: ' ' :: value) ∧ '"' ∉ value ∧
        Cause.unterminated "x )" 8 =
          .unterminated (String.ofList value) (columnAfter 1 (written ps)) := by
  have hfeed : '\n' ∉ remarks.toList := by decide +kernel
  have htokens : tokenize remarks = .ok remarkTokens := rfl
  have hopen : tokenize "( .\" ) .\" x )" = .error (.unterminated "x )" 8) := rfl
  exact ⟨⟨hfeed, htokens, (tokenize_faithful remarks).1 _ hfeed htokens⟩,
    ((tokenize_faithful "( .\" ) .\" x )").2 _).mp hopen⟩

end Forthline
