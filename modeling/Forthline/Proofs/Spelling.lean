import Forthline.Proofs.Scanning

/-!
# Writing tokens down

A token is written as it is meant to be read: a word as itself, and a quoted text between its marks.
Whatever a text holds, be it blanks, comments or the marks of other texts, and wherever in a word a
mark stands, reading gives back what was written.
-/

namespace Forthline

/-- A token to be written down: a word that is no mark by itself, or a text without quotes. -/
inductive Lexeme where
  | word (value : String) (nonempty : value ≠ "")
      (solid : ∀ c ∈ value.toList, Text.isBlank c = false)
      (unmarked : value ∉ ["(", "\\", ".\""])
  | quoted (value : String) (closed : '"' ∉ value.toList)

structure Gap where
  chars : List Char
  nonempty : chars ≠ []
  blank : ∀ c ∈ chars, Text.isBlank c = true

namespace Lexeme

def content : Lexeme → String × Bool
  | word value _ _ _ => (value, false)
  | quoted value _ => (value, true)

def chars : Lexeme → List Char
  | word value _ _ _ => value.toList
  | quoted value _ => ".\" ".toList ++ value.toList ++ ['"']

def piece : Lexeme → Piece
  | word value _ _ _ => .word value.toList
  | quoted value _ => .quoted value.toList

theorem chars_piece (l : Lexeme) : l.piece.chars = l.chars := by
  cases l with
  | word value nonempty solid unmarked => rfl
  | quoted value closed => rfl

theorem content_piece (l : Lexeme) (column : Nat) :
    (l.piece.token? column).toList.map Token.content = [l.content] := by
  cases l with
  | word value nonempty solid unmarked => simp [piece, Piece.token?, Token.content, content]
  | quoted value closed => simp [piece, Piece.token?, Token.content, content]

end Lexeme

/-- Tokens written one after another. Each gap is chosen by the number of tokens that follow the two
it stands between. -/
def spelled (gap : Nat → Gap) : List Lexeme → List Char
  | [] => []
  | [l] => l.chars
  | l :: m :: ls => l.chars ++ ((gap ls.length).chars ++ spelled gap (m :: ls))

private def piecesOf (gap : Nat → Gap) : List Lexeme → List Piece
  | [] => []
  | [l] => [l.piece]
  | l :: m :: ls => l.piece :: ((gap ls.length).chars.map .blank ++ piecesOf gap (m :: ls))

private theorem eq_of_mark_isPrefix {mark value rest : List Char}
    (hmark : ∀ c ∈ mark, Text.isBlank c = false) (hvalue : ∀ c ∈ value, Text.isBlank c = false)
    (hrest : ∀ c ∈ rest.head?, Text.isBlank c = true) (h : mark ++ [' '] <+: value ++ rest) :
    value = mark := by
  obtain ⟨tail, htail⟩ := h
  have hword : (value ++ rest).takeWhile (fun c => !Text.isBlank c) = value :=
    takeWhile_of_fits (by simpa using hvalue) (by simpa using hrest)
  have hmarked : (mark ++ ' ' :: tail).takeWhile (fun c => !Text.isBlank c) = mark :=
    takeWhile_of_fits (by simpa using hmark) (by simp [Text.isBlank])
  rw [← hword, ← htail, List.append_assoc]
  exact hmarked

private theorem not_marked {value : String} {rest : List Char}
    (hsolid : ∀ c ∈ value.toList, Text.isBlank c = false)
    (hunmarked : value ∉ ["(", "\\", ".\""])
    (hrest : ∀ c ∈ rest.head?, Text.isBlank c = true) : ¬ Marked (value.toList ++ rest) := by
  have hfree (mark : String) (hmem : mark ∈ ["(", "\\", ".\""])
      (hmark : mark.toList.any Text.isBlank = false) :
      ¬ mark.toList ++ [' '] <+: value.toList ++ rest := by
    intro h
    have hplain : ∀ c ∈ mark.toList, Text.isBlank c = false := by simpa using hmark
    have hsame := eq_of_mark_isPrefix hplain hsolid hrest h
    exact hunmarked (String.toList_injective hsame ▸ hmem)
  rintro (h | h | h)
  · exact hfree "(" (by decide) (by decide) h
  · exact hfree "\\" (by decide) (by decide) h
  · exact hfree ".\"" (by decide) (by decide) h

private theorem fits_of_head_blank (l : Lexeme) {rest : List Char}
    (hrest : ∀ c ∈ rest.head?, Text.isBlank c = true) : l.piece.Fits rest := by
  cases l with
  | word value nonempty solid unmarked =>
    have hne : value.toList ≠ [] := by simpa using nonempty
    exact ⟨hne, solid, hrest, not_marked solid unmarked hrest⟩
  | quoted value closed => exact closed

private theorem Cut.blanks {g cs left : List Char} {ps : List Piece}
    (hg : ∀ c ∈ g, Text.isBlank c = true) (h : Cut cs ps left) :
    Cut (g ++ cs) (g.map .blank ++ ps) left := by
  induction g with
  | nil => exact h
  | cons c g ih =>
    have hc : (Piece.blank c).Fits (g ++ cs) := hg c (by simp)
    exact .piece hc (ih fun d hd => hg d (List.mem_cons_of_mem c hd))

private theorem cut_spelled (gap : Nat → Gap) (ls : List Lexeme) :
    Cut (spelled gap ls) (piecesOf gap ls) [] := by
  induction ls using spelled.induct with
  | case1 => exact .done []
  | case2 l =>
    have hcut : Cut (l.piece.chars ++ []) [l.piece] [] :=
      .piece (fits_of_head_blank l (by simp)) (.done [])
    rwa [List.append_nil, l.chars_piece] at hcut
  | case3 l m ls ih =>
    obtain ⟨c, g, hgap⟩ := List.exists_cons_of_ne_nil (gap ls.length).nonempty
    have hhead : ∀ d ∈ ((gap ls.length).chars ++ spelled gap (m :: ls)).head?,
        Text.isBlank d = true := by
      intro d hd
      have hcd : c = d := by simpa [hgap] using hd
      exact hcd ▸ (gap ls.length).blank c (by simp [hgap])
    have hcut := Cut.piece (fits_of_head_blank l hhead) (Cut.blanks (gap ls.length).blank ih)
    rwa [l.chars_piece] at hcut

private theorem tokensFrom_blanks (column : Nat) (g : List Char) :
    tokensFrom column (g.map .blank) = [] := by
  induction g generalizing column with
  | nil => rfl
  | cons c g ih => exact ih _

private theorem content_piecesOf (gap : Nat → Gap) (ls : List Lexeme) (column : Nat) :
    (tokensFrom column (piecesOf gap ls)).map Token.content = ls.map Lexeme.content := by
  induction ls using spelled.induct generalizing column with
  | case1 => rfl
  | case2 l =>
    change ((l.piece.token? column).toList ++ []).map Token.content = [l.content]
    rw [List.append_nil, l.content_piece]
  | case3 l m ls ih =>
    rw [piecesOf, tokensFrom, List.map_append, l.content_piece, tokensFrom_append,
      tokensFrom_blanks, List.nil_append, ih]
    rfl

/-- What is written down, with any blanks between the tokens, is read back as it was. -/
theorem tokenize_spelled (gap : Nat → Gap) (ls : List Lexeme) :
    (tokenize (String.ofList (spelled gap ls))).map (List.map Token.content) =
      .ok (ls.map Lexeme.content) := by
  have hcut : Cut (String.ofList (spelled gap ls)).toList (piecesOf gap ls) [] := by
    rw [String.toList_ofList]
    exact cut_spelled gap ls
  have htokenize := tokenize_eq_ok_iff.mpr ⟨_, hcut, rfl⟩
  rw [htokenize]
  exact congrArg Except.ok (content_piecesOf gap ls 1)

example : (tokenize "(x .\" ( \\\n\" \\a .\"b a.\"").map (List.map Token.content) =
    .ok [("(x", false), ("( \\\n", true), ("\\a", false), (".\"b", false), ("a.\"", false)] :=
  rfl

end Forthline
