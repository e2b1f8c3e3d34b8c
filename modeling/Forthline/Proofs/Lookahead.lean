import Forthline.Proofs.Scanning

/-!
# Streams as cursors

A stream keeps the entries of its text in three places: those it took, those it looked at and those
it has yet to find. One behind the other they are a list with a position in it, and whatever is
asked of the stream, in any order, is a move of that position. The text is read as far as the
requests reach, and no further answer depends on how far that was.
-/

namespace Forthline

structure Cursor where
  entries : List Entry
  position : Nat := 0
deriving DecidableEq, Repr

namespace Cursor

def next (c : Cursor) : Except Cause (Option Token) × Cursor :=
  match c.entries[c.position]? with
  | none => (.ok none, c)
  | some (.complete t) => (.ok (some t), { c with position := c.position + 1 })
  | some (.unterminated t) =>
    (.error (.unterminated t.value t.column),
      { c with entries := c.entries.eraseIdx c.position })

def peek (n : Nat) (c : Cursor) : Option Token :=
  c.entries[c.position + n - 1]?.map Entry.token

def back (c : Cursor) : Option Token × Cursor :=
  match c.position with
  | 0 => (none, c)
  | position + 1 => (c.entries[position]?.map Entry.token, { c with position })

def consumed (c : Cursor) : List Token := (c.entries.take c.position).map Entry.token

end Cursor

inductive Query where
  | next
  | peek (n : Int) (pos : 1 ≤ n)
  | back
  | consumed

inductive Reply where
  | token (found : Except Cause (Option Token))
  | tokens (ts : List Token)

def Stream.reply (s : Stream) : Query → Reply × Stream
  | .next => (.token s.next.1, s.next.2)
  | .peek n _ => (.token (s.peek n).1, (s.peek n).2)
  | .back => (.token (.ok s.back.1), s.back.2)
  | .consumed => (.tokens s.consumed, s)

def Cursor.reply (c : Cursor) : Query → Reply × Cursor
  | .next => (.token c.next.1, c.next.2)
  | .peek n _ => (.token (.ok (c.peek n.toNat)), c)
  | .back => (.token (.ok c.back.1), c.back.2)
  | .consumed => (.tokens c.consumed, c)

def replies {σ : Type} (reply : σ → Query → Reply × σ) (s : σ) : List Query → List Reply
  | [] => []
  | q :: qs => (reply s q).1 :: replies reply (reply s q).2 qs

theorem replies_eq_of_reply_eq {σ τ : Type} {reply : σ → Query → Reply × σ}
    {reply' : τ → Query → Reply × τ} (view : σ → τ)
    (h : ∀ s q, reply' (view s) q = ((reply s q).1, view (reply s q).2)) (s : σ)
    (qs : List Query) : replies reply s qs = replies reply' (view s) qs := by
  induction qs generalizing s with
  | nil => rfl
  | cons q qs ih => simp only [replies, h, ih]

namespace Stream

def cursor (s : Stream) : Cursor where
  entries := s.taken.reverse ++ s.left
  position := s.taken.length

theorem cursor_ofText (text : String) :
    (ofText text).cursor = { entries := Forthline.entries text } :=
  rfl

theorem cursor_congr {s s' : Stream} (hleft : s'.left = s.left) (htaken : s'.taken = s.taken) :
    s'.cursor = s.cursor := by
  unfold cursor
  rw [hleft, htaken]

private theorem getElem?_cursor (s : Stream) (i : Nat) :
    s.cursor.entries[s.cursor.position + i]? = s.left[i]? := by
  have hindex : s.taken.length + i = s.taken.reverse.length + i := by rw [List.length_reverse]
  change (s.taken.reverse ++ s.left)[s.taken.length + i]? = _
  rw [hindex, List.getElem?_append_right (Nat.le_add_right _ _), Nat.add_sub_cancel_left]

private theorem next_cursor (s : Stream) : s.cursor.next = (s.next.1, s.next.2.cursor) := by
  have hentry := s.getElem?_cursor 0
  rw [Nat.add_zero] at hentry
  unfold Cursor.next
  rw [hentry]
  unfold next
  cases hleft : s.left with
  | nil =>
    rw [pull_of_left_nil hleft]
    rfl
  | cons e es =>
    obtain ⟨s', hpull, hleft', htaken⟩ := pull_of_left_cons hleft
    rw [hpull]
    cases e with
    | complete t =>
      have hmoved : s.taken.reverse ++ .complete t :: es =
          (.complete t :: s.taken).reverse ++ es := by
        rw [List.reverse_cons, List.append_assoc]
        rfl
      have hs : s.cursor = ⟨s.taken.reverse ++ .complete t :: es, s.taken.length⟩ := by
        rw [cursor, hleft]
      have hs' : ({ s' with taken := .complete t :: s'.taken } : Stream).cursor =
          ⟨(.complete t :: s.taken).reverse ++ es, (.complete t :: s.taken).length⟩ := by
        rw [← hleft', ← htaken]
        rfl
      rw [hs', ← hmoved, hs]
      rfl
    | unterminated t =>
      have hdropped : (s.taken.reverse ++ .unterminated t :: es).eraseIdx s.taken.length =
          s.taken.reverse ++ es := by
        rw [← s.taken.length_reverse, List.eraseIdx_append_of_length_le (Nat.le_refl _),
          Nat.sub_self]
        rfl
      have hs : s.cursor = ⟨s.taken.reverse ++ .unterminated t :: es, s.taken.length⟩ := by
        rw [cursor, hleft]
      have hs' : s'.cursor = ⟨s.taken.reverse ++ es, s.taken.length⟩ := by
        rw [cursor, hleft', htaken]
      rw [hs', ← hdropped, hs]
      rfl

private theorem peek_cursor {n : Int} (h : 1 ≤ n) (s : Stream) :
    (s.peek n).1 = .ok (s.cursor.peek n.toNat) ∧ (s.peek n).2.cursor = s.cursor := by
  obtain ⟨s', hpeek, hleft, htaken⟩ := s.peek_of_pos h
  have hindex : s.cursor.position + n.toNat - 1 = s.cursor.position + (n.toNat - 1) := by omega
  rw [hpeek]
  refine ⟨?_, cursor_congr hleft htaken⟩
  unfold Cursor.peek
  rw [hindex, getElem?_cursor]

private theorem back_cursor (s : Stream) : s.cursor.back = (s.back.1, s.back.2.cursor) := by
  unfold back
  cases htaken : s.taken with
  | nil =>
    have hstart : s.cursor.position = 0 := by rw [cursor, htaken, List.length_nil]
    unfold Cursor.back
    rw [hstart]
  | cons e taken =>
    have hs : s.cursor = ⟨taken.reverse ++ e :: s.left, taken.length + 1⟩ := by
      rw [cursor, htaken, List.reverse_cons, List.append_assoc]
      rfl
    have hentry : (taken.reverse ++ e :: s.left)[taken.length]? = some e := by
      rw [← taken.length_reverse, List.getElem?_append_right (Nat.le_refl _), Nat.sub_self]
      rfl
    rw [hs]
    unfold Cursor.back
    dsimp only
    rw [hentry]
    rfl

private theorem consumed_cursor (s : Stream) : s.cursor.consumed = s.consumed := by
  have htake : (s.taken.reverse ++ s.left).take s.taken.length = s.taken.reverse := by
    rw [← s.taken.length_reverse, List.take_left']
    rfl
  change ((s.taken.reverse ++ s.left).take s.taken.length).map Entry.token = _
  rw [htake]
  rfl

theorem reply_cursor (s : Stream) (q : Query) :
    s.cursor.reply q = ((s.reply q).1, (s.reply q).2.cursor) := by
  cases q with
  | next =>
    unfold Cursor.reply reply
    rw [next_cursor]
  | peek n pos =>
    obtain ⟨hfound, hsame⟩ := s.peek_cursor pos
    unfold Cursor.reply reply
    dsimp only
    rw [hfound, hsame]
  | back =>
    unfold Cursor.reply reply
    rw [back_cursor]
  | consumed =>
    unfold Cursor.reply reply
    rw [consumed_cursor]

end Stream

/-- A stream that reads its text on demand, looks ahead and steps back replies to any queries in any
order as a cursor does that starts in front of all entries of the text. These are tokens, behind
which at most one quoted text is left open. -/
theorem stream_replies_as_cursor (text : String) :
    (∃ ts : List Token, ∃ opened : Option Token,
      entries text = ts.map .complete ++ opened.toList.map .unterminated) ∧
      ∀ qs, replies Stream.reply (Stream.ofText text) qs =
        replies Cursor.reply { entries := entries text } qs := by
  refine ⟨exists_entries_eq text, fun qs => ?_⟩
  rw [← Stream.cursor_ofText]
  exact replies_eq_of_reply_eq Stream.cursor Stream.reply_cursor (Stream.ofText text) qs

end Forthline
