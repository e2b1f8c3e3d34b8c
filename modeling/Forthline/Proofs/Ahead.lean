import Forthline.Proofs.Cursor
import Forthline.Proofs.Invariants
import Forthline.Proofs.Turns

/-!
# Lines with more to come

Two lines are read side by side, and the tokens of the second go on after those of the first. As
long as the first has tokens, the second does the same, turn by turn; where the first would fail for
want of a token, nothing is said. The only look ahead is for a redefinition, which can tell the
lines apart at the last token of the first.
-/

namespace Forthline

/-- How a line is read elsewhere: what a machine keeps of the line and of those before it. -/
structure Elsewhere where
  source : Stream
  line : Line
  entries : List LogEntry
  events : List Event
  linesRead : Nat
  lastResult : Option LineResult
  running : Bool

namespace Machine

def elsewhere (m : Machine) (before : String) (e : Elsewhere) : Machine :=
  { m with
    source := some e.source
    line := some e.line
    output := before ++ m.output
    log := { m.log with entries := e.entries }
    events := e.events
    linesRead := e.linesRead
    lastResult := e.lastResult
    running := e.running }

def Spoken (m : Machine) : Prop := m.pending = none ∧ ∃ s, m.source = some s ∧ s.Holds []

end Machine

namespace Run

/-- The second machine reads a line whose tokens go on with `later` after those of the first. It
wrote something before, and has run tokens before. -/
def Ahead (later : List (String × Bool)) (before : String) (parsed : List String)
    (m n : Machine) : Prop :=
  ∃ e : Elsewhere, n = m.elsewhere before e ∧
    (∃ s cs, m.source = some s ∧ s.Holds cs ∧ e.source.Holds (cs ++ later)) ∧
    ∃ l, m.line = some l ∧ e.line.parsed = l.parsed ++ parsed

section Relation

variable {later : List (String × Bool)} {before : String} {parsed : List String}

private theorem ahead_respects : Respects (Ahead later before parsed) where
  workspace := by
    rintro m _ ⟨e, rfl, -⟩
    rfl
  rack := by
    rintro m _ ⟨e, rfl, -⟩
    rfl
  spent := by
    rintro m _ ⟨e, rfl, -⟩
    rfl
  threshold := by
    rintro m _ ⟨e, rfl, -⟩
    rfl
  logListeners := by
    rintro m _ ⟨e, rfl, -⟩
    rfl
  work := by
    rintro m _ w ⟨e, rfl, h⟩ -
    exact ⟨e, rfl, h⟩
  write := by
    rintro m _ text ⟨e, rfl, h⟩
    refine ⟨e, ?_, h⟩
    simp [Machine.elsewhere, String.append_assoc]
  emit := by
    rintro m _ x ⟨e, rfl, h⟩ -
    exact ⟨{ e with events := x :: e.events }, rfl, h⟩
  note := by
    rintro m _ x ⟨e, rfl, h⟩
    exact ⟨{ e with entries := x :: e.entries }, rfl, h⟩
  wake := by
    rintro m _ c ⟨e, rfl, h⟩ -
    exact ⟨e, rfl, h⟩

private theorem ahead_pauses : Pauses (Ahead later before parsed) where
  continuations := by
    rintro m _ ⟨e, rfl, -⟩
    rfl
  pause := by
    rintro m _ ⟨e, rfl, h⟩
    exact ⟨e, rfl, h⟩
  hold := by
    rintro m _ ⟨e, rfl, h⟩
    exact ⟨e, rfl, h⟩
  await := by
    rintro m _ ⟨e, rfl, h⟩
    exact ⟨e, rfl, h⟩
  touch := by
    rintro m _ ⟨e, rfl, h⟩
    exact ⟨e, rfl, h⟩

private theorem ahead_sleeps : Sleeps (Ahead later before parsed) where
  scheduler := by
    rintro m _ ⟨e, rfl, -⟩
    rfl
  record := by
    rintro m _ delay ⟨e, rfl, h⟩
    exact ⟨e, rfl, h⟩

private theorem ahead_tracks : Tracks (Ahead later before parsed) where
  frames := by
    rintro m _ ⟨e, rfl, -⟩
    rfl
  setFrames := by
    rintro m _ fs ⟨e, rfl, h⟩
    exact ⟨e, rfl, h⟩
  step := by
    rintro m _ ⟨e, rfl, h⟩
    exact ⟨e, rfl, h⟩

private theorem ahead_reads : Reads (Ahead later before parsed) where
  pending := by
    rintro m _ ⟨e, rfl, -⟩
    rfl
  setPending := by
    rintro m _ p ⟨e, rfl, h⟩
    exact ⟨e, rfl, h⟩
  learn := by
    rintro m _ name word permanent d ⟨e, rfl, h⟩ -
    exact ⟨e, rfl, h⟩
  declare := by
    rintro m _ name a memory ⟨e, rfl, h⟩ -
    exact ⟨e, rfl, h⟩

end Relation

theorem nextToken_of_next {m : Machine} {s s' : Stream} {r : Except Cause (Option Token)}
    (hs : m.source = some s) (hnext : s.next = (r, s')) :
    nextToken.on m = (lift r).on { m with source := some s' } := by
  rw [nextToken, on_get_bind, hs]
  dsimp only
  rw [hnext]
  rfl

theorem peekToken_of_peek {m : Machine} {s s' : Stream} {r : Except Cause (Option Token)}
    (hs : m.source = some s) (hpeek : s.peek 1 = (r, s')) :
    peekToken.on m = (lift r).on { m with source := some s' } := by
  rw [peekToken, on_get_bind, hs]
  dsimp only
  rw [hpeek]
  rfl

theorem nextToken_of_exhausted {m : Machine} {s : Stream} (hs : m.source = some s)
    (h : s.Holds []) : nextToken.on m = (.ok none, m) := by
  have hsame : { m with source := some s } = m := by rw [← hs]
  rw [nextToken_of_next hs h.next_nil, hsame]
  rfl

section Tokens

variable {later : List (String × Bool)} {before : String} {parsed : List String} {m n : Machine}

private theorem nextToken_ahead (h : Ahead later before parsed m n) :
    (∃ s, m.source = some s ∧ s.Holds []) ∨
    ∃ t u m' n', nextToken.on m = (.ok (some t), m') ∧ nextToken.on n = (.ok (some u), n') ∧
      t.content = u.content ∧ Ahead later before parsed m' n' := by
  obtain ⟨e, rfl, ⟨s, cs, hs, hcs, hlater⟩, hline⟩ := h
  cases cs with
  | nil => exact .inl ⟨s, hs, hcs⟩
  | cons c cs =>
    obtain ⟨t, s', hnext, ht, hcs'⟩ := hcs.next_cons
    obtain ⟨u, e', hnext', hu, hlater'⟩ := hlater.next_cons
    refine .inr ⟨t, u, _, _, nextToken_of_next hs hnext, nextToken_of_next rfl hnext',
      ht.trans hu.symm, ?_⟩
    exact ⟨{ e with source := e' }, rfl, ⟨s', cs, rfl, hcs', hlater'⟩, hline⟩

private theorem peekToken_ahead (h : Ahead later before parsed m n) :
    ∃ t u m' n', peekToken.on m = (.ok t, m') ∧ peekToken.on n = (.ok u, n') ∧
      m'.pending = m.pending ∧ Ahead later before parsed m' n' ∧
      (t.map Token.content = u.map Token.content ∨
        t = none ∧ u.map Token.content = later.head? ∧ ∃ s, m'.source = some s ∧ s.Holds []) := by
  obtain ⟨e, rfl, ⟨s, cs, hs, hcs, hlater⟩, hline⟩ := h
  obtain ⟨t, s', hpeek, ht, hcs'⟩ := hcs.peek
  obtain ⟨u, e', hpeek', hu, hlater'⟩ := hlater.peek
  refine ⟨t, u, _, _, peekToken_of_peek hs hpeek, peekToken_of_peek rfl hpeek', rfl,
    ⟨{ e with source := e' }, rfl, ⟨s', cs, rfl, hcs', hlater'⟩, hline⟩, ?_⟩
  cases cs with
  | nil => exact .inr ⟨Option.map_eq_none_iff.mp ht, hu, s', rfl, hcs'⟩
  | cons c cs => exact .inl (ht.trans hu.symm)

private theorem needToken_follows {β : Type} {k l : Option Token → Run β} {c : Cause}
    (hnone : k none = fail c)
    (hsome : ∀ t u, t.content = u.content →
      Follows (Ahead later before parsed) (k (some t)) (l (some u))) :
    Follows (Ahead later before parsed) (nextToken >>= k) (nextToken >>= l) := by
  intro m n m' b h hm
  rcases nextToken_ahead h with ⟨s, hs, hempty⟩ | ⟨t, u, m₁, n₁, ht, hu, htu, h₁⟩
  · rw [on_bind_ok (nextToken_of_exhausted hs hempty), hnone] at hm
    cases hm
  · rw [on_bind_ok ht] at hm
    rw [on_bind_ok hu]
    exact hsome t u htu h₁ hm

private theorem quote_follows :
    Follows (Ahead later before parsed) (task .quote) (task .quote) := by
  refine needToken_follows (c := .quoteAtEnd) rfl fun t u h => ?_
  dsimp only
  rw [Token.value_of_content h]
  exact (push_matches ahead_respects.minds _).follows

private theorem expectName_follows (code : String) :
    Follows (Ahead later before parsed) (expectName code) (expectName code) := by
  refine needToken_follows (c := .missingName code) rfl fun t u h => ?_
  dsimp only
  rw [Token.value_of_content h]
  exact (Matches.pure _).follows

private theorem native_follows (name : String) {c : Code}
    (h : Follows (Ahead later before parsed) (code c) (code c)) :
    Follows (Ahead later before parsed) (native name c) (native name c) := by
  intro m n m' a hR hm
  rcases hc : (code c).on m with ⟨stop | _, m₁⟩
  · rw [native_of_error name hc] at hm
    cases hm
  · rw [native_of_ok name hc] at hm
    cases hm
    obtain ⟨n', hn, hR'⟩ := h hR hc
    exact ⟨n', native_of_ok name hn, hR'⟩

private theorem advance_follows (f : Frame) :
    Follows (Ahead later before parsed) (advance f) (advance f) := by
  by_cases hquote : ∃ name, f.native? = some (name, .task .quote)
  · obtain ⟨name, hf⟩ := hquote
    obtain ⟨rest, rfl⟩ := sequence_of_native hf
    intro m n m' a h hm
    rw [advance_native] at hm ⊢
    exact native_follows name quote_follows (ahead_tracks.start h rest) hm
  · refine (advance_matches_of_native ahead_tracks ahead_respects.minds fun name c hf => ?_).follows
    refine native_matches ahead_respects.toAbides name (fun _ => ahead_pauses)
      (fun _ => sleep_matches ahead_respects.heeds ahead_pauses ahead_sleeps) fun hc => ?_
    subst hc
    exact absurd ⟨name, hf⟩ hquote

theorem redefinitionMode?_congr {t u : Token} (h : t.content = u.content) :
    redefinitionMode? t = redefinitionMode? u := by
  unfold redefinitionMode?
  rw [Token.value_of_content h, Token.literal_of_content h]

private theorem redefinition_congr (permanent : Bool) {t u : Token} (h : t.content = u.content) :
    redefinition permanent t = redefinition permanent u := by
  unfold redefinition
  rw [Token.value_of_content h]

private theorem interpret_congr {t u : Token} (h : t.content = u.content) :
    interpret t = interpret u := by
  rw [interpret_eq, interpret_eq, tryRedefinition_eq, tryRedefinition_eq,
    redefinition_congr false h]
  unfold readAs meaning
  rw [Token.value_of_content h, Token.literal_of_content h]

private theorem redirection_follows (permanent : Bool) (name : String) (mode : Mode)
    (form form' : String) :
    Follows (Ahead later before parsed)
      (do
        discard nextToken
        match ← nextToken with
        | none => fail (.missingTarget form)
        | some target =>
          redirect mode name target.value permanent
          return true : Run Bool)
      (do
        discard nextToken
        match ← nextToken with
        | none => fail (.missingTarget form')
        | some target =>
          redirect mode name target.value permanent
          return true) := by
  intro m n m' handled h hm
  rw [discard_bind] at hm ⊢
  rcases nextToken_ahead h with ⟨s, hs, hempty⟩ | ⟨t, u, m₁, n₁, ht, hu, -, h₁⟩
  · have hnone := nextToken_of_exhausted hs hempty
    rw [on_bind_ok hnone, on_bind_ok hnone] at hm
    cases hm
  · rw [on_bind_ok ht] at hm
    rw [on_bind_ok hu]
    refine needToken_follows (c := .missingTarget form) rfl (fun t u htu => ?_) h₁ hm
    dsimp only
    rw [Token.value_of_content htu]
    exact ((redirect_matches ahead_respects.minds mode name u.value permanent).bind fun _ =>
      Matches.pure true).follows

def Plain (later : List (String × Bool)) : Prop :=
  ∀ t : Token, later.head? = some t.content → redefinitionMode? t = none

theorem plain_of_head? {ts : List Token} (h : ∀ t ∈ ts.head?, redefinitionMode? t = none) :
    Plain (ts.map Token.content) := by
  intro t ht
  cases ts with
  | nil => cases ht
  | cons u us =>
    have hu : u.content = t.content := Option.some.inj ht
    rw [← redefinitionMode?_congr hu]
    exact h u rfl

private theorem redefinition_ahead (permanent : Bool) (name : Token)
    (h : Ahead later before parsed m n) {m' : Machine} {handled : Bool}
    (hm : (redefinition permanent name).on m = (.ok handled, m')) :
    (∃ n', (redefinition permanent name).on n = (.ok handled, n') ∧
      Ahead later before parsed m' n') ∨
    (permanent = false ∧ handled = false ∧ m'.pending = m.pending ∧
      (∃ s, m'.source = some s ∧ s.Holds []) ∧ ¬ Plain later) := by
  obtain ⟨t, u, m₁, n₁, hpeek, hpeek', hpending, h₁, hsame | ⟨rfl, hlater, hempty⟩⟩ :=
    peekToken_ahead h
  · refine .inl ?_
    unfold redefinition at hm ⊢
    rw [on_bind_ok hpeek] at hm
    rw [on_bind_ok hpeek']
    cases t with
    | none =>
      have hu : u = none := Option.map_eq_none_iff.mp hsame.symm
      subst hu
      cases permanent with
      | true => cases hm
      | false =>
        cases hm
        exact ⟨n₁, rfl, h₁⟩
    | some form =>
      obtain ⟨form', rfl, hform⟩ := Option.map_eq_some_iff.mp hsame.symm
      dsimp only at hm ⊢
      rw [redefinitionMode?_congr hform]
      cases hmode : redefinitionMode? form with
      | none =>
        rw [hmode] at hm
        cases permanent with
        | true => cases hm
        | false =>
          cases hm
          exact ⟨n₁, rfl, h₁⟩
      | some mode =>
        rw [hmode] at hm
        exact redirection_follows permanent name.value mode form.value form'.value h₁ hm
  · -- The first line is at its end, and the second may go on with the form of a redefinition.
    unfold redefinition at hm ⊢
    rw [on_bind_ok hpeek] at hm
    rw [on_bind_ok hpeek']
    cases permanent with
    | true => cases hm
    | false =>
      cases hm
      cases u with
      | none => exact .inl ⟨n₁, rfl, h₁⟩
      | some form =>
        dsimp only
        cases hmode : redefinitionMode? form with
        | none => exact .inl ⟨n₁, rfl, h₁⟩
        | some mode =>
          refine .inr ⟨rfl, rfl, hpending, hempty, fun hplain => ?_⟩
          rw [hplain form hlater.symm] at hmode
          cases hmode

private theorem tryRedefinition_ahead (t : Token) (h : Ahead later before parsed m n)
    {m' : Machine} {handled : Bool} (hm : (tryRedefinition t).on m = (.ok handled, m')) :
    (∃ n', (tryRedefinition t).on n = (.ok handled, n') ∧ Ahead later before parsed m' n') ∨
    (handled = false ∧ m'.pending = m.pending ∧ (∃ s, m'.source = some s ∧ s.Holds []) ∧
      ¬ Plain later) := by
  rw [tryRedefinition_eq] at hm ⊢
  by_cases htilde : t.value = "~"
  · rw [if_pos htilde] at hm ⊢
    rcases nextToken_ahead h with ⟨s, hs, hempty⟩ | ⟨name, name', m₁, n₁, ht, hu, hname, h₁⟩
    · rw [on_bind_ok (nextToken_of_exhausted hs hempty)] at hm
      cases hm
    · rw [on_bind_ok ht] at hm
      rw [on_bind_ok hu]
      dsimp only at hm ⊢
      rw [← redefinition_congr true hname]
      rcases redefinition_ahead true name h₁ hm with hfollow | ⟨htrue, -⟩
      · exact .inl hfollow
      · cases htrue
  · rw [if_neg htilde] at hm ⊢
    rcases redefinition_ahead false t h hm with hfollow | ⟨-, hrest⟩
    · exact .inl hfollow
    · exact .inr hrest

private theorem readAs_follows (t : Token) :
    Follows (Ahead later before parsed) (readAs t) (readAs t) := by
  refine (meaning_matches ahead_respects.minds t).follows.bind fun w => ?_
  cases w with
  | none => exact (Matches.pure _).follows
  | some w =>
    refine Follows.get_bind fun m n h => ?_
    rw [ahead_reads.pending h]
    cases n.pending with
    | some p =>
      exact ((compileWord_matches ahead_respects.minds ahead_reads p w).bind fun _ =>
        Matches.pure _).follows
    | none =>
      dsimp only [enact]
      split
      · rename_i code act hw
        refine (expectName_follows code).bind fun name => ?_
        exact ((defining_matches ahead_respects.heeds ahead_reads hw name).bind fun _ =>
          Matches.pure _).follows
      · exact (Matches.pure _).follows

end Tokens

section Ends

variable {m m' : Machine}

private theorem spoken_endures : Endures Machine.Spoken where
  work := fun _ _ h _ => h
  write := fun _ _ h => h
  emit := fun _ _ h _ => h
  note := fun _ _ h => h
  wake := fun _ _ h _ => h

private theorem spoken_pauses : Pauses (Itself Machine.Spoken) where
  continuations := by
    rintro m _ ⟨rfl, -⟩
    rfl
  pause := by
    rintro m _ ⟨rfl, h⟩
    exact ⟨rfl, h⟩
  hold := by
    rintro m _ ⟨rfl, h⟩
    exact ⟨rfl, h⟩
  await := by
    rintro m _ ⟨rfl, h⟩
    exact ⟨rfl, h⟩
  touch := by
    rintro m _ ⟨rfl, h⟩
    exact ⟨rfl, h⟩

private theorem spoken_sleeps : Sleeps (Itself Machine.Spoken) where
  scheduler := by
    rintro m _ ⟨rfl, -⟩
    rfl
  record := by
    rintro m _ delay ⟨rfl, h⟩
    exact ⟨rfl, h⟩

private theorem spoken_tracks : Tracks (Itself Machine.Spoken) where
  frames := by
    rintro m _ ⟨rfl, -⟩
    rfl
  setFrames := by
    rintro m _ fs ⟨rfl, h⟩
    exact ⟨rfl, h⟩
  step := by
    rintro m _ ⟨rfl, h⟩
    exact ⟨rfl, h⟩

private theorem nextToken_of_spoken (h : m.Spoken) : nextToken.on m = (.ok none, m) := by
  obtain ⟨-, s, hs, hempty⟩ := h
  exact nextToken_of_exhausted hs hempty

private theorem advance_spoken (f : Frame) : Keeps Machine.Spoken (advance f) := by
  have hR := spoken_endures.respects
  have hquote : Keeps Machine.Spoken (task .quote) := by
    refine Keeps.of_on fun m h => ?_
    rw [task, on_bind_ok (nextToken_of_spoken h)]
    exact h
  refine advance_matches_of_native spoken_tracks hR fun name c _ => ?_
  exact native_matches hR name (fun _ => spoken_pauses)
    (fun _ => sleep_matches hR spoken_pauses spoken_sleeps) fun _ => hquote

private theorem spoken_of_readAs (t : Token) {w : Option Word} (h : m.Spoken)
    (hread : (readAs t).on m = (.ok w, m')) : m'.Spoken := by
  obtain ⟨found, m₁, hmeaning, hread⟩ := on_bind_eq_ok hread
  have h₁ : m₁.Spoken := by
    have hkept : Keeps Machine.Spoken (meaning t) := meaning_matches spoken_endures.respects t
    have hm₁ := hkept.on h
    rwa [hmeaning] at hm₁
  cases found with
  | none =>
    cases hread
    exact h₁
  | some v =>
    dsimp only at hread
    rw [on_get_bind, h₁.1] at hread
    dsimp only [enact] at hread
    split at hread
    · rename_i code act _
      obtain ⟨name, m₂, hname, -⟩ := on_bind_eq_ok hread
      rw [expectName, on_bind_ok (nextToken_of_spoken h₁)] at hname
      cases hname
    · cases hread
      exact h₁

private theorem Ends.spoken {o : Except Failure Bool} (h : Ends m o m') (hm : m.Spoken) :
    m'.Spoken := by
  have hturn {m : Machine} (hm : m.Spoken) : (turn.on m).2.Spoken := by
    obtain hpaused | ⟨f, fs, hready⟩ | hready := ready_or_paused m
    · rw [turn_paused hpaused]
      exact hm
    · rw [turn_frame hready]
      exact Keeps.on ((advance_spoken f).bind fun _ => Matches.pure none) hm
    · rw [turn_token hready, takeToken, on_bind_ok (nextToken_of_spoken hm)]
      exact hm
  induction h with
  | stop h | fail h =>
    have hnext := hturn hm
    rwa [h] at hnext
  | step h _ ih =>
    have hnext := hturn hm
    rw [h] at hnext
    exact ih hnext

variable {later : List (String × Bool)} {before : String} {parsed : List String} {n : Machine}

private theorem interpret_ahead (t : Token) {w : Option Word}
    (h : Ahead later before parsed m n) (hm : (interpret t).on m = (.ok w, m'))
    (hplain : Plain later ∨ ¬ m'.Spoken) :
    ∃ n', (interpret t).on n = (.ok w, n') ∧ Ahead later before parsed m' n' := by
  rw [interpret_eq, on_get_bind] at hm ⊢
  rw [← ahead_reads.pending h]
  cases hcond : m.pending.isNone && !t.literal with
  | false =>
    rw [hcond] at hm
    exact readAs_follows t h hm
  | true =>
    rw [hcond, if_pos rfl] at hm
    rw [if_pos rfl]
    obtain ⟨handled, m₁, htry, hm⟩ := on_bind_eq_ok hm
    rcases tryRedefinition_ahead t h htry with
      ⟨n₁, hn₁, h₁⟩ | ⟨rfl, hpending, hempty, hnot⟩
    · rw [on_bind_ok hn₁]
      cases handled with
      | true =>
        cases hm
        exact ⟨n₁, rfl, h₁⟩
      | false => exact readAs_follows t h₁ hm
    · have hnone : m.pending = none := by
        have hisNone := (Bool.and_eq_true_iff.mp hcond).1
        exact Option.isNone_iff_eq_none.mp hisNone
      have hspoken : m'.Spoken := spoken_of_readAs t ⟨hpending.trans hnone, hempty⟩ hm
      rcases hplain with hplain | hopen
      · exact absurd hplain hnot
      · exact absurd hspoken hopen

private theorem turn_ahead (h : Ahead later before parsed m n)
    (hm : turn.on m = (.ok none, m')) (hplain : Plain later ∨ ¬ m'.Spoken) :
    ∃ n', turn.on n = (.ok none, n') ∧ Ahead later before parsed m' n' := by
  have hpaused : n.paused = m.paused := by
    obtain ⟨e, rfl, -⟩ := h
    rfl
  have hframes : n.frames = m.frames := (ahead_tracks.frames h).symm
  obtain hp | ⟨f, fs, hready⟩ | hready := ready_or_paused m
  · rw [turn_paused hp] at hm
    cases hm
  · rw [turn_frame hready] at hm
    rw [turn_frame ⟨hpaused.trans hready.1, hframes.trans hready.2⟩]
    exact ((advance_follows f).bind fun _ => (Matches.pure none).follows) h hm
  · rw [turn_token hready, takeToken] at hm
    rw [turn_token ⟨hpaused.trans hready.1, hframes.trans hready.2⟩, takeToken]
    rcases nextToken_ahead h with ⟨s, hs, hempty⟩ | ⟨t, u, m₁, n₁, ht, hu, htu, h₁⟩
    · rw [on_bind_ok (nextToken_of_exhausted hs hempty)] at hm
      cases hm
    · rw [on_bind_ok ht] at hm
      rw [on_bind_ok hu]
      obtain ⟨w, m₂, hinterpret, hm⟩ := on_bind_eq_ok hm
      cases w with
      | none =>
        cases hm
        obtain ⟨n₂, hn₂, h₂⟩ := interpret_ahead t h₁ hinterpret hplain
        rw [interpret_congr htu] at hn₂
        exact ⟨n₂, on_bind_ok hn₂ _, h₂⟩
      | some w =>
        cases hm
        obtain ⟨n₂, hn₂, e, rfl, hsource, l, hl, hparsed⟩ := interpret_ahead t h₁ hinterpret hplain
        rw [interpret_congr htu] at hn₂
        refine ⟨_, on_bind_ok hn₂ _, ?_⟩
        refine ⟨{ e with line := { e.line with parsed := u.value :: e.line.parsed } }, rfl,
          hsource, { l with parsed := t.value :: l.parsed }, ?_, ?_⟩
        · change m₂.line.map _ = _
          rw [hl]
          rfl
        · change u.value :: e.line.parsed = t.value :: l.parsed ++ parsed
          rw [hparsed, Token.value_of_content htu]
          rfl

/-- A line that comes to its end takes the second line as far as its own tokens go, unless it closed
its definitions and the second goes on with the form of a redefinition. -/
theorem Ends.ahead (h : Ends m (.ok true) m') (hR : Ahead later before parsed m n)
    (hplain : Plain later ∨ m'.pending.isSome = true) :
    ∃ n', Ahead later before parsed m' n' ∧ (∃ s, m'.source = some s ∧ s.Holds []) ∧
      ∀ o k, Ends n' o k → Ends n o k := by
  generalize ho : (.ok true : Except Failure Bool) = o at h
  induction h generalizing n with
  | fail h => cases ho
  | @stop m m' done h =>
    cases ho
    obtain hp | ⟨f, fs, hready⟩ | hready := ready_or_paused m
    · rw [turn_paused hp] at h
      cases h
    · rw [turn_frame hready] at h
      obtain ⟨_, _, -, h⟩ := on_bind_eq_ok h
      cases h
    · rw [turn_token hready, takeToken] at h
      rcases nextToken_ahead hR with ⟨s, hs, hempty⟩ | ⟨t, u, m₁, n₁, ht, -, -, -⟩
      · rw [on_bind_ok (nextToken_of_exhausted hs hempty)] at h
        cases h
        exact ⟨n, hR, ⟨s, hs, hempty⟩, fun _ _ hend => hend⟩
      · rw [on_bind_ok ht] at h
        obtain ⟨w, m₂, -, h⟩ := on_bind_eq_ok h
        cases w <;> cases h
  | @step m m₁ m' o h hrest ih =>
    have hplain₁ : Plain later ∨ ¬ m₁.Spoken := by
      refine hplain.imp id fun hopen hspoken => ?_
      rw [(hrest.spoken hspoken).1] at hopen
      cases hopen
    obtain ⟨n₁, hturn, h₁⟩ := turn_ahead hR h hplain₁
    obtain ⟨n', h', hempty, hgo⟩ := ih h₁ hplain ho
    exact ⟨n', h', hempty, fun o k hend => .step hturn (hgo o k hend)⟩

theorem Ends.beside (h : Ends m (.ok true) m') (hR : Ahead [] before parsed m n) :
    ∃ n', Ahead [] before parsed m' n' ∧ Ends n (.ok true) n' := by
  have hplain : Plain [] := fun _ hhead => by cases hhead
  obtain ⟨n', h', ⟨s, hs, hempty⟩, hgo⟩ := h.ahead hR (.inl hplain)
  refine ⟨n', h', hgo _ _ ?_⟩
  obtain ⟨hpaused, hframes⟩ : Ready [] m' := h.stopped
  obtain ⟨e, rfl, ⟨s', cs, hs', hcs, hlater⟩, -⟩ := h'
  have hnil : cs = [] := by
    rw [hs] at hs'
    cases hs'
    exact hcs.unique hempty
  subst hnil
  have hready : Ready [] (m'.elsewhere before e) := ⟨hpaused, hframes⟩
  refine .stop ?_
  rw [turn_token hready, takeToken, on_bind_ok (nextToken_of_exhausted rfl hlater)]
  rfl

end Ends

end Run

end Forthline
