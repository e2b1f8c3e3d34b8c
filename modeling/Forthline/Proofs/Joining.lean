import Forthline.Proofs.Ahead
import Forthline.Proofs.Reachable

/-!
# Line breaks do not matter

Two lines that are read one after the other, and the one line that they make when they are joined,
lead to the same end. The joined line is ahead of the first line by the tokens of the second, and
where the first line ends it is beside the second.
-/

namespace Forthline

namespace Run

theorem ends_of_finished {fuel : Nat} {text : String} {m m' : Machine} {r : LineResult}
    (hm : (m.line.isSome || m.paused || m.running) = false)
    (h : (readLine fuel text).on m = (.ok r, m')) (hpaused : r.paused = false)
    (hfailure : r.failure = none) :
    ∃ n e map, (m.begun text).Logged n ∧ Ends { n with running := true } (.ok true) e ∧
      e.memory.map = .ok map ∧
      r = Machine.result { e with running := false } map (.ok true) ∧
      (Machine.concluded { e with running := false } map (.ok true)).Logged m' := by
  obtain ⟨n, hn, -, hread⟩ := readLine_of_free hm text
  rw [hread] at h
  obtain ⟨o, e, hline, hdrive⟩ := drive_cases (m := n) (by rw [h]; exact nofun)
  rw [hdrive] at h
  have hends := (continueLine_iff_ends _ _ _).mp ⟨fuel, hline⟩
  cases hmap : e.memory.map with
  | error c =>
    obtain ⟨k, -, hconclude⟩ := conclude_of_error (m := { e with running := false }) hmap o
    rw [hconclude] at h
    cases h
  | ok map =>
    obtain ⟨k, hk, hconclude⟩ := conclude_of_map (m := { e with running := false }) hmap o
    rw [hconclude] at h
    cases h
    rcases o with f | _ | _
    · cases hfailure
    · cases hpaused
    · exact ⟨n, e, map, hn, hends, hmap, rfl, hk⟩

theorem finished_of_ends {text : String} {m n e : Machine} {map : MemoryMap}
    (hread : ∀ fuel, (readLine fuel text).on m = (drive fuel).on n)
    (h : Ends { n with running := true } (.ok true) e) (hmap : e.memory.map = .ok map) :
    ∃ k m', (Machine.concluded { e with running := false } map (.ok true)).Logged m' ∧
      ∀ fuel, k ≤ fuel → (readLine fuel text).on m =
        (.ok (Machine.result { e with running := false } map (.ok true)), m') := by
  obtain ⟨k, hdrive⟩ := drive_of_ends h
  obtain ⟨m', hm', hconclude⟩ :=
    conclude_of_map (m := { e with running := false }) hmap (.ok true)
  refine ⟨k, m', hm', fun fuel hfuel => ?_⟩
  rw [hread, hdrive fuel hfuel, hconclude]

private theorem ahead_begun {m a n : Machine} {first joined : String} {us ts : List Token}
    {later : List (String × Bool)} (hfirst : tokenize first = .ok us)
    (hjoined : tokenize joined = .ok ts)
    (hcontent : ts.map Token.content = us.map Token.content ++ later)
    (ha : (m.begun first).Logged a) (hn : (m.begun joined).Logged n) :
    Ahead later "" [] { a with running := true } { n with running := true } := by
  obtain ⟨entries, events, rfl⟩ := ha
  obtain ⟨entries', events', rfl⟩ := hn
  refine ⟨{
    source := Stream.ofText joined
    line := { text := joined, returnDepth := m.returns.depth }
    entries := entries'
    events := events'
    linesRead := m.linesRead + 1
    lastResult := m.lastResult
    running := true }, ?_, ⟨_, _, rfl, Stream.holds_ofText hfirst, ?_⟩, _, rfl, rfl⟩
  · simp [Machine.elsewhere, Machine.begun]
  · rw [← hcontent]
    exact Stream.holds_ofText hjoined

private theorem beside_begun {e a b n : Machine} {second : String} {vs : List Token}
    {map : MemoryMap} {l : Line} (hsecond : tokenize second = .ok vs) (hl : e.line = some l)
    (hempty : ∃ s, e.source = some s ∧ s.Holds [])
    (h : Ahead (vs.map Token.content) "" [] e n)
    (ha : (Machine.concluded { e with running := false } map (.ok true)).Logged a)
    (hb : (a.begun second).Logged b) :
    Ahead [] e.output l.parsed { b with running := true } n := by
  obtain ⟨there, rfl, ⟨s, cs, hs, hcs, hlater⟩, l', hl', hparsed⟩ := h
  obtain ⟨s', hs', hnil⟩ := hempty
  rw [hs] at hs'
  cases hs'
  rw [hcs.unique hnil, List.nil_append] at hlater
  rw [hl] at hl'
  cases hl'
  obtain ⟨_, _, rfl⟩ := ha
  obtain ⟨_, _, rfl⟩ := hb
  refine ⟨there, ?_, ⟨_, _, rfl, Stream.holds_ofText hsecond, ?_⟩, _, rfl, ?_⟩
  · simp [Machine.elsewhere, Machine.begun, Machine.concluded, Machine.closed, Machine.ended]
  · rwa [List.append_nil]
  · rw [hparsed, List.append_nil]
    rfl

/-- Line breaks do not matter. Two lines that an idle machine reads one after the other, and that
both end without failure and without pause, can be joined if that leaves their tokens as they are,
and if the first leaves a definition open or the second does not begin with the form of a
redefinition. -/
theorem joined_lines_end_alike {m a b : Machine} {first second : String} {us vs ts : List Token}
    {fuel fuel' : Nat} {r r' : LineResult} (hm : m.Idle)
    (hfirst : tokenize first = .ok us) (hsecond : tokenize second = .ok vs)
    (hjoined : tokenize (first ++ " " ++ second) = .ok ts)
    (hcontent : ts.map Token.content = us.map Token.content ++ vs.map Token.content)
    (ha : (readLine fuel first).on m = (.ok r, a)) (hr : r.paused = false ∧ r.failure = none)
    (hb : (readLine fuel' second).on a = (.ok r', b)) (hr' : r'.paused = false ∧ r'.failure = none)
    (hbreak : a.pending.isSome = true ∨ ∀ t ∈ vs.head?, redefinitionMode? t = none) :
    ∃ k s c, (∀ fuel, k ≤ fuel → (readLine fuel (first ++ " " ++ second)).on m = (.ok s, c)) ∧
      s.paused = false ∧ s.failure = none ∧ c.SameEnd b ∧ s.parsed = r.parsed ++ r'.parsed ∧
      ∃ written, r.output = written ++ (if a.pending.isNone then a.marker else "") ∧
        s.output = written ++ r'.output := by
  obtain ⟨na, ea, mapa, hna, hendsa, -, hra, hca⟩ := ends_of_finished hm.free ha hr.1 hr.2
  have hreadya : Ready [] ea := hendsa.stopped
  have hfree : (a.line.isSome || a.paused || a.running) = false := by
    obtain ⟨_, _, rfl⟩ := hca
    change (false || ea.paused || false) = false
    rw [hreadya.1]
    rfl
  obtain ⟨nb, eb, mapb, hnb, hendsb, hmapb, hrb, hcb⟩ := ends_of_finished hfree hb hr'.1 hr'.2
  obtain ⟨n, hn, -, hread⟩ := readLine_of_free hm.free (first ++ " " ++ second)
  have hplain : Plain (vs.map Token.content) ∨ ea.pending.isSome = true := by
    rcases hbreak with hopen | hhead
    · refine .inr ?_
      obtain ⟨_, _, rfl⟩ := hca
      exact hopen
    · exact .inl (plain_of_head? hhead)
  obtain ⟨n₁, h₁, hempty, hgo⟩ :=
    hendsa.ahead (ahead_begun hfirst hjoined hcontent hna hn) hplain
  obtain ⟨la, hla⟩ : ∃ l, ea.line = some l := by
    obtain ⟨_, -, -, l, hl, -⟩ := h₁
    exact ⟨l, hl⟩
  obtain ⟨n₂, h₂, hends⟩ := hendsb.beside (beside_begun hsecond hla hempty h₁ hca hnb)
  obtain ⟨there, rfl, -, lb, hlb, hparsed⟩ := h₂
  have hreadyb : Ready [] eb := hendsb.stopped
  obtain ⟨k, c, hc, hfinished⟩ := finished_of_ends hread (hgo _ _ hends) hmapb
  refine ⟨k, _, c, hfinished, rfl, rfl, ?_, ?_, ea.output, ?_, ?_⟩
  · refine Machine.SameEnd.logged ?_ hc hcb
    exact ⟨rfl, rfl, rfl, rfl, rfl, ⟨hreadyb.2, hreadyb.2⟩, rfl⟩
  · subst hra hrb
    simp [Machine.result, Machine.shown, Machine.ended, Machine.elsewhere, hla, hlb, hparsed]
  · subst hra
    obtain ⟨_, _, rfl⟩ := hca
    change (if ea.pending.isNone then ea.output ++ ea.marker else ea.output) =
      ea.output ++ if ea.pending.isNone then ea.marker else ""
    split
    · rfl
    · simp
  · subst hrb
    change (if eb.pending.isNone then (ea.output ++ eb.output) ++ eb.marker
        else ea.output ++ eb.output) =
      ea.output ++ if eb.pending.isNone then eb.output ++ eb.marker else eb.output
    split
    · rw [String.append_assoc]
    · rfl

private def firstHalf : Except Stop LineResult × Machine :=
  (readLine 100 ": square dup").on Session.builtin

private def secondHalf : Except Stop LineResult × Machine :=
  (readLine 100 "* ; 3 square").on firstHalf.2

theorem finished_of_any {o : Except Stop LineResult × Machine}
    (h : o.1.toOption.any (fun r => !r.paused && r.failure.isNone) = true) :
    ∃ r, o = (.ok r, o.2) ∧ r.paused = false ∧ r.failure = none := by
  obtain ⟨r, hr, ho⟩ := result_of_any h
  rw [Bool.and_eq_true, Bool.not_eq_true', Option.isNone_iff_eq_none] at hr
  exact ⟨r, ho, hr⟩

/-- A definition can be split over lines. -/
theorem split_definition_joins :
    Session.builtin.Idle ∧ firstHalf.2.pending.isSome = true ∧
    ∃ k s c, (∀ fuel, k ≤ fuel →
        (readLine fuel (": square dup" ++ " " ++ "* ; 3 square")).on Session.builtin =
          (.ok s, c)) ∧
      s.failure = none ∧ c.stack = secondHalf.2.stack := by
  have hopen : firstHalf.2.pending.isSome = true := by decide +kernel
  obtain ⟨r, hfirst, hr⟩ := finished_of_any (o := firstHalf) (by decide +kernel)
  obtain ⟨r', hsecond, hr'⟩ := finished_of_any (o := secondHalf) (by decide +kernel)
  have hread : (readLine 100 ": square dup").on Session.builtin = (.ok r, firstHalf.2) := hfirst
  have hread' : (readLine 100 "* ; 3 square").on firstHalf.2 = (.ok r', secondHalf.2) := hsecond
  have htokens : tokenize ": square dup" =
      .ok [⟨":", false, 1⟩, ⟨"square", false, 3⟩, ⟨"dup", false, 10⟩] := rfl
  have htokens' : tokenize "* ; 3 square" =
      .ok [⟨"*", false, 1⟩, ⟨";", false, 3⟩, ⟨"3", false, 5⟩, ⟨"square", false, 7⟩] := rfl
  have hjoined : tokenize (": square dup" ++ " " ++ "* ; 3 square") =
      .ok [⟨":", false, 1⟩, ⟨"square", false, 3⟩, ⟨"dup", false, 10⟩, ⟨"*", false, 14⟩,
        ⟨";", false, 16⟩, ⟨"3", false, 18⟩, ⟨"square", false, 20⟩] := rfl
  obtain ⟨k, s, c, hread, -, hfailure, hsame, -⟩ :=
    joined_lines_end_alike Session.builtin_idle htokens htokens' hjoined rfl hread hr hread' hr'
      (.inl hopen)
  exact ⟨Session.builtin_idle, hopen, k, s, c, hread, hfailure, hsame.stack⟩

end Run

end Forthline
