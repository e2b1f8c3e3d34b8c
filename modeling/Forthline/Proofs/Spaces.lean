import Forthline.Proofs.CountedLoops
import Forthline.Proofs.Legible
import Forthline.Proofs.Library

/-!
# Writing spaces

The word `spaces` of the library counts from zero up to the number it is given and writes a space
at each index. For a positive number that many spaces are written. For zero the loop has its limit
where it starts, so it counts away from it and never ends.
-/

namespace Forthline

def spaceBody (f : List Value → Except Cause (List Value)) : List Node :=
  [.action (.native "32" (.push (.int 32))), .action (.native "emit" (.function 1 .text f))]

def spaceWord (f : List Value → Except Cause (List Value)) : Word :=
  .definition "space" (spaceBody f) false

def spacesWord (f : List Value → Except Cause (List Value)) : Word :=
  .definition "spaces"
    [.action (.native "0" (.push (.int 0))), .counted [.action (spaceWord f)] false] false

def spaces (n : Nat) : String := String.ofList (List.replicate n ' ')

theorem spaces_succ (n : Nat) : spaces (n + 1) = spaces n ++ " " := by
  rw [spaces, spaces, List.replicate_succ', String.ofList_append]

def spacesLoop (f : List Value → Except Cause (List Value)) (n : Int) : CountedLoop where
  body := [.action (spaceWord f)]
  stepped := false
  start := 0
  limit := n
  below := [.sequence [], .sequence []]

theorem spacesLoop_covers (f : List Value → Except Cause (List Value)) (n i : Int) :
    (spacesLoop f n).Covers i ↔ if 0 < n then i < n else n ≤ i := Iff.rfl

def Machine.spaced (m : Machine) (k : Nat) : Machine :=
  { m with steps := m.steps + 3 * k, output := m.output ++ spaces k }

theorem Machine.spaced_zero (m : Machine) : m.spaced 0 = m := by
  rw [spaced, spaces, List.replicate_zero, String.ofList_nil, String.append_empty]
  rfl

theorem Machine.spaced_succ (m : Machine) (k : Nat) : m.spaced (k + 1) =
    { m.spaced k with steps := (m.spaced k).steps + 3, output := (m.spaced k).output ++ " " } := by
  simp only [spaced, spaces_succ, String.append_assoc]
  rfl

namespace Run

theorem Turned.turn {m m' : Machine} (h : Turned m m') : turn.on m = (.ok none, m') := by
  obtain ⟨f, fs, hm, hturn⟩ := h
  rw [turn_frame hm, on_bind_ok hturn]
  rfl

theorem Turned.reaches {m m' n : Machine} (h : Turned m m') (hn : Reaches m' n) : Reaches m n :=
  .step h.turn hn

theorem Reaches.trans {m n k : Machine} (h : Reaches m n) (h' : Reaches n k) : Reaches m k := by
  induction h with
  | refl => exact h'
  | step hturn _ ih => exact .step hturn (ih h')

theorem Reaches.ends_of {m n e : Machine} {o : Except Failure Bool} (h : Reaches m n)
    (hn : Ends n o e) : Ends m o e := by
  induction h with
  | refl => exact hn
  | step hturn _ ih => exact .step hturn (ih hn)

/-- A line that comes again and again to machines of some kind does not end. -/
theorem not_ends_of_recurrent {S : Machine → Prop}
    (hS : ∀ m, S m → ∃ m₁ n, Turned m m₁ ∧ Reaches m₁ n ∧ S n)
    {m n e : Machine} {o : Except Failure Bool} (hm : Reaches m n) (hn : S n) : ¬Ends m o e := by
  intro h
  induction h generalizing n with
  | stop hturn | fail hturn =>
    cases hm with
    | refl =>
      obtain ⟨m₁, n', hgo, -⟩ := hS _ hn
      rw [hgo.turn] at hturn
      cases hturn
    | step hgo _ =>
      rw [hturn] at hgo
      cases hgo
  | step hturn _ ih =>
    cases hm with
    | refl =>
      obtain ⟨m₁, n', hgo, hreaches, hn'⟩ := hS _ hn
      rw [hgo.turn] at hturn
      cases hturn
      exact ih hreaches hn'
    | step hgo hreaches =>
      rw [hturn] at hgo
      cases hgo
      exact ih hreaches hn

section Words

variable {m : Machine} {g : List Frame} {f : List Value → Except Cause (List Value)}

theorem turned_done (hm : m.paused = false) :
    Turned { m with frames := .sequence [] :: g } { m with frames := g } :=
  ⟨_, _, ⟨hm, rfl⟩, rfl⟩

theorem turned_push (hm : m.paused = false) (name : String) (v : Value) (rest : List Node) :
    Turned { m with frames := .sequence (.action (.native name (.push v)) :: rest) :: g }
      { m with
        frames := .sequence rest :: g, steps := m.steps + 1, stack := m.stack.push v } :=
  ⟨_, _, ⟨hm, rfl⟩, (advance_native name (.push v) rest _).trans (native_of_ok name rfl)⟩

theorem turned_call (hm : m.paused = false) (name : String) (body rest : List Node)
    (permanent : Bool) :
    Turned { m with frames := .sequence (.action (.definition name body permanent) :: rest) :: g }
      { m with frames := .sequence body :: .sequence rest :: g, steps := m.steps + 1 } :=
  ⟨_, _, ⟨hm, rfl⟩, rfl⟩

private theorem code_speak {x : Value} {text : String} {s : Stack} (hf : f [x] = .ok [.text text])
    (hstack : m.stack = s.push x) :
    (code (.function 1 .text f)).on m =
      (.ok (), { m with stack := s, output := m.output ++ text }) := by
  have hpop : (popMany 1).on m = (.ok [x], { m with stack := s }) := by
    rw [popMany, on_bind_ok (pop_of_push hstack)]
    rfl
  rw [code, on_bind_ok hpop, hf]
  rfl

private theorem turned_speak {x : Value} {text : String} {s : Stack} (hm : m.paused = false)
    (hf : f [x] = .ok [.text text]) (hstack : m.stack = s.push x) (name : String)
    (rest : List Node) :
    Turned
      { m with frames := .sequence (.action (.native name (.function 1 .text f)) :: rest) :: g }
      { m with
        frames := .sequence rest :: g
        steps := m.steps + 1
        stack := s
        output := m.output ++ text } :=
  ⟨_, _, ⟨hm, rfl⟩, (advance_native name _ rest _).trans (native_of_ok name (code_speak hf hstack))⟩

private theorem space_reaches (hm : m.paused = false) (hf : f [.int 32] = .ok [.text " "]) :
    ∃ m₁, Turned { m with frames := .sequence [.action (spaceWord f)] :: g } m₁ ∧
      Reaches m₁ { m with frames := g, steps := m.steps + 3, output := m.output ++ " " } := by
  refine ⟨_, turned_call hm "space" (spaceBody f) [] false, ?_⟩
  refine (turned_push (m := { m with steps := m.steps + 1 }) hm "32" (.int 32) _).reaches ?_
  refine (turned_speak (m := { m with steps := m.steps + 2, stack := m.stack.push (.int 32) }) hm hf
    rfl "emit" []).reaches ?_
  refine (turned_done (m := { m with steps := m.steps + 3, output := m.output ++ " " }) hm).reaches
    ?_
  exact (turned_done (m := { m with steps := m.steps + 3, output := m.output ++ " " }) hm).reaches
    (.refl _)

section Loop

variable {l : CountedLoop} {i : Int}

private theorem visited_frames (gs : List Frame) :
    l.visited i { m with frames := gs } = l.visited i m := by
  unfold CountedLoop.visited
  split <;> rfl

private theorem turned_first (hm : Ready (l.frame i false :: l.below) m) :
    Turned m (l.visited i m) :=
  ⟨_, _, hm, CountedLoop.advance_first hm⟩

private theorem turned_next {r : Stack} {v : Value} (hstepped : l.stepped = false)
    (hm : Ready (l.frame i true :: l.below) m) (hreturns : m.returns = r.push v) :
    Turned m (l.visited (i + 1) { m with returns := r }) := by
  have hnext := nextIndex_plain hreturns i
  rw [← hstepped] at hnext
  exact ⟨_, _, hm, CountedLoop.advance_next hm hnext rfl⟩

private theorem lap_reaches {n : Int} {k : Nat} (hm : m.paused = false)
    (hf : f [.int 32] = .ok [.text " "]) (hk : (spacesLoop f n).Covers k) :
    ∃ m₁, Turned ((spacesLoop f n).visited k (m.spaced k)) m₁ ∧
      Reaches m₁ ((spacesLoop f n).visited (k + 1 : Nat) (m.spaced (k + 1))) := by
  let b := m.spaced k
  obtain ⟨m₁, hturned, hreaches⟩ := space_reaches
    (m := { b with returns := b.returns.push (.int k) })
    (g := (spacesLoop f n).frame k true :: (spacesLoop f n).below) hm hf
  refine ⟨m₁, ?_, hreaches.trans ?_⟩
  · rw [CountedLoop.visited, if_pos hk]
    exact hturned
  · have hnext := turned_next (l := spacesLoop f n) (i := k) (r := b.returns) (v := .int k)
      (m := { b with
        returns := b.returns.push (.int k)
        frames := (spacesLoop f n).frame k true :: (spacesLoop f n).below
        steps := b.steps + 3
        output := b.output ++ " " }) rfl ⟨hm, rfl⟩ rfl
    rw [m.spaced_succ, ← visited_frames ((spacesLoop f n).frame k true :: (spacesLoop f n).below)]
    exact hnext.reaches (.refl _)

private theorem laps_reach {n : Int} (hm : m.paused = false) (hf : f [.int 32] = .ok [.text " "])
    (k : Nat) (hk : k ≤ n) (hn : 0 < n) :
    Reaches ((spacesLoop f n).visited 0 m) ((spacesLoop f n).visited k (m.spaced k)) := by
  induction k with
  | zero =>
    rw [m.spaced_zero]
    exact .refl _
  | succ k ih =>
    have hcovers : (spacesLoop f n).Covers k := by
      rw [spacesLoop_covers, if_pos hn]
      omega
    obtain ⟨m₁, hturned, hreaches⟩ := lap_reaches hm hf hcovers
    exact (ih (by omega)).trans (hturned.reaches hreaches)

private theorem loop_reaches {n : Int} (hm : m.paused = false) (hf : f [.int 32] = .ok [.text " "])
    (hn : 0 < n) :
    Reaches ((spacesLoop f n).visited 0 m) { m.spaced n.toNat with frames := [] } := by
  have hlimit : (n.toNat : Int) = n := Int.toNat_of_nonneg (by omega)
  have hleft : ¬(spacesLoop f n).Covers n.toNat := by
    rw [spacesLoop_covers, if_pos hn, hlimit]
    exact Int.lt_irrefl n
  have hlaps := laps_reach hm hf n.toNat (by omega) hn
  have hout : (spacesLoop f n).visited n.toNat (m.spaced n.toNat) =
      { m.spaced n.toNat with frames := [.sequence [], .sequence []] } := if_neg hleft
  rw [hout] at hlaps
  refine hlaps.trans ((turned_done (m := m.spaced n.toNat) hm).reaches ?_)
  exact (turned_done (m := m.spaced n.toNat) hm).reaches (.refl _)

private theorem loop_recurs {n : Int} {e k : Machine} {o : Except Failure Bool}
    (hm : m.paused = false) (hf : f [.int 32] = .ok [.text " "]) (hn : n ≤ 0)
    (hk : Reaches k ((spacesLoop f n).visited 0 m)) : ¬Ends k o e := by
  have hcovers (j : Nat) : (spacesLoop f n).Covers j := by
    rw [spacesLoop_covers, if_neg (Int.not_lt.mpr hn)]
    omega
  apply not_ends_of_recurrent
    (S := fun x => ∃ j : Nat, x = (spacesLoop f n).visited j (m.spaced j)) _ hk
    ⟨0, by rw [m.spaced_zero]; rfl⟩
  rintro _ ⟨j, rfl⟩
  obtain ⟨m₁, hturned, hreaches⟩ := lap_reaches hm hf (hcovers j)
  exact ⟨m₁, _, hturned, hreaches, j + 1, rfl⟩

end Loop

private theorem spaces_reaches (hm : m.paused = false) {s : Stack} {n : Int}
    (hframes : m.frames = [.sequence [.action (spacesWord f)]])
    (hstack : m.stack = s.push (.int n)) :
    Reaches m ((spacesLoop f n).visited 0 { m with stack := s, steps := m.steps + 3 }) := by
  have hcall := turned_call (g := []) hm "spaces"
    [.action (.native "0" (.push (.int 0))), .counted [.action (spaceWord f)] false] [] false
  have hpush := turned_push (m := { m with steps := m.steps + 1 }) (g := [.sequence []]) hm "0"
    (.int 0) [.counted [.action (spaceWord f)] false]
  have hbelow : (spacesLoop f n).below = .sequence [] :: [.sequence []] := rfl
  have hstarted := CountedLoop.started (s := s) hbelow
    (m := { m with
      frames := [.sequence [.counted [.action (spaceWord f)] false], .sequence []]
      steps := m.steps + 2
      stack := m.stack.push (.int 0) }) ⟨hm, rfl⟩ (congrArg (·.push (.int 0)) hstack)
  have hfirst := turned_first (l := spacesLoop f n) (i := 0)
    (m := { m with
      frames := (spacesLoop f n).frame 0 false :: (spacesLoop f n).below
      steps := m.steps + 3
      stack := s }) ⟨hm, rfl⟩
  rw [← spacesWord, ← hframes] at hcall
  refine hcall.reaches (hpush.reaches ?_)
  refine Turned.reaches ⟨_, _, ⟨hm, rfl⟩, hstarted⟩ ?_
  rw [← visited_frames ((spacesLoop f n).frame 0 false :: (spacesLoop f n).below)]
  exact hfirst.reaches (.refl _)

end Words

section Line

variable {m : Machine} {cs : List (String × Bool)} {u : Token} {w : Word}

theorem Stands.takes (hm : Stands m (u.content :: cs)) (hpending : m.pending = none)
    (hliteral : u.literal = false) (hvalue : u.value ≠ "~") (hplain : Plain cs)
    (hmeaning : m.dictionary.meaning? u = .ok (some w)) (hdefining : defining? w = none) :
    ∃ s line, s.Holds cs ∧ turn.on m =
      (.ok none, { m with source := some s, line, frames := [.sequence [.action w]] }) := by
  obtain ⟨t, s, hnext, ht, hs⟩ := hm.nextToken
  obtain ⟨s', hs', hinterpret⟩ := interpret_of_word (t := t) (hm.source hs) hpending
    (by rw [Token.literal_of_content ht, hliteral]) (by rwa [Token.value_of_content ht]) hplain
    ((Dictionary.meaning?_congr _ ht).trans hmeaning) hdefining
  refine ⟨s', m.line.map fun l => { l with parsed := t.value :: l.parsed }, hs', ?_⟩
  rw [turn_token hm.ready, takeToken, on_bind_ok hnext]
  refine (on_bind_ok hinterpret _).trans ?_
  rw [← hm.ready.2]
  rfl

theorem Stands.ends (hm : Stands m []) : Ends m (.ok true) m := by
  refine .stop ?_
  rw [turn_token hm.ready, takeToken, on_bind_ok hm.nextToken_nil]
  rfl

variable {v : Token} {n : Int} {f : List Value → Except Cause (List Value)}

theorem ne_tilde_of_read? {text : String} {x : Number} (h : Numeral.read? text = some x) :
    text ≠ "~" := by
  rintro rfl
  have hnone : (Numeral.read? "~").isNone = true := by decide +kernel
  rw [h] at hnone
  cases hnone

theorem Stands.pushes (hm : Stands m (u.content :: cs)) (hpending : m.pending = none)
    (hnumeral : m.dictionary.lookup u.value = .ok none) (hu : u.literal = false)
    (hn : Numeral.read? u.value = some (.int n)) (hplain : Plain cs) :
    ∃ s line, s.Holds cs ∧ Reaches m
      { m with
        source := some s, line, steps := m.steps + 1, stack := m.stack.push (.int n),
        frames := [] } := by
  have hnumber : m.dictionary.meaning? u = .ok (some (.pusher u.value (.int n))) := by
    rw [Dictionary.meaning?, hu, if_neg Bool.false_ne_true, hnumeral, hn]
    rfl
  obtain ⟨s, line, hs, hturn⟩ := hm.takes hpending hu (ne_tilde_of_read? hn) hplain hnumber rfl
  refine ⟨s, line, hs, .step hturn ?_⟩
  refine (turned_push (m := { m with source := some s, line }) (g := []) hm.ready.1 u.value (.int n)
    []).reaches ?_
  exact (turned_done (g := []) (m := { m with
    source := some s, line, steps := m.steps + 1, stack := m.stack.push (.int n) })
    hm.ready.1).reaches (.refl _)

private theorem line_reaches (hm : Stands m [u.content, v.content]) (hpending : m.pending = none)
    (hnumeral : m.dictionary.lookup u.value = .ok none) (hu : u.literal = false)
    (hn : Numeral.read? u.value = some (.int n)) (hv : v.Spells "spaces")
    (hspaces : m.dictionary.lookup "spaces" = .ok (some (spacesWord f))) :
    ∃ s line, s.Holds [] ∧ Reaches m ((spacesLoop f n).visited 0
      { m with source := some s, line, steps := m.steps + 4 }) := by
  have htilde : v.value ≠ "~" := by
    intro h
    have hlower := hv.2
    rw [h] at hlower
    exact absurd hlower (by decide +kernel)
  have hword : m.dictionary.meaning? v = .ok (some (spacesWord f)) := by
    apply Dictionary.meaning?_of_lookup hv.1
    apply (Dictionary.lookup_of_lower _ _).mpr hspaces
    rw [← hv.2, Text.lower_lower]
  -- The number is pushed before the word is read.
  obtain ⟨s₁, line₁, hs₁, hpush⟩ := hm.pushes hpending hnumeral hu hn
    (plain_of_spells hv (by decide) (by decide))
  let pushed : Machine :=
    { m with
      source := some s₁, line := line₁, steps := m.steps + 1, stack := m.stack.push (.int n),
      frames := [] }
  have hstands : Stands pushed [v.content] := ⟨⟨hm.ready.1, rfl⟩, s₁, rfl, hs₁⟩
  have hlast : Plain [] := by
    intro t ht
    cases ht
  obtain ⟨s₂, line₂, hs₂, hsecond⟩ := hstands.takes hpending hv.1 htilde hlast hword rfl
  refine ⟨s₂, line₂, hs₂, hpush.trans (.step hsecond ?_)⟩
  have hloop := spaces_reaches (f := f) (n := n) (s := m.stack)
    (m := { pushed with
      source := some s₂, line := line₂, frames := [.sequence [.action (spacesWord f)]] })
    hm.ready.1 rfl rfl
  rw [← visited_frames [.sequence [.action (spacesWord f)]]]
  exact hloop

end Line

/-- An idle machine is about to read a line that asks for a number of spaces, and the word `spaces`
is the one of the library. -/
structure AsksSpaces (m : Machine) (text : String) (n : Int) : Prop where
  idle : m.Idle
  pending : m.pending = none
  standard : m.dictionary.lookup "spaces" = Session.standard.dictionary.lookup "spaces"
  written : ∃ u v, tokenize text = .ok [u, v] ∧ v.Spells "spaces" ∧ u.literal = false ∧
    m.dictionary.lookup u.value = .ok none ∧ Numeral.read? u.value = some (.int n)

section Result

variable {m : Machine} {text : String} {n : Int}

private theorem AsksSpaces.reaches (h : AsksSpaces m text n) :
    ∃ (f : List Value → Except Cause (List Value)) (start b : Machine) (s : Stream),
      f [.int 32] = .ok [.text " "] ∧
      (∀ fuel, (readLine fuel text).on m = (drive fuel).on start) ∧
      Reaches { start with running := true } ((spacesLoop f n).visited 0 b) ∧
      s.Holds [] ∧ b.source = some s ∧ b.paused = false ∧ b.pending = none ∧ b.output = "" ∧
      b.memory = m.memory ∧ b.stack = m.stack ∧ b.returns = m.returns ∧ b.marker = m.marker := by
  let f := Builtin.emit
  have hf : f [.int 32] = .ok [.text " "] := rfl
  have hspaces : Session.standard.dictionary.lookup "spaces" = .ok (some (spacesWord f)) :=
    Session.standard_library (e := ("spaces", Library.spaces)) (by simp [Library.words])
  obtain ⟨u, v, htext, hv, hu, hnumeral, hn⟩ := h.written
  obtain ⟨start, ⟨entries, events, rfl⟩, -, hread⟩ := readLine_of_free h.idle.free text
  obtain ⟨s, line, hs, hreaches⟩ := line_reaches (f := f) (n := n) (u := u) (v := v)
    (m := { m.begun text with log := { m.log with entries }, events, running := true })
    ⟨⟨h.idle.paused, h.idle.frames⟩, _, rfl, Stream.holds_ofText htext⟩ h.pending hnumeral hu hn hv
    (h.standard.trans hspaces)
  exact ⟨f, _, _, s, hf, hread, hreaches, hs, rfl, h.idle.paused, h.pending, rfl, rfl, rfl, rfl,
    rfl⟩

private theorem AsksSpaces.exhausted (h : AsksSpaces m text n) (hn : n ≤ 0) (fuel : Nat) :
    ((readLine fuel text).on m).1 = .error .exhausted := by
  obtain ⟨f, start, b, s, hf, hread, hreaches, -, -, hpaused, -⟩ := h.reaches
  by_contra hend
  rw [hread] at hend
  obtain ⟨o, e, hline, -⟩ := drive_cases hend
  exact loop_recurs hpaused hf hn hreaches ((continueLine_iff_ends _ _ _).mp ⟨fuel, hline⟩)

private theorem AsksSpaces.finished (h : AsksSpaces m text n) (hn : 0 < n)
    (hlegible : m.memory.Legible) :
    ∃ k r m', (∀ fuel, k ≤ fuel → (readLine fuel text).on m = (.ok r, m')) ∧
      r.paused = false ∧ r.failure = none ∧ r.output = spaces n.toNat ++ m.marker ∧
      m'.stack = m.stack ∧ m'.returns = m.returns := by
  obtain ⟨f, start, b, s, hf, hread, hreaches, hs, hsource, hpaused, hpending, houtput, hmemory,
    hstack, hreturns, hmarker⟩ := h.reaches
  obtain ⟨map, hmap⟩ := m.memory.map_eq_ok_iff.mpr hlegible
  rw [← hmemory] at hmap
  have hends : Ends { start with running := true } (.ok true)
      { b.spaced n.toNat with frames := [] } :=
    (hreaches.trans (loop_reaches hpaused hf hn)).ends_of
      (Stands.ends ⟨⟨hpaused, rfl⟩, s, hsource, hs⟩)
  obtain ⟨k, m', ⟨entries, events, rfl⟩, hfinished⟩ := finished_of_ends hread hends hmap
  refine ⟨k, _, _, hfinished, rfl, rfl, ?_, hstack, hreturns⟩
  change (if b.pending.isNone then (b.output ++ spaces n.toNat) ++ b.marker else _) = _
  rw [hpending, houtput, hmarker, String.empty_append]
  rfl

end Result

/-- A line that asks for spaces writes them, and the marker after them, if it asks for some. The
stack and the return stack are then as they were. If it asks for none, it never comes to an end. -/
theorem spaces_end_iff_positive {m : Machine} {text : String} {n : Int}
    (h : AsksSpaces m text n) :
    (0 < n → m.memory.Legible →
      ∃ k r m', (∀ fuel, k ≤ fuel → (readLine fuel text).on m = (.ok r, m')) ∧
        r.paused = false ∧ r.failure = none ∧ r.output = spaces n.toNat ++ m.marker ∧
        m'.stack = m.stack ∧ m'.returns = m.returns) ∧
    (n ≤ 0 → ∀ fuel, ((readLine fuel text).on m).1 = .error .exhausted) :=
  ⟨h.finished, h.exhausted⟩

private theorem standard_asks {text : String} {n : Int} {u v : Token}
    (htext : tokenize text = .ok [u, v]) (hv : v.Spells "spaces") (hu : u.literal = false)
    (hnumeral : u.value ∈ ["0", "3"]) (hn : Numeral.read? u.value = some (.int n)) :
    AsksSpaces Session.standard text n ∧ Session.Reached Session.standard ∧
      Session.standard.marker = " ok" := by
  obtain ⟨hidle, hpending, hmarker⟩ := Session.standard_rests
  have hlookup : Session.standard.dictionary.lookup u.value = .ok none :=
    Session.standard_numbers (List.mem_append_left ["-5"] hnumeral)
  exact ⟨⟨hidle, hpending, rfl, u, v, htext, hv, hu, hlookup, hn⟩, Session.standard_reached,
    hmarker⟩

/-- A session with the library writes three spaces, and is then done. -/
theorem three_spaces_written :
    Session.Reached Session.standard ∧
    ∃ k r m', (∀ fuel, k ≤ fuel →
        (readLine fuel "3 spaces").on Session.standard = (.ok r, m')) ∧
      r.failure = none ∧ r.output = "    ok" := by
  obtain ⟨hasks, hreached, hmarker⟩ := standard_asks (n := 3)
    (rfl : tokenize "3 spaces" = .ok [⟨"3", false, 1⟩, ⟨"spaces", false, 3⟩])
    ⟨rfl, by decide +kernel⟩ rfl (by decide) (by decide +kernel)
  obtain ⟨k, r, m', hread, -, hfailure, houtput, -⟩ :=
    (spaces_end_iff_positive hasks).1 (by decide) hreached.sound.2.legible
  rw [hmarker] at houtput
  exact ⟨hreached, k, r, m', hread, hfailure, houtput⟩

/-- A session with the library that is asked for no spaces never gets ready for another line. -/
theorem zero_spaces_never_end :
    Session.Reached Session.standard ∧ AsksSpaces Session.standard "0 spaces" 0 ∧
      ∀ fuel, ((readLine fuel "0 spaces").on Session.standard).1 = .error .exhausted := by
  obtain ⟨hasks, hreached, -⟩ := standard_asks (n := 0)
    (rfl : tokenize "0 spaces" = .ok [⟨"0", false, 1⟩, ⟨"spaces", false, 3⟩])
    ⟨rfl, by decide +kernel⟩ rfl (by decide) (by decide +kernel)
  exact ⟨hreached, hasks, hasks.exhausted (Int.le_refl 0)⟩

end Run

end Forthline
