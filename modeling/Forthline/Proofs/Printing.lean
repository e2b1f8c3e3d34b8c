import Forthline.Proofs.Numerals
import Forthline.Proofs.Spaces
import Forthline.Proofs.Spelling

/-!
# Printing integers

A line that writes down an integer and prints it shows the integer as it was written. No word may go
by the number, and the memory must be legible, or the line is never done with.
-/

namespace Forthline

namespace Run

def printer : Word := .native "." (.task .printTop)

def printing (n : Int) : String := toString n ++ " ."

private theorem tokenize_printing (n : Int) :
    ∃ u v, tokenize (printing n) = .ok [u, v] ∧ u.content = (toString n, false) ∧
      v.content = (".", false) := by
  have hnonempty : toString n ≠ "" := by
    intro h
    have hsign := Numeral.sign_toString n
    rw [h] at hsign
    exact Nat.toDigits_ne_nil (congrArg Prod.snd hsign).symm
  have hother (t : String) (c : Char) (hc : c ∈ t.toList)
      (hforeign : c ≠ '-' ∧ Numeral.isDigitIn 10 c = false) : toString n ≠ t := by
    rintro rfl
    rcases Numeral.mem_toString hc with h | h
    · exact hforeign.1 h
    · rw [hforeign.2] at h
      cases h
  have hunmarked : toString n ∉ ["(", "\\", ".\""] := by
    simp only [List.mem_cons, List.not_mem_nil, or_false, not_or]
    exact ⟨hother "(" '(' (by decide) (by decide), hother "\\" '\\' (by decide) (by decide),
      hother ".\"" '.' (by decide) (by decide)⟩
  have hblank : ∀ c ∈ [' '], Text.isBlank c = true := by
    intro c hc
    rw [List.mem_singleton.mp hc]
    rfl
  have hsolid : ∀ c ∈ ".".toList, Text.isBlank c = false := by
    intro c hc
    rw [List.mem_singleton.mp (show c ∈ ['.'] from hc)]
    rfl
  let gap : Gap := ⟨[' '], List.cons_ne_nil _ _, hblank⟩
  let number : Lexeme := .word (toString n) hnonempty
    (fun c hc => Numeral.isBlank_of_visible (Numeral.visible_toString hc)) hunmarked
  let dot : Lexeme := .word "." (by decide) hsolid (by decide)
  have htext : printing n = String.ofList (spelled (fun _ => gap) [number, dot]) := by
    apply String.toList_injective
    rw [printing, String.toList_append, String.toList_ofList, String.toList_ofList]
    rfl
  have htokens := tokenize_spelled (fun _ => gap) [number, dot]
  rw [← htext] at htokens
  cases hts : tokenize (printing n) with
  | error c =>
    rw [hts] at htokens
    cases htokens
  | ok ts =>
    rw [hts] at htokens
    obtain ⟨u, ts, rfl, hu, hts⟩ := List.map_eq_cons_iff.mp (Except.ok.inj htokens)
    obtain ⟨v, ts, rfl, hv, hts⟩ := List.map_eq_cons_iff.mp hts
    rw [List.map_eq_nil_iff.mp hts]
    exact ⟨u, v, rfl, hu, hv⟩

/-- An idle machine is about to read a line that prints an integer. No word goes by the number, and
the printing word is the builtin one. -/
structure AsksPrint (m : Machine) (n : Int) : Prop where
  idle : m.Idle
  pending : m.pending = none
  numeral : m.dictionary.lookup (toString n) = .ok none
  prints : m.dictionary.lookup "." = .ok (some printer)

section Line

variable {m : Machine} {n : Int}

private theorem turned_print {g : List Frame} {s : Stack} {text : String} (hm : m.paused = false)
    (htext : (Value.int n).display = .ok text) (hstack : m.stack = s.push (.int n)) :
    Turned { m with frames := .sequence [.action printer] :: g }
      { m with
        frames := .sequence [] :: g
        steps := m.steps + 1
        stack := s
        output := m.output ++ (text ++ " ") } := by
  have hcode : (code (.task .printTop)).on
      { m with frames := .sequence [] :: g, steps := m.steps + 1 } =
        (.ok (), { m with
          frames := .sequence [] :: g
          steps := m.steps + 1
          stack := s
          output := m.output ++ (text ++ " ") }) := by
    have hpop := pop_of_push (s := s) (v := .int n)
      (m := { m with frames := .sequence [] :: g, steps := m.steps + 1 }) hstack
    rw [code, task, on_bind_ok hpop, htext, on_bind_ok (on_lift_ok _ _)]
    rfl
  exact ⟨_, _, ⟨hm, rfl⟩, (advance_native "." _ [] _).trans (native_of_ok "." hcode)⟩

private theorem AsksPrint.reaches (h : AsksPrint m n)
    (hn : (Nat.toDigits 10 n.natAbs).length ≤ Numeral.digitLimit) :
    ∃ start e : Machine,
      (∀ fuel, (readLine fuel (printing n)).on m = (drive fuel).on start) ∧
      Ends { start with running := true } (.ok true) e ∧
      e.pending = none ∧ e.output = toString n ++ " " ∧ e.memory = m.memory ∧ e.stack = m.stack ∧
      e.marker = m.marker := by
  obtain ⟨u, v, htokens, hu, hv⟩ := tokenize_printing n
  obtain ⟨start, ⟨entries, events, rfl⟩, -, hread⟩ := readLine_of_free h.idle.free (printing n)
  have hvalue : u.value = toString n := congrArg Prod.fst hu
  have hdot : v.value = "." := congrArg Prod.fst hv
  have hspells : v.Spells "." := ⟨congrArg Prod.snd hv, by rw [hdot]; decide +kernel⟩
  let b : Machine :=
    { m.begun (printing n) with log := { m.log with entries }, events, running := true }
  have hstands : Stands b [u.content, v.content] :=
    ⟨⟨h.idle.paused, h.idle.frames⟩, _, rfl, Stream.holds_ofText htokens⟩
  obtain ⟨s₁, line₁, hs₁, hpush⟩ := hstands.pushes (u := u) (n := n) h.pending
    (by rw [hvalue]; exact h.numeral) (congrArg Prod.snd hu)
    (by rw [hvalue]; exact Numeral.read?_toString hn)
    (plain_of_spells hspells (by decide) (by decide))
  let pushed : Machine :=
    { b with
      source := some s₁, line := line₁, steps := b.steps + 1, stack := b.stack.push (.int n),
      frames := [] }
  have hword : pushed.dictionary.meaning? v = .ok (some printer) :=
    Dictionary.meaning?_of_lookup hspells.1 (by rw [hdot]; exact h.prints)
  have hlast : Plain [] := by
    intro t ht
    cases ht
  have hrest : Stands pushed [v.content] := ⟨⟨h.idle.paused, rfl⟩, s₁, rfl, hs₁⟩
  obtain ⟨s₂, line₂, hs₂, htake⟩ :=
    hrest.takes h.pending hspells.1 (by rw [hdot]; decide) hlast hword rfl
  let done : Machine :=
    { pushed with
      source := some s₂, line := line₂, steps := pushed.steps + 1, stack := m.stack
      output := toString n ++ " " }
  have hprint := turned_print (g := []) (s := m.stack) (n := n)
    (m := { pushed with source := some s₂, line := line₂ }) h.idle.paused
    (Value.display_int hn) rfl
  have hends : Ends done (.ok true) done := Stands.ends ⟨⟨h.idle.paused, rfl⟩, s₂, rfl, hs₂⟩
  refine ⟨_, done, hread, ?_, h.pending, rfl, rfl, rfl, rfl⟩
  exact (hpush.trans (.step htake (hprint.reaches
    ((turned_done (m := done) (g := []) h.idle.paused).reaches (.refl _))))).ends_of hends

private theorem AsksPrint.finished (h : AsksPrint m n)
    (hn : (Nat.toDigits 10 n.natAbs).length ≤ Numeral.digitLimit) (hlegible : m.memory.Legible) :
    ∃ k r m', (∀ fuel, k ≤ fuel → (readLine fuel (printing n)).on m = (.ok r, m')) ∧
      r.paused = false ∧ r.failure = none ∧ r.output = toString n ++ " " ++ m.marker ∧
      m'.stack = m.stack := by
  obtain ⟨start, e, hread, hends, hpending, houtput, hmemory, hstack, hmarker⟩ := h.reaches hn
  obtain ⟨map, hmap⟩ := m.memory.map_eq_ok_iff.mpr hlegible
  rw [← hmemory] at hmap
  obtain ⟨k, m', ⟨entries, events, rfl⟩, hfinished⟩ := finished_of_ends hread hends hmap
  refine ⟨k, _, _, hfinished, rfl, rfl, ?_, hstack⟩
  change (if e.pending.isNone then e.output ++ e.marker else _) = _
  rw [hpending, houtput, hmarker]
  rfl

private theorem AsksPrint.stuck (h : AsksPrint m n)
    (hn : (Nat.toDigits 10 n.natAbs).length ≤ Numeral.digitLimit)
    (hillegible : ¬m.memory.Legible) :
    ∃ k f m', ∀ fuel, k ≤ fuel → (readLine fuel (printing n)).on m = (.error (.failed f), m') := by
  obtain ⟨start, e, hread, hends, -, -, hmemory, -⟩ := h.reaches hn
  obtain ⟨k, hdrive⟩ := drive_of_ends hends
  rw [← hmemory] at hillegible
  cases hmap : e.memory.map with
  | ok map => exact absurd (e.memory.map_eq_ok_iff.mp ⟨map, hmap⟩) hillegible
  | error c =>
    obtain ⟨m', -, hconclude⟩ :=
      conclude_of_error (m := { e with running := false }) hmap (.ok true)
    exact ⟨k, _, m', fun fuel hfuel => by rw [hread, hdrive fuel hfuel, hconclude]⟩

end Line

/-- Integers are read from their texts, and shown as they are written down: in decimal as long as
they have no more digits than can be read, and of any size after a prefix, where no sign may stand.
What a line shows there is a result only if the memory is legible, as it is in every session without
devices. -/
theorem literals_and_printing_inverse (n : Int) (k : Nat) :
    ((Nat.toDigits 10 n.natAbs).length ≤ 4300 →
      Numeral.read? (toString n) = some (.int n) ∧
      ∀ m : Machine, AsksPrint m n →
        (m.memory.Legible ∨ Session.Reached m →
          ∃ bound r m', (∀ fuel, bound ≤ fuel →
              (readLine fuel (toString n ++ " .")).on m = (.ok r, m')) ∧
            r.paused = false ∧ r.failure = none ∧ r.output = toString n ++ " " ++ m.marker ∧
            m'.stack = m.stack) ∧
        (¬m.memory.Legible →
          ∃ bound f m', ∀ fuel, bound ≤ fuel →
            (readLine fuel (toString n ++ " .")).on m = (.error (.failed f), m'))) ∧
    ∀ e ∈ [('x', 16), ('o', 8), ('b', 2)],
      Numeral.read? (String.ofList ('0' :: e.1 :: Nat.toDigits e.2 k)) = some (.int k) ∧
      ∀ c ∈ ['-', '+'],
        Numeral.read? (String.ofList (c :: '0' :: e.1 :: Nat.toDigits e.2 k)) = none := by
  refine ⟨fun hn => ⟨Numeral.read?_toString hn, fun m hm => ⟨fun h => ?_, hm.stuck hn⟩⟩,
    fun e he => Numeral.read?_prefixed he k⟩
  rcases h with hlegible | hreached
  · exact hm.finished hn hlegible
  · exact hm.finished hn hreached.sound.2.legible

/-- A session with the library shows minus five. -/
theorem minus_five_shown :
    Session.Reached Session.standard ∧ Numeral.read? "-5" = some (.int (-5)) ∧
      Numeral.read? "0xff" = some (.int 255) ∧
      ∃ k r m', (∀ fuel, k ≤ fuel →
          (readLine fuel "-5 .").on Session.standard = (.ok r, m')) ∧
        r.failure = none ∧ r.output = "-5  ok" ∧ m'.stack = Session.standard.stack := by
  obtain ⟨hidle, hpending, hmarker⟩ := Session.standard_rests
  have hprints := Session.standard_builtin (List.mem_of_getElem? (l := Builtin.all) (i := 5) rfl)
  have hasks : AsksPrint Session.standard (-5) :=
    ⟨hidle, hpending, Session.standard_numbers (t := "-5") (by decide), hprints⟩
  obtain ⟨hdecimal, hprefixed⟩ := literals_and_printing_inverse (-5) 255
  obtain ⟨hread, hline⟩ := hdecimal (by decide)
  obtain ⟨k, r, m', hresult, -, hfailure, houtput, hstack⟩ :=
    (hline _ hasks).1 (.inr Session.standard_reached)
  rw [hmarker] at houtput
  exact ⟨Session.standard_reached, hread, (hprefixed ('x', 16) (by decide)).1, k, r, m',
    hresult, hfailure, houtput, hstack⟩

/-- An idle session that is asked to show five may stop without a result: its device has a port with
a text in it. -/
theorem printing_can_go_unanswered :
    Session.Reached Session.standard ∧ (Session.spoil.on Session.standard).1.isOk = true ∧
      AsksPrint Session.spoiled 5 ∧
      ∃ k f m', ∀ fuel, k ≤ fuel →
        (readLine fuel "5 .").on Session.spoiled = (.error (.failed f), m') := by
  obtain ⟨hok, hidle, hpending, hnumeral, hprints, hillegible⟩ := Session.spoiled_rests
  have hasks : AsksPrint Session.spoiled 5 := ⟨hidle, hpending, hnumeral, hprints⟩
  exact ⟨Session.standard_reached, hok, hasks, hasks.stuck (by decide) hillegible⟩

end Run

end Forthline
