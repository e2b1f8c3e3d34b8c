import Forthline.Proofs.Contained
import Forthline.Proofs.Defining
import Forthline.Proofs.Vocabulary

/-!
# Code without loops

A word from which no loop can be reached runs to its end in a bounded number of turns, whatever the
machine it is run on. Turn after turn, frames come and go; what goes down is the size of all that
is left to run, with every call unfolded. The size is finite because a definition has in it only
words that were known before it was made, even where it mentions its own name.
-/

namespace Forthline

mutual

def Word.loops : Word → Bool
  | .definition _ body _ => loopsAny body
  | .native .. | .control _ | .stray _ => false

def Node.loops : Node → Bool
  | .action w => w.loops
  | .conditional consequent alternative => loopsAny consequent || loopsAny alternative
  | .counted .. | .indefinite _ => true

def loopsAny : List Node → Bool
  | [] => false
  | n :: ns => n.loops || loopsAny ns

end

mutual

/-- The number of nodes of a word's body, where a node that calls a definition has the nodes of that
definition below it. -/
def Word.unfolded : Word → Nat
  | .definition _ body _ => unfoldedAll body
  | .native .. | .control _ | .stray _ => 0

def Node.unfolded : Node → Nat
  | .action w => 1 + w.unfolded
  | .conditional consequent alternative => 1 + unfoldedAll consequent + unfoldedAll alternative
  | .counted body _ | .indefinite body => 1 + unfoldedAll body

def unfoldedAll : List Node → Nat
  | [] => 0
  | n :: ns => n.unfolded + unfoldedAll ns

end

mutual

def Node.words : Node → List Word
  | .action w => [w]
  | .conditional consequent alternative => wordsOf consequent ++ wordsOf alternative
  | .counted body _ | .indefinite body => wordsOf body

def wordsOf : List Node → List Word
  | [] => []
  | n :: ns => n.words ++ wordsOf ns

end

def Word.Calls : Word → Word → Prop
  | .definition _ body _, w => w ∈ wordsOf body
  | _, _ => False

mutual

private theorem Node.unfolded_of_mem {w : Word} :
    ∀ n : Node, w ∈ n.words → w.unfolded < n.unfolded
  | .action v, h => by
    rw [List.mem_singleton.mp h, Node.unfolded]
    omega
  | .conditional consequent alternative, h => by
    rw [Node.unfolded]
    rcases List.mem_append.mp h with h | h
    · have hlt := unfolded_of_mem consequent h
      omega
    · have hlt := unfolded_of_mem alternative h
      omega
  | .counted body _, h | .indefinite body, h => by
    have hlt := unfolded_of_mem body h
    rw [Node.unfolded]
    omega

private theorem unfolded_of_mem {w : Word} :
    ∀ ns : List Node, w ∈ wordsOf ns → w.unfolded < unfoldedAll ns
  | n :: ns, h => by
    rw [unfoldedAll]
    rcases List.mem_append.mp h with h | h
    · have hlt := n.unfolded_of_mem h
      omega
    · have hlt := unfolded_of_mem ns h
      omega

end

private theorem Word.Calls.unfolded_lt {v w : Word} (h : v.Calls w) :
    w.unfolded < v.unfolded := by
  cases v with
  | definition name body permanent => exact unfolded_of_mem body h
  | native | control | stray => cases h

/-- No word calls itself, directly or through others. -/
theorem Word.not_calls_itself (w : Word) : ¬Relation.TransGen Word.Calls w w := by
  intro h
  have hlt : ∀ v, Relation.TransGen Word.Calls w v → v.unfolded < w.unfolded := by
    intro v hv
    induction hv with
    | single hcall => exact hcall.unfolded_lt
    | tail _ hcall ih => exact hcall.unfolded_lt.trans ih
  exact absurd (hlt w h) (Nat.lt_irrefl _)

private theorem Renders.mem_of_wordsOf {w : Word} {ns : List Node} {ws : List Word}
    (h : Renders ns ws) (hw : w ∈ wordsOf ns) : w ∈ ws := by
  induction h with
  | nil => exact hw
  | action _ _ ih =>
    rcases List.mem_append.mp hw with hw | hw
    · rw [List.mem_singleton.mp hw]
      exact List.mem_cons_self
    · exact List.mem_cons_of_mem _ (ih hw)
  | consequent _ _ ihc ih =>
    simp only [wordsOf, Node.words, List.append_nil, List.mem_append] at hw
    rcases hw with hw | hw
    · simp [ihc hw]
    · simp [ih hw]
  | alternative _ _ _ ihc iha ih =>
    simp only [wordsOf, Node.words, List.mem_append] at hw
    rcases hw with (hw | hw) | hw
    · simp [ihc hw]
    · simp [iha hw]
    · simp [ih hw]
  | counted _ _ ihb ih | stepped _ _ ihb ih | indefinite _ _ ihb ih =>
    rcases List.mem_append.mp hw with hw | hw
    · simp [ihb hw]
    · simp [ih hw]

namespace Run

private def nodesLeft : List (List Node) → Nat
  | [] => 0
  | g :: gs => unfoldedAll g + nodesLeft gs

private def turnsLeft : List (List Node) → Nat
  | [] => 0
  | g :: gs => 2 * unfoldedAll g + 1 + turnsLeft gs

private structure Straight (base : List Frame) (gs : List (List Node)) (m : Machine) : Prop where
  frames : m.frames = gs.map .sequence ++ base
  free : ∀ g ∈ gs, loopsAny g = false

/-- What a turn makes of sequences without loops: they have fewer turns left, and the nodes left
make up for the steps taken, or the turn fails. -/
private inductive Goes (base : List Frame) (gs : List (List Node)) (m : Machine) :
    Except Stop Unit × Machine → Prop where
  | on {n : Machine} (hs : List (List Node)) : Straight base hs n →
      turnsLeft hs < turnsLeft gs → n.steps + nodesLeft hs ≤ m.steps + nodesLeft gs →
      Goes base gs m (.ok (), n)
  | down {n : Machine} (f : Failure) : n.steps ≤ m.steps + nodesLeft gs →
      Goes base gs m (.error (.failed f), n)

section Turns

variable {base : List Frame} {gs : List (List Node)} {m : Machine}

private theorem Goes.enter {n : Node} {rest body : List Node} {k : Machine}
    (hm : Straight base ((n :: rest) :: gs) m)
    (hk : k.frames = .sequence rest :: gs.map .sequence ++ base) (hsteps : k.steps = m.steps + 1)
    (hbody : loopsAny body = false) (hsize : 1 + unfoldedAll body ≤ n.unfolded) :
    Goes base ((n :: rest) :: gs) m ((pushFrame (.sequence body)).on k) := by
  have hfree := hm.free _ List.mem_cons_self
  simp only [loopsAny, Bool.or_eq_false_iff] at hfree
  refine Goes.on (body :: rest :: gs) ⟨?_, ?_⟩ ?_ ?_
  · change Frame.sequence body :: k.frames = _
    rw [hk]
    rfl
  · intro g hg
    rcases List.mem_cons.mp hg with rfl | hg
    · exact hbody
    rcases List.mem_cons.mp hg with rfl | hg
    · exact hfree.2
    · exact hm.free g (List.mem_cons_of_mem _ hg)
  · simp only [turnsLeft, unfoldedAll]
    omega
  · change k.steps + _ ≤ _
    simp only [nodesLeft, unfoldedAll]
    omega

private theorem word_goes {w : Word} {rest : List Node} {k : Machine}
    (hm : Straight base ((.action w :: rest) :: gs) m)
    (hk : k.frames = .sequence rest :: gs.map .sequence ++ base) (hsteps : k.steps = m.steps + 1) :
    Goes base ((.action w :: rest) :: gs) m ((word w).on k) := by
  have hfree := hm.free _ List.mem_cons_self
  simp only [loopsAny, Bool.or_eq_false_iff] at hfree
  have hleft : k.steps ≤ m.steps + nodesLeft ((.action w :: rest) :: gs) := by
    simp only [nodesLeft, unfoldedAll, Node.unfolded]
    omega
  cases w with
  | native name c =>
    obtain ⟨hends, hframes, hkept⟩ := native_ends name c k
    change Goes _ _ _ ((native name c).on k)
    rcases hrun : (native name c).on k with ⟨(f | _) | _, n⟩
    · rw [hrun] at hkept
      exact .down f (hkept.trans_le hleft)
    · rw [hrun] at hends
      exact absurd rfl hends
    · rw [hrun] at hframes hkept
      refine Goes.on (rest :: gs) ⟨hframes.trans hk, ?_⟩ ?_ ?_
      · intro g hg
        rcases List.mem_cons.mp hg with rfl | hg
        · exact hfree.2
        · exact hm.free g (List.mem_cons_of_mem _ hg)
      · simp only [turnsLeft, unfoldedAll, Node.unfolded]
        omega
      · rw [hkept]
        simp only [nodesLeft, unfoldedAll, Node.unfolded]
        omega
  | definition name body permanent =>
    exact Goes.enter hm hk hsteps hfree.1 (by rw [Node.unfolded, Word.unfolded])
  | control c => exact .down _ hleft
  | stray shown => exact .down _ hleft

private theorem advance_goes {g : List Node} (hm : Straight base (g :: gs) m) :
    Goes base (g :: gs) m ((advance (.sequence g)).on m) := by
  cases g with
  | nil =>
    refine Goes.on gs ⟨?_, ?_⟩ ?_ ?_
    · change m.frames.tail = _
      rw [hm.frames]
      rfl
    · exact fun h hh => hm.free h (List.mem_cons_of_mem _ hh)
    · rw [turnsLeft]
      omega
    · rw [nodesLeft, unfoldedAll]
      exact Nat.le_of_eq (by rw [Nat.zero_add])
  | cons n rest =>
    have hstart : (advance (.sequence (n :: rest))).on m =
        (match n with
        | .action w => word w
        | .conditional consequent alternative => do
          let v ← pop
          pushFrame (.sequence (if v.same (.int 0) then alternative else consequent))
        | .counted body stepped => do
          let start ← pop
          let limit ← pop
          let forwards ← lift (limit.greater start)
          pushFrame (.counted body stepped start limit forwards false)
        | .indefinite body => pushFrame (.indefinite body false)).on
          { m with frames := .sequence rest :: m.frames.tail, steps := m.steps + 1 } := rfl
    rw [hstart]
    generalize hk : ({ m with frames := .sequence rest :: m.frames.tail, steps := m.steps + 1 } :
      Machine) = k
    have hframes : k.frames = .sequence rest :: gs.map .sequence ++ base := by
      rw [← hk, hm.frames]
      rfl
    have hsteps : k.steps = m.steps + 1 := by rw [← hk]
    have hfree := hm.free _ List.mem_cons_self
    simp only [loopsAny, Bool.or_eq_false_iff] at hfree
    cases n with
    | action w => exact word_goes hm hframes hsteps
    | conditional consequent alternative =>
      rw [Node.loops, Bool.or_eq_false_iff] at hfree
      have hpop := pop_contained k
      rw [on_bind]
      rcases hv : pop.on k with ⟨(f | _) | v, k'⟩
      · rw [hv] at hpop
        refine .down f ?_
        rw [hpop.2.2.2, hsteps, nodesLeft, unfoldedAll, Node.unfolded]
        omega
      · rw [hv] at hpop
        exact absurd rfl hpop.1
      · rw [hv] at hpop
        refine Goes.enter hm (hpop.2.1.trans hframes) (hpop.2.2.2.trans hsteps) ?_ ?_
        · split
          · exact hfree.1.2
          · exact hfree.1.1
        · rw [Node.unfolded]
          split
          · omega
          · omega
    | counted body stepped => cases hfree.1
    | indefinite body => cases hfree.1

end Turns

/-- Given enough fuel, the program is after some turns back at the frames that it was started on
top of, is suspended, or has failed. -/
inductive Halts (p : Nat → Run Bool) (base : List Frame) (turns : Nat) (m m' : Machine) : Prop where
  | finished : Ready base m' → (∀ fuel, (p (turns + fuel)).on m = (run fuel).on m') →
      Halts p base turns m m'
  | paused : m'.paused = true → (∀ fuel, (p (turns + fuel + 1)).on m = (.ok false, m')) →
      Halts p base turns m m'
  | failed (f : Failure) : (∀ fuel, (p (turns + fuel)).on m = (.error (.failed f), m')) →
      Halts p base turns m m'

theorem Halts.turn {base : List Frame} {turns : Nat} {f : Frame} {fs : List Frame}
    {m n m' : Machine} (h : Halts run base turns n m') (hm : Ready (f :: fs) m)
    (hturn : (advance f).on m = (.ok (), n)) : Halts run base (turns + 1) m m' := by
  have hgo (fuel : Nat) : (run (fuel + 1)).on m = (run fuel).on n := by
    rw [run_frame fuel hm, on_bind_ok hturn]
  cases h with
  | finished hready h =>
    refine .finished hready fun fuel => ?_
    rw [Nat.add_right_comm, hgo, h]
  | paused hpaused h =>
    refine .paused hpaused fun fuel => ?_
    rw [Nat.add_right_comm turns, hgo, h]
  | failed f h =>
    refine .failed f fun fuel => ?_
    rw [Nat.add_right_comm, hgo, h]

private theorem run_straight {base : List Frame} {gs : List (List Node)} {m : Machine}
    (hm : Straight base gs m) :
    ∃ turns ≤ turnsLeft gs, ∃ m', m'.steps ≤ m.steps + nodesLeft gs ∧
      Halts run base turns m m' := by
  -- The turns that are left bound the turns that are taken.
  induction hturns : turnsLeft gs using Nat.strong_induction_on generalizing gs m with
  | _ bound ih =>
    subst hturns
    cases hpaused : m.paused with
    | true =>
      refine ⟨0, Nat.zero_le _, m, Nat.le_add_right _ _, .paused hpaused fun fuel => ?_⟩
      rw [Nat.zero_add, run_paused fuel hpaused]
    | false =>
      cases gs with
      | nil =>
        refine ⟨0, Nat.zero_le _, m, Nat.le_add_right _ _, .finished ⟨hpaused, hm.frames⟩ ?_⟩
        intro fuel
        rw [Nat.zero_add]
      | cons g gs =>
        have hready : Ready (.sequence g :: (gs.map .sequence ++ base)) m := ⟨hpaused, hm.frames⟩
        have hgoes := advance_goes hm
        rcases hturn : (advance (.sequence g)).on m with ⟨o, n⟩
        rw [hturn] at hgoes
        cases hgoes with
        | on hs hn hlt hsteps =>
          obtain ⟨turns, hle, m', hsteps', hhalts⟩ := ih _ hlt hn rfl
          exact ⟨turns + 1, by omega, m', by omega, hhalts.turn hready hturn⟩
        | down f hsteps =>
          refine ⟨1, ?_, n, hsteps, .failed f fun fuel => ?_⟩
          · rw [turnsLeft]
            omega
          · rw [Nat.add_comm, run_frame fuel hready, on_bind_error hturn]

private theorem execute_halts {w : Word} (hw : w.loops = false) (m : Machine) :
    ∃ turns ≤ 2 * w.unfolded + 3, ∃ m', m'.steps ≤ m.steps + (1 + w.unfolded) ∧
      Halts (fun fuel => execute fuel w) m.frames turns m m' := by
  have hstarted : Straight m.frames [[.action w]]
      { m with frames := .sequence [.action w] :: m.frames } := by
    refine ⟨rfl, fun g hg => ?_⟩
    rw [List.mem_singleton.mp hg, loopsAny, loopsAny, Node.loops, hw]
    rfl
  have hnodes : nodesLeft [[.action w]] = 1 + w.unfolded := rfl
  have hturns : turnsLeft [[.action w]] = 2 * w.unfolded + 3 := by
    rw [turnsLeft, unfoldedAll, unfoldedAll, Node.unfolded]
    change 2 * (1 + w.unfolded + 0) + 1 + 0 = _
    omega
  obtain ⟨turns, hle, m', hsteps, hhalts⟩ := run_straight hstarted
  refine ⟨turns, hturns ▸ hle, m', hnodes ▸ hsteps, ?_⟩
  cases hhalts with
  | finished hready h => exact .finished hready h
  | paused hpaused h => exact .paused hpaused h
  | failed f h => exact .failed f h

private theorem Halts.not_exhausted {p : Nat → Run Bool} {turns : Nat} {m m' : Machine}
    (h : Halts p [] turns m m') {fuel : Nat} (hfuel : turns < fuel) :
    ((p fuel).on m).1 ≠ .error .exhausted := by
  obtain ⟨extra, rfl⟩ : ∃ extra, fuel = turns + extra + 1 := ⟨fuel - turns - 1, by omega⟩
  cases h with
  | finished hready h =>
    rw [Nat.add_assoc, h, run_ready extra hready]
    exact nofun
  | paused _ h =>
    rw [h]
    exact nofun
  | failed f h =>
    rw [Nat.add_assoc, h]
    exact nofun

private theorem interpret_of_pending {m : Machine} {p : Pending} {t : Token}
    (hpending : m.pending = some p) :
    match m.dictionary.meaning? t with
    | .error c => (interpret t).on m = (.error (.failed { cause := c }), m)
    | .ok (some w) =>
      (interpret t).on m = (do compileWord p w; return none : Run (Option Word)).on m
    | .ok none => ∃ n, m.Logged n ∧ (interpret t).on m = (.ok none, n) := by
  have hread : (interpret t).on m = (readAs t).on m := by
    rw [interpret_eq, on_get_bind, hpending]
    rfl
  have hon := meaning_on t m
  rw [hread]
  cases hmeaning : m.dictionary.meaning? t with
  | error c =>
    rw [hmeaning] at hon
    exact on_bind_error hon _
  | ok found =>
    rw [hmeaning] at hon
    cases found with
    | none =>
      obtain ⟨n, hn, hon⟩ := hon
      exact ⟨n, hn, on_bind_ok hon _⟩
    | some w =>
      dsimp only at hon ⊢
      rw [readAs, on_bind_ok hon]
      dsimp only
      rw [on_get_bind, hpending]

/-- Code without loops always stops. Run on any machine, a word from which no loop can be reached
comes to its end, is suspended or fails after a number of turns that its size bounds, and takes no
more steps than one and the nodes of its body with all calls unfolded. A definition that mentions
its own name gets what the name led to before, so no word calls itself. -/
theorem loop_free_code_stops (m : Machine) :
    (∀ w : Word, w.loops = false →
      (∃ turns ≤ 2 * w.unfolded + 3, ∃ m', m'.steps ≤ m.steps + (1 + w.unfolded) ∧
        Halts (fun fuel => execute fuel w) m.frames turns m m') ∧
      (m.frames = [] → ∀ fuel, 2 * w.unfolded + 3 < fuel →
        ((execute fuel w).on m).1 ≠ .error .exhausted)) ∧
    (∀ p t, m.pending = some p → t.Spells (Text.lower p.name) →
      match m.dictionary.lookup t.value, Numeral.read? t.value with
      | .error c, _ => (interpret t).on m = (.error (.failed { cause := c }), m)
      | .ok (some w), _ =>
        (interpret t).on m = (do compileWord p w; return none : Run (Option Word)).on m
      | .ok none, some n =>
        (interpret t).on m =
          (do compileWord p (.pusher t.value (Value.ofNumber n)); return none : Run _).on m
      | .ok none, none => ∃ n, m.Logged n ∧ (interpret t).on m = (.ok none, n)) ∧
    (∀ p m', (endDefinition p).on m = (.ok (), m') → ∃ body,
      m.dictionary.add p.name (.definition p.name body false) false = .ok m'.dictionary ∧
      ∀ w, (Word.definition p.name body false).Calls w → w ∈ p.words) ∧
    ∀ w, ¬Relation.TransGen Word.Calls w w := by
  refine ⟨?_, ?_, ?_, Word.not_calls_itself⟩
  · intro w hw
    obtain ⟨turns, hturns, m', hsteps, hhalts⟩ := execute_halts hw m
    refine ⟨⟨turns, hturns, m', hsteps, hhalts⟩, ?_⟩
    intro hframes fuel hfuel
    rw [hframes] at hhalts
    exact hhalts.not_exhausted (hturns.trans_lt hfuel)
  · intro p t hpending hspells
    have hinterpret := interpret_of_pending (t := t) hpending
    rw [Dictionary.meaning?, hspells.1, if_neg Bool.false_ne_true] at hinterpret
    cases hlookup : m.dictionary.lookup t.value with
    | error c =>
      rw [hlookup] at hinterpret
      exact hinterpret
    | ok found =>
      rw [hlookup] at hinterpret
      cases found with
      | some w => exact hinterpret
      | none =>
        cases hnumber : Numeral.read? t.value with
        | some n =>
          rw [hnumber] at hinterpret
          exact hinterpret
        | none =>
          rw [hnumber] at hinterpret
          exact hinterpret
  · intro p m' h
    obtain ⟨body, d, hbody, hadd, hlogged⟩ := added_of_endDefinition h
    obtain ⟨entries, events, rfl⟩ := hlogged
    refine ⟨body, hadd, ?_⟩
    intro w hw
    exact List.mem_reverse.mp ((renders_of_compile hbody).mem_of_wordsOf hw)

private def reopened : Machine := afterLines [": a 1 if 2 then ;", ": a 3"]

private def reopens (m : Machine) (w : Word) (p : Pending) : Bool :=
  !w.loops && w.unfolded == 3 && p.name == "a" && ((endDefinition p).on m).1.isOk

/-- The earlier word is what the later definition of the same name calls. -/
theorem loop_free_code_stops_within_definition :
    ∃ w p, reopened.dictionary.lookup "A" = .ok (some w) ∧ w.loops = false ∧
      reopened.pending = some p ∧ p.name = "a" ∧
      (∃ turns ≤ 9, ∃ m', m'.steps ≤ reopened.steps + 4 ∧
        Halts (fun fuel => execute fuel w) reopened.frames turns reopened m') ∧
      (interpret ⟨"A", false, 1⟩).on reopened =
        (do compileWord p w; return none : Run (Option Word)).on reopened ∧
      ∃ m' body, (endDefinition p).on reopened = (.ok (), m') ∧
        reopened.dictionary.add "a" (.definition "a" body false) false = .ok m'.dictionary := by
  have htest : (match reopened.dictionary.lookup "A", reopened.pending with
      | .ok (some w), some p => reopens reopened w p
      | .ok (some _), none | .ok none, _ | .error _, _ => false) = true := by
    decide +kernel
  generalize reopened = m at htest ⊢
  split at htest
  · rename_i w p hlookup hpending
    simp only [reopens, Bool.and_eq_true, Bool.not_eq_true', beq_iff_eq] at htest
    obtain ⟨⟨⟨hloops, hsize⟩, hname⟩, hends⟩ := htest
    obtain ⟨hstops, hown, hmade, -⟩ := loop_free_code_stops m
    have hspells : (⟨"A", false, 1⟩ : Token).Spells (Text.lower p.name) := by
      rw [hname]
      exact ⟨rfl, by decide +kernel⟩
    obtain ⟨turns, hturns, m', hsteps, hhalts⟩ := (hstops w hloops).1
    rw [hsize] at hturns hsteps
    have hcompiled := hown p ⟨"A", false, 1⟩ hpending hspells
    rw [hlookup] at hcompiled
    rcases hend : (endDefinition p).on m with ⟨_ | _, m''⟩
    · rw [hend] at hends
      cases hends
    · obtain ⟨body, hadd, -⟩ := hmade p m'' hend
      rw [hname] at hadd
      exact ⟨w, p, hlookup, hloops, hpending, hname, ⟨turns, hturns, m', hsteps, hhalts⟩,
        hcompiled, m'', body, hend, hadd⟩
  all_goals cases htest

end Run

end Forthline
