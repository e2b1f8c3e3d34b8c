import Forthline.Proofs.Loading

/-!
# The life of lines

A host reads lines, calls back what the scheduler recorded, in any order and as often as it likes,
and sends keys. After each of these the session is at rest or has its line on hold, whatever the
lines do. A line on hold has one continuation that is not used up, and a session at rest has none.
The listeners hear of every line that was accepted, once, when it is done.
-/

namespace Forthline

namespace Run

variable {k base : Nat} {text : String} {heard : List (String × String)} {m m' : Machine}

def callBack (fuel place : Nat) : Run (Option LineResult) := do
  match (← get).sleeping[place]? with
  | none => return none
  | some (_, continuation) => resume fuel continuation

def Silent (o : Except Stop (Option LineResult)) : Prop := ∀ r, o ≠ .ok (some r)

theorem silent_none : Silent (.ok none) := by
  intro r h
  cases h

theorem silent_error (stop : Stop) : Silent (.error stop) := by
  intro r h
  cases h

def Continues (k base : Nat) (text : String) (heard : List (String × String))
    (o : Except Stop (Option LineResult)) (m : Machine) : Prop :=
  Held k base text heard false m ∧ Silent o ∨
    ∃ r, o = .ok (some r) ∧ Lands k base text heard r m

section CallBack

variable {fuel place : Nat} {o : Except Stop (Option LineResult)}

theorem callBack_rests (h : Rests k heard m) (hcall : (callBack fuel place).on m = (o, m')) :
    Rests k heard m' ∧ Silent o := by
  rw [callBack, on_get_bind] at hcall
  cases hplace : m.sleeping[place]? with
  | none =>
    rw [hplace] at hcall
    cases hcall
    exact ⟨h, silent_none⟩
  | some e =>
    have hspent : e.2 ∈ m.spent :=
      h.spent e.2 (h.sound.1.sleeping e (List.mem_of_getElem? hplace))
    rw [hplace] at hcall
    dsimp only at hcall
    rw [resume_of_spent hspent] at hcall
    cases hcall
    exact ⟨h, silent_error _⟩

theorem callBack_held (h : Held k base text heard false m)
    (hcall : (callBack fuel place).on m = (o, m')) (hend : o ≠ .error .exhausted) :
    Continues k base text heard o m' := by
  rw [callBack, on_get_bind] at hcall
  cases hplace : m.sleeping[place]? with
  | none =>
    rw [hplace] at hcall
    cases hcall
    exact .inl ⟨h, silent_none⟩
  | some e =>
    have he : e ∈ m.sleeping := List.mem_of_getElem? hplace
    rw [hplace] at hcall
    dsimp only at hcall
    obtain ⟨c, -, hsole, hentrusts⟩ := h.owed
    by_cases hec : e.2 = c
    · have hwaiting : m.waiting = none := by
        rcases hentrusts with ⟨-, hapart⟩ | ⟨hnone, -⟩
        · exact absurd hec (hapart e he)
        · exact hnone
      rw [hec] at hcall
      exact .inr (resume_aloft h.toAloft hsole hwaiting hcall hend)
    · have hspent : e.2 ∈ m.spent := hsole.others e.2 (h.sound.1.sleeping e he) hec
      rw [resume_of_spent hspent] at hcall
      cases hcall
      exact .inl ⟨h, silent_error _⟩

end CallBack

section Keys

variable {I : Machine → Prop}

private theorem store_keeps (hbindings : ∀ ⦃m⦄, I m → m.bindings = [])
    (hmemory : ∀ ⦃m memory⦄, I m → m.memory.Evolves memory → I { m with memory })
    (hemit : ∀ ⦃m e⦄, I m → e.line? = none → I { m with events := e :: m.events })
    (fuel : Nat) (address value : Value) (size : Int) :
    Keeps I (store (betweenLines fuel) address value size) := by
  have hact (number : Nat) (a : PortAction) : Keeps I (betweenLines fuel number a) := by
    refine Keeps.get_bind fun m hm => ?_
    rw [hbindings hm]
    exact Matches.pure _
  refine Keeps.of_on fun m hm => ?_
  unfold store
  rw [on_get_bind]
  cases hw : m.memory.write address value size with
  | error c => exact hm
  | ok w =>
    have hwatchers : Keeps I (w.watchers.forM fun s => do
        emit (.port s.label w.value size)
        s.actions.forM fun a => discard (betweenLines fuel s.binding a)) :=
      Matches.forM _ fun s => (Keeps.modify fun _ h => hemit h rfl).bind fun _ =>
        Matches.forM _ fun a => (hact s.binding a).discard
    exact hwatchers.on (hmemory hm (Memory.evolves_write hw))

private theorem store_rests (fuel : Nat) (address value : Value) (size : Int) :
    Keeps (Rests k heard) (store (betweenLines fuel) address value size) := by
  refine store_keeps (fun _ h => h.bindings) (fun m memory h he => ?_) (fun m e h he => ?_) _ _ _ _
  · exact { h with sound := ⟨h.sound.1, h.sound.2.evolves he⟩ }
  · exact { h with toHears := (hears_endures k heard).emit h.toHears he }

private theorem store_held (fuel : Nat) (address value : Value) (size : Int) :
    Keeps (Held k base text heard false) (store (betweenLines fuel) address value size) := by
  refine store_keeps (fun _ h => h.bindings) (fun m memory h he => ?_) (fun m e h he => ?_) _ _ _ _
  · exact { h with sound := ⟨h.sound.1, h.sound.2.evolves he⟩ }
  · exact { h with toHears := (hears_endures k heard).emit h.toHears he }

private def pressKey (fuel : Nat) (key : Value) : Run (Option LineResult) := do
  match ← handKey key with
  | some continuation => resume fuel continuation
  | none => return none

private theorem sendKey_eq (fuel : Nat) (key : Value) :
    sendKey fuel key = (do
      match (← get).memory.addressOf? "last-key" with
      | some address => do
        store (betweenLines fuel) (.int address) key 1
        pressKey fuel key
      | none => pressKey fuel key) := by
  unfold sendKey
  rw [deliverKey_eq, bind_assoc]
  refine bind_congr fun m => ?_
  cases m.memory.addressOf? "last-key" with
  | none => rfl
  | some address => rw [bind_assoc]; rfl

private theorem sendKey_cases {fuel : Nat} {key : Value} {o : Except Stop (Option LineResult)}
    (hstore : ∀ address, Keeps I (store (betweenLines fuel) (.int address) key 1)) (hm : I m)
    (hsend : (sendKey fuel key).on m = (o, m')) :
    ∃ n, I n ∧ ((pressKey fuel key).on n = (o, m') ∨ n = m' ∧ Silent o) := by
  rw [sendKey_eq, on_get_bind] at hsend
  cases haddress : m.memory.addressOf? "last-key" with
  | none =>
    rw [haddress] at hsend
    exact ⟨m, hm, .inl hsend⟩
  | some address =>
    rw [haddress] at hsend
    dsimp only at hsend
    have hn := (hstore address).on hm
    rcases hs : (store (betweenLines fuel) (.int address) key 1).on m with ⟨stop | u, n⟩
    · rw [hs] at hn
      rw [on_bind_error hs] at hsend
      cases hsend
      exact ⟨_, hn, .inr ⟨rfl, silent_error stop⟩⟩
    · rw [hs] at hn
      rw [on_bind_ok hs] at hsend
      exact ⟨n, hn, .inl hsend⟩

variable {fuel : Nat} {key : Value} {o : Except Stop (Option LineResult)}

theorem sendKey_rests (h : Rests k heard m) (hsend : (sendKey fuel key).on m = (o, m')) :
    Rests k heard m' ∧ Silent o := by
  obtain ⟨n, hn, hpress | ⟨rfl, ho⟩⟩ := sendKey_cases (fun _ => store_rests fuel _ key 1) h hsend
  · rw [pressKey, on_bind_ok (handKey_of_none key hn.waiting)] at hpress
    cases hpress
    exact ⟨hn, silent_none⟩
  · exact ⟨hn, ho⟩

theorem sendKey_held (h : Held k base text heard false m)
    (hsend : (sendKey fuel key).on m = (o, m')) (hend : o ≠ .error .exhausted) :
    Continues k base text heard o m' := by
  obtain ⟨n, hn, hpress | ⟨rfl, ho⟩⟩ := sendKey_cases (fun _ => store_held fuel _ key 1) h hsend
  · obtain ⟨c, -, hsole, ⟨hwaiting, -⟩ | ⟨hnone, -⟩⟩ := hn.owed
    · rw [pressKey, on_bind_ok (handKey_of_some key hwaiting)] at hpress
      have hkeyed : Aloft k base text heard false (n.keyed key) :=
        { hn.toAloft with sound := ⟨hn.sound.1.await nofun, hn.sound.2⟩ }
      exact .inr (resume_aloft hkeyed { hsole with } rfl hpress hend)
    · rw [pressKey, on_bind_ok (handKey_of_none key hnone)] at hpress
      cases hpress
      exact .inl ⟨hn, silent_none⟩
  · exact .inl ⟨hn, ho⟩

end Keys

end Run

namespace Session

/-- What a host does with a session: it reads a line, calls back what the scheduler recorded at some
place, or sends a key. -/
inductive Move where
  | read (text : String)
  | callBack (place : Nat)
  | key (code : Value)

def Move.run (fuel : Nat) : Move → Run (Option LineResult)
  | read text => some <$> Run.readLine fuel text
  | callBack place => Run.callBack fuel place
  | key code => Run.sendKey fuel code

def Move.accepted : Move → Except Stop (Option LineResult) → List String
  | read text, .ok _ => [text]
  | _, _ => []

def final : Except Stop (Option LineResult) → List LineResult
  | .ok (some r) => if r.paused then [] else [r]
  | _ => []

/-- A session and what its host noted of it: the lines that were accepted, the results of those that
are done, and how many continuations were made before the last line. -/
structure Journal where
  machine : Machine
  accepted : List String := []
  done : List LineResult := []
  before : Nat := 0

def Journal.note (j : Journal) (move : Move) (o : Except Stop (Option LineResult)) (m : Machine) :
    Journal where
  machine := m
  accepted := j.accepted ++ move.accepted o
  done := j.done ++ final o
  before := if (move.accepted o).isEmpty then j.before else j.machine.continuations

/-- The courses that sessions take that have the default layout of the memory, a scheduler that
records, no devices and so many listeners to lines. Every move comes to an end. A line that the
library leaves in flight counts as accepted. -/
inductive Course (k : Nat) : Journal → Prop where
  | start {fuel : Nat} {c : Config} {m m' : Machine} : c.memorySize = 65536 → c.heapStart = 1000 →
      c.deviceBase = 0x1000 → c.scheduler = .recording → Session.start fuel c = .ok m →
      (Run.listen k).on m = (.ok (), m') →
      Course k { machine := m', accepted := (m'.line.map Line.text).toList }
  | move {fuel : Nat} {move : Move} {j : Journal} {o : Except Stop (Option LineResult)}
      {m : Machine} : Course k j → (move.run fuel).on j.machine = (o, m) →
      o ≠ .error .exhausted → Course k (j.note move o m)

open Run

/-- The lines that were accepted are those that are done, in order, and the one on hold. -/
inductive Journal.Balanced (k : Nat) (j : Journal) : Prop where
  | rests : Rests k (j.done.flatMap (told k)) j.machine →
      j.accepted = j.done.map LineResult.line → Journal.Balanced k j
  | held {text : String} : Held k j.before text (j.done.flatMap (told k)) false j.machine →
      j.accepted = j.done.map LineResult.line ++ [text] → Journal.Balanced k j

variable {k fuel : Nat} {j : Journal} {o : Except Stop (Option LineResult)} {m : Machine}

private theorem balanced_of_lands {j' : Journal} {text : String} {r : LineResult}
    (hlands : Lands k j'.before text (j.done.flatMap (told k)) r j'.machine)
    (haccepted : j'.accepted = j.done.map LineResult.line ++ [text])
    (hdone : j'.done = j.done ++ if r.paused then [] else [r]) : j'.Balanced k := by
  obtain ⟨hline, hlands⟩ := hlands
  cases hp : r.paused with
  | true =>
    rw [hp, if_pos rfl] at hlands hdone
    rw [List.append_nil] at hdone
    rw [← hdone] at hlands haccepted
    exact .held hlands haccepted
  | false =>
    rw [hp, if_neg Bool.false_ne_true] at hlands hdone
    refine .rests ?_ ?_
    · rw [hdone, List.flatMap_append, List.flatMap_singleton]
      exact hlands
    · rw [hdone, haccepted, List.map_append, List.map_singleton, hline]

private theorem note_silent {move : Move} (hrefused : move.accepted o = []) (ho : Silent o) :
    j.note move o m = { j with machine := m } := by
  have hfinal : final o = [] := by
    rcases o with stop | _ | r
    · rfl
    · rfl
    · exact absurd rfl (ho r)
  unfold Journal.note
  rw [hrefused, hfinal, List.append_nil, List.append_nil]
  rfl

private theorem balanced_of_continues {text : String} {move : Move}
    (hrefused : move.accepted o = [])
    (haccepted : j.accepted = j.done.map LineResult.line ++ [text])
    (h : Continues k j.before text (j.done.flatMap (told k)) o m) :
    (j.note move o m).Balanced k := by
  rcases h with ⟨hheld, ho⟩ | ⟨r, rfl, hlands⟩
  · rw [note_silent hrefused ho]
    exact .held hheld haccepted
  · have hbefore : (j.note move (.ok (some r)) m).before = j.before := by
      unfold Journal.note
      rw [hrefused]
      rfl
    have hnoted : (j.note move (.ok (some r)) m).accepted = j.accepted := by
      unfold Journal.note
      rw [hrefused, List.append_nil]
    rw [← hbefore] at hlands
    exact balanced_of_lands hlands (hnoted.trans haccepted) rfl

private theorem read_rests {text : String} (h : Rests k (j.done.flatMap (told k)) j.machine)
    (haccepted : j.accepted = j.done.map LineResult.line)
    (hrun : ((Move.read text).run fuel).on j.machine = (o, m)) (hend : o ≠ .error .exhausted) :
    (j.note (.read text) o m).Balanced k := by
  rw [Move.run, ← bind_pure_comp] at hrun
  rcases hread : (readLine fuel text).on j.machine with ⟨stop | r, n⟩
  · rw [on_bind_error hread] at hrun
    cases hrun
    have hstop : (.error stop : Except Stop LineResult) ≠ .error .exhausted := by
      intro heq
      cases heq
      exact hend rfl
    obtain ⟨r, hr, -⟩ := readLine_rests h (Nat.le_refl _) hread hstop
    cases hr
  · rw [on_bind_ok hread] at hrun
    cases hrun
    obtain ⟨r', hr, hlands⟩ := readLine_rests h (Nat.le_refl _) hread nofun
    cases hr
    refine balanced_of_lands (j := j) hlands ?_ rfl
    change j.accepted ++ [text] = _
    rw [haccepted]

private theorem read_held {base : Nat} {text other : String} {heard : List (String × String)}
    (h : Held k base text heard false j.machine)
    (hrun : ((Move.read other).run fuel).on j.machine = (o, m)) :
    j.note (.read other) o m = j := by
  rw [Move.run, ← bind_pure_comp, on_bind_error (readLine_held h fuel other)] at hrun
  cases hrun
  exact note_silent rfl (silent_error _)

private theorem balanced_note {move : Move} (h : j.Balanced k)
    (hrun : (move.run fuel).on j.machine = (o, m)) (hend : o ≠ .error .exhausted) :
    (j.note move o m).Balanced k := by
  cases h with
  | rests hrests haccepted =>
    cases move with
    | read text => exact read_rests hrests haccepted hrun hend
    | callBack place =>
      obtain ⟨hrests', ho⟩ := callBack_rests hrests hrun
      rw [note_silent rfl ho]
      exact .rests hrests' haccepted
    | key code =>
      obtain ⟨hrests', ho⟩ := sendKey_rests hrests hrun
      rw [note_silent rfl ho]
      exact .rests hrests' haccepted
  | held hheld haccepted =>
    cases move with
    | read text =>
      rw [read_held hheld hrun]
      exact .held hheld haccepted
    | callBack place => exact balanced_of_continues rfl haccepted (callBack_held hheld hrun hend)
    | key code => exact balanced_of_continues rfl haccepted (sendKey_held hheld hrun hend)

theorem Course.balanced (h : Course k j) : j.Balanced k := by
  induction h with
  | start hsize hheap hbase hscheduler hstart hlisten =>
    have hstarted := start_between hsize hheap hbase hscheduler hstart
    rcases listen_between hstarted hlisten with h | ⟨text, h⟩
    · refine .rests h ?_
      rw [h.line]
      rfl
    · refine .held h ?_
      rw [h.line]
      rfl
  | move _ hrun hend ih => exact balanced_note ih hrun hend

private theorem Course.done (h : Course k j) : ∀ r ∈ j.done, r.paused = false := by
  induction h with
  | start =>
    intro r hr
    cases hr
  | @move fuel move j o m _ _ _ ih =>
    intro r hr
    rcases List.mem_append.mp hr with hr | hr
    · exact ih r hr
    · unfold final at hr
      split at hr
      · split at hr
        · cases hr
        · rename_i hpaused
          rw [List.mem_singleton.mp hr]
          exact Bool.eq_false_iff.mpr hpaused
      · cases hr

/-- After any moves of the host, the session is at rest and every line that was accepted is done, or
it has the last line on hold, and no other. Then one continuation is left, which is up to the next
key or to the scheduler, and every other line is refused. A continuation that is used up is refused.
The listeners heard of every line that is done, in the order of acceptance. -/
theorem lines_live_one_at_a_time (h : Course k j) :
    (j.machine.AtRest ∧ j.machine.AllSpent ∧ j.accepted = j.done.map LineResult.line ∧
        (∀ fuel text, ((readLine fuel text).on j.machine).1 = .error .exhausted ∨
          ∃ r, ((readLine fuel text).on j.machine).1 = .ok r) ∨
      j.machine.OnHold ∧
        (∃ c, j.before ≤ c ∧ j.machine.ledger.Sole c ∧ j.machine.Entrusts c) ∧
        (∃ text, j.machine.line.map Line.text = some text ∧
          j.accepted = j.done.map LineResult.line ++ [text]) ∧
        ∀ fuel text, (readLine fuel text).on j.machine =
          (.error (.failed { cause := .lineInFlight }), j.machine)) ∧
    (∀ fuel, ∀ c ∈ j.machine.spent, (resume fuel c).on j.machine =
      (.error (.failed { cause := .continuationSpent }), j.machine)) ∧
    j.machine.heard = j.done.flatMap (told k) ∧ ∀ r ∈ j.done, r.paused = false := by
  have hspent (fuel : Nat) (c : Nat) (hc : c ∈ j.machine.spent) := resume_of_spent hc fuel
  cases h.balanced with
  | rests hrests haccepted =>
    refine ⟨.inl ⟨hrests.toAtRest, hrests.spent, haccepted, fun fuel text => ?_⟩, hspent,
      hrests.heard, h.done⟩
    by_cases hend : ((readLine fuel text).on j.machine).1 = .error .exhausted
    · exact .inl hend
    · obtain ⟨r, hr, -⟩ := readLine_rests hrests (Nat.zero_le _) rfl hend
      exact .inr ⟨r, hr⟩
  | held hheld haccepted =>
    have hline : j.machine.line.isSome = true := by
      rw [← Option.isSome_map (f := Line.text), hheld.line]
      rfl
    exact ⟨.inr ⟨⟨hline, hheld.source, hheld.paused, hheld.running⟩, hheld.owed,
      ⟨_, hheld.line, haccepted⟩, readLine_held hheld⟩, hspent, hheld.heard, h.done⟩

def play (fuel : Nat) : List Move → Journal → Journal
  | [], j => j
  | move :: moves, j =>
    let r := (move.run fuel).on j.machine
    play fuel moves (j.note move r.1 r.2)

def playable (fuel : Nat) : List Move → Journal → Bool
  | [], _ => true
  | move :: moves, j =>
    let r := (move.run fuel).on j.machine
    !(r.1 matches .error .exhausted) && playable fuel moves (j.note move r.1 r.2)

theorem Course.play {moves : List Move} (h : Course k j)
    (hplay : playable fuel moves j = true) : Course k (play fuel moves j) := by
  induction moves generalizing j with
  | nil => exact h
  | cons move moves ih =>
    rw [playable, Bool.and_eq_true] at hplay
    refine ih (h.move rfl fun hend => ?_) hplay.2
    rw [hend] at hplay
    cases hplay.1

def heardSession : Journal :=
  let m := ((listen 1).on builtin).2
  { machine := m, accepted := (m.line.map Line.text).toList }

theorem heardSession_course : Course 1 heardSession :=
  .start rfl rfl rfl rfl builtin_start rfl

private def napAndWaitMoves : List Move :=
  [.read "1 sleep 2 .", .read "3", .callBack 0, .callBack 0, .read "key ."]

private def napAndWait : Journal := play 100 napAndWaitMoves heardSession

theorem napAndWait_lives_one_at_a_time :
    napAndWait.machine.OnHold ∧ napAndWait.accepted = ["1 sleep 2 .", "key ."] ∧
      (∃ c, 0 < c ∧ napAndWait.machine.ledger.Sole c ∧ napAndWait.machine.Entrusts c) ∧
      napAndWait.machine.heard = [("1 sleep 2 .", "2  ok")] := by
  obtain ⟨hplay, hpaused, haccepted, hbefore, hdone⟩ :
      playable 100 napAndWaitMoves heardSession = true ∧ napAndWait.machine.paused = true ∧
        napAndWait.accepted = ["1 sleep 2 .", "key ."] ∧ napAndWait.before = 1 ∧
        napAndWait.done.flatMap (told 1) = [("1 sleep 2 .", "2  ok")] := by
    decide +kernel
  have hcourse : Course 1 napAndWait := heardSession_course.play hplay
  obtain ⟨⟨hrest, -⟩ | ⟨hhold, ⟨c, hc, howed⟩, -⟩, -, hheard, -⟩ :=
    lines_live_one_at_a_time hcourse
  · rw [hrest.paused] at hpaused
    cases hpaused
  · rw [hbefore] at hc
    exact ⟨hhold, haccepted, ⟨c, hc, howed⟩, hheard.trans hdone⟩

end Session

end Forthline
