import Forthline.Proofs.Fences
import Forthline.Proofs.LifeCycle

/-!
# Keys

`key` suspends its line until the host sends a key. That key goes to the line and to no other, and
is on the stack before the next word runs. A key for which no line waits is stored and nothing else.
-/

namespace Forthline

namespace Machine

def Unwatched (m : Machine) : Prop := m.memory.watchers = []

def stored (m : Machine) (code : Value) : Machine :=
  match m.memory.addressOf? "last-key" with
  | some address => { m with memory := m.memory.setCell address.toNat code }
  | none => m

def handed (m : Machine) (code : Value) (continuation : Nat) : Machine :=
  { m.stored code with
    stack := m.stack.push code
    waiting := none
    spent := continuation :: m.spent
    paused := false }

def awaiting (m : Machine) (rest : List Node) : Machine :=
  { m with
    frames := .sequence rest :: m.frames.tail
    steps := m.steps + 1
    paused := true
    continuations := m.continuations + 1
    waiting := some m.continuations }

end Machine

namespace Run

section Unwatched

theorem store_of_unwatched {act : Nat → PortAction → Run PortAnswer} {m : Machine}
    {address value : Value} {size : Int} {w : Written Subscription} (hm : m.Unwatched)
    (hw : m.memory.write address value size = .ok w) :
    (store act address value size).on m = (.ok (), { m with memory := w.memory }) := by
  have hnobody : w.watchers = [] := by
    apply List.eq_nil_iff_forall_not_mem.mpr
    intro s hs
    obtain ⟨a, ha⟩ := (Memory.watchers_write hw).2 s hs
    rw [hm] at ha
    cases ha
  rw [store, on_get_bind, hw, on_bind_ok (on_lift_ok _ _), on_modify_bind, hnobody]
  rfl

private theorem store_unwatched (act : Nat → PortAction → Run PortAnswer) (address value : Value)
    (size : Int) : Keeps Machine.Unwatched (store act address value size) := by
  apply Keeps.of_on
  intro m hm
  cases hw : m.memory.write address value size with
  | error c =>
    rw [store, on_get_bind, hw]
    exact hm
  | ok w =>
    rw [store_of_unwatched hm hw]
    exact (Memory.watchers_write hw).1.trans hm

theorem unwatched_grounded : Grounded Machine.Unwatched where
  ground := by
    intro m n hm hmemory _
    rw [Machine.Unwatched, hmemory]
    exact hm
  spare := fun _ _ hm hw => hw.watchers.trans hm
  declare := by
    intro m name a memory hm hdeclared
    obtain ⟨⟨a', memory'⟩, hallot, hbind⟩ := except_bind_eq_ok.mp hdeclared
    cases hbind
    exact (Memory.spares_allot hallot).2.trans hm

theorem unwatched_persists : Persists Machine.Unwatched :=
  unwatched_grounded.persists fun _ ht =>
    unwatched_grounded.writingTask_keeps (store_unwatched withinLine) ht

private theorem callBack_unwatched (fuel place : Nat) :
    Keeps Machine.Unwatched (callBack fuel place) := by
  apply Keeps.get_bind
  intro m hm
  cases m.sleeping[place]? with
  | none => exact Matches.pure _
  | some e =>
    apply Keeps.of_on
    intro n hn
    exact resume_keeps_on unwatched_persists fuel hn (unwatched_grounded.ground hn rfl rfl)

end Unwatched

section Delivery

variable {act : Nat → PortAction → Run PortAnswer} {m : Machine}

private theorem write_variable {σ : Type} {m : Memory σ} {name : String} {address : Int}
    (hm : m.Tame) (haddress : m.addressOf? name = some address) (value : Value) :
    m.write (.int address) value 1 =
      .ok { memory := m.setCell address.toNat value, value
            watchers := m.watchersAt address.toNat } := by
  obtain ⟨b, hb, rfl⟩ := Option.map_eq_some_iff.mp haddress
  obtain ⟨hsize, hlower, hupper⟩ := hm.single _ (Table.mem_of_get? hb)
  dsimp only at hlower hupper
  have hlocate : m.locate (.int b.address) 1 = .ok b.address.toNat :=
    (Memory.locate_eq_ok_iff m _ _ _).mpr ⟨hlower, by omega, rfl⟩
  have hextent : b.address.toNat < m.extent := by
    unfold Memory.extent
    omega
  rw [Memory.write, hlocate]
  change (if b.address.toNat < m.extent then _ else _) = _
  rw [if_pos hextent]
  rfl

private theorem deliverKey_stored (hsound : m.Sound) (hm : m.Unwatched) (code : Value) :
    (deliverKey act code).on m = (handKey code).on (m.stored code) := by
  rw [deliverKey_eq, on_get_bind]
  unfold Machine.stored
  cases haddress : m.memory.addressOf? "last-key" with
  | none => rfl
  | some address =>
    have hwrite := write_variable hsound.2 haddress code
    dsimp only
    rw [on_bind_ok (store_of_unwatched hm hwrite)]

@[simp] theorem stored_waiting (m : Machine) (code : Value) :
    (m.stored code).waiting = m.waiting := by
  unfold Machine.stored
  split
  · rfl
  · rfl

private theorem deliverKey_of_none (hsound : m.Sound) (hm : m.Unwatched)
    (hwaiting : m.waiting = none) (code : Value) :
    (deliverKey act code).on m = (.ok none, m.stored code) := by
  rw [deliverKey_stored hsound hm, handKey_of_none]
  rw [stored_waiting, hwaiting]

private theorem deliverKey_of_some {c : Nat} (hsound : m.Sound) (hm : m.Unwatched)
    (hwaiting : m.waiting = some c) (code : Value) :
    (deliverKey act code).on m = (.ok (some c), (m.stored code).keyed code) := by
  rw [deliverKey_stored hsound hm, handKey_of_some]
  rw [stored_waiting, hwaiting]

theorem cell_stored {address : Int} (haddress : m.memory.addressOf? "last-key" = some address)
    (code : Value) (i : Nat) :
    (m.stored code).memory.cell i = if i = address.toNat then code else m.memory.cell i := by
  unfold Machine.stored
  rw [haddress]
  exact Memory.cell_setCell _ _ _ _

theorem handed_eq (m : Machine) (code : Value) (c : Nat) :
    m.handed code c =
      { (m.stored code).keyed code with spent := c :: (m.stored code).spent, paused := false } := by
  unfold Machine.handed Machine.stored Machine.keyed
  split
  · rfl
  · rfl

variable {k base : Nat} {text : String} {heard : List (String × String)} {running : Bool}

private theorem Aloft.stored (h : Aloft k base text heard running m) (code : Value) :
    Aloft k base text heard running (m.stored code) := by
  unfold Machine.stored
  cases haddress : m.memory.addressOf? "last-key" with
  | none => exact h
  | some address =>
    have hwrite := write_variable h.sound.2 haddress code
    exact { h with sound := ⟨h.sound.1, h.sound.2.evolves (Memory.evolves_write hwrite)⟩ }

end Delivery

section Waiting

variable {m : Machine} {rest : List Node}

theorem turn_of_atKey (h : m.AtKey rest) :
    ∃ m', (m.awaiting rest).Logged m' ∧ turn.on m = (.ok none, m') := by
  obtain ⟨hpaused, name, fs, hframes⟩ := h
  let start : Machine :=
    { m with frames := .sequence rest :: m.frames.tail, steps := m.steps + 1 }
  obtain ⟨n, hn, hreport⟩ := report_logged .debug "Runtime" "Waiting for a key." start
  have hkey : (code (.task .key)).on start =
      (.ok (), { n.suspended with waiting := some n.continuations }) :=
    on_bind_ok hreport _
  refine ⟨{ n.suspended with waiting := some n.continuations }, ?_, ?_⟩
  · obtain ⟨entries, events, rfl⟩ := hn
    exact ⟨entries, events, rfl⟩
  · rw [turn_frame ⟨hpaused, hframes⟩]
    exact on_bind_ok ((advance_native name _ rest m).trans (native_of_ok name hkey)) _

theorem ends_of_atKey (h : m.AtKey rest) :
    ∃ m', (m.awaiting rest).Logged m' ∧ ∀ {o n}, Ends m o n → o = .ok false ∧ n = m' := by
  obtain ⟨m', hm', hturn⟩ := turn_of_atKey h
  have hpaused : m'.paused = true := by
    obtain ⟨entries, events, rfl⟩ := hm'
    rfl
  refine ⟨m', hm', fun hends => ?_⟩
  exact ends_of_paused hpaused ((Reaches.step hturn (.refl m')).ends hends)

variable {k base : Nat} {text : String} {heard : List (String × String)}

/-- A line that ends up waiting for a key came to `key`. -/
theorem atKey_of_ends {n : Machine} {o : Except Failure Bool} (hends : Ends m o n)
    (h : Going k base text heard m) (hwaiting : n.waiting ≠ none) :
    ∃ m₁ rest, Reaches m m₁ ∧ m₁.AtKey rest := by
  induction hends with
  | @stop m n done hturn =>
    rcases turn_going h hturn with hgoing | ⟨hnone, -⟩
    · exact absurd hgoing.waiting hwaiting
    · cases hnone
  | @fail m n f hturn =>
    rcases turn_going h hturn with hgoing | ⟨hnone, -⟩
    · exact absurd hgoing.waiting hwaiting
    · cases hnone
  | @step m m₁ n o hturn hrest ih =>
    rcases turn_going h hturn with hgoing | ⟨-, hheld, ⟨rest, hkey⟩ | hnone⟩
    · obtain ⟨m₂, rest, hreaches, hkey⟩ := ih hgoing hwaiting
      exact ⟨m₂, rest, .step hturn hreaches, hkey⟩
    · exact ⟨m, rest, .refl m, hkey⟩
    · obtain ⟨-, rfl⟩ := ends_of_paused hheld.paused hrest
      exact absurd hnone hwaiting

private theorem drive_ends {fuel : Nat} (h : Going k base text heard { m with running := true })
    (hend : ((drive fuel).on m).1 ≠ .error .exhausted) :
    ∃ out n map m', Ends { m with running := true } out n ∧
      (drive fuel).on m = (.ok (Machine.result { n with running := false } map out), m') ∧
      (Machine.concluded { n with running := false } map out).Logged m' := by
  obtain ⟨out, n, hline, hconclude⟩ := drive_cases hend
  have hends : Ends { m with running := true } out n :=
    (continueLine_iff_ends _ _ _).mp ⟨fuel, hline⟩
  have hsound : n.Sound := by
    rcases ends_going hends h with ⟨-, hgoing⟩ | ⟨-, hheld⟩
    · exact hgoing.sound
    · exact hheld.sound
  obtain ⟨map, hmap⟩ := n.memory.map_eq_ok_iff.mpr hsound.2.legible
  obtain ⟨m', hm', hresult⟩ := conclude_of_map (m := { n with running := false }) hmap out
  exact ⟨out, n, map, m', hends, hconclude.trans hresult, hm'⟩

end Waiting

end Run

namespace Session

open Run

/-- What a move does before the line goes on. Tells whether it does. -/
def Move.opening (fuel : Nat) : Move → Run Bool
  | read text => do
    beginLine text
    return true
  | callBack place => do
    match (← get).sleeping[place]? with
    | none => return false
    | some (_, continuation) => rouse continuation
  | key code => do
    match ← deliverKey (betweenLines fuel) code with
    | some continuation => rouse continuation
    | none => return false

theorem Move.run_eq (fuel : Nat) (move : Move) :
    move.run fuel = (do if ← move.opening fuel then some <$> drive fuel else return none) := by
  cases move with
  | read text =>
    simp only [Move.run, Move.opening, readLine_eq, map_bind, bind_assoc, pure_bind, if_true]
  | callBack place =>
    simp only [Move.run, Move.opening, Run.callBack, bind_assoc]
    refine bind_congr fun m => ?_
    cases m.sleeping[place]? with
    | none => rfl
    | some e => exact resume_eq fuel e.2
  | key code =>
    simp only [Move.run, Move.opening, sendKey, bind_assoc]
    refine bind_congr fun c => ?_
    cases c with
    | none => rfl
    | some c => exact resume_eq fuel c

def Move.isKey : Move → Bool
  | key _ => true
  | _ => false

def makeMoves : List (Nat × Move) → Machine → List (Except Stop (Option LineResult)) × Machine
  | [], m => ([], m)
  | (fuel, move) :: moves, m =>
    let made := (move.run fuel).on m
    let rest := makeMoves moves made.2
    (made.1 :: rest.1, rest.2)

variable {k : Nat} {j : Journal}

private theorem listen_unwatched (k : Nat) : Keeps Machine.Unwatched (listen k) := by
  induction k with
  | zero => exact Matches.pure _
  | succ k ih => exact Matches.bind ih fun _ => Keeps.of_on fun _ hm => hm

theorem Move.unwatched (fuel : Nat) (move : Move) :
    Keeps Machine.Unwatched (move.run fuel) := by
  cases move with
  | read text => exact (readLine_keeps unwatched_persists.lasts fuel text).map _
  | callBack place => exact callBack_unwatched fuel place
  | key code =>
    apply sendKey_keeps unwatched_persists fuel
    intro m a hm _
    exact (store_unwatched _ _ _ _).on hm

theorem Course.unwatched (h : Course k j) : j.machine.Unwatched := by
  induction h with
  | @start fuel c m m' _ _ _ _ hstart hlisten =>
    obtain ⟨threshold, hload⟩ := load_of_start hstart
    have hm := (load_keeps unwatched_persists fuel c.loadLibrary).on
      (m := blank c threshold) rfl
    rw [hload] at hm
    have hm' := (listen_unwatched k).on hm
    rwa [hlisten] at hm'
  | @move fuel move j o m _ hrun _ ih =>
    have hm := (move.unwatched fuel).on ih
    rwa [hrun] at hm

private theorem Course.sound (h : Course k j) : j.machine.Sound := by
  cases h.balanced with
  | rests hrests _ => exact hrests.sound
  | held hheld _ => exact hheld.sound

private theorem opening_key_of_none (h : Course k j) (hwaiting : j.machine.waiting = none)
    (fuel : Nat) (code : Value) :
    ((Move.key code).opening fuel).on j.machine = (.ok false, j.machine.stored code) := by
  rw [Move.opening, on_bind_ok (deliverKey_of_none h.sound h.unwatched hwaiting code)]
  rfl

private theorem sendKey_of_none (h : Course k j) (hwaiting : j.machine.waiting = none)
    (fuel : Nat) (code : Value) :
    (sendKey fuel code).on j.machine = (.ok none, j.machine.stored code) := by
  rw [sendKey, on_bind_ok (deliverKey_of_none h.sound h.unwatched hwaiting code)]
  rfl

private theorem Course.waits (h : Course k j) {c : Nat} (hwaiting : j.machine.waiting = some c) :
    ∃ text, Held k j.before text (j.done.flatMap (told k)) false j.machine ∧
      j.machine.ledger.Sole c ∧ ∀ e ∈ j.machine.sleeping, e.2 ≠ c := by
  cases h.balanced with
  | rests hrests _ =>
    rw [hrests.waiting] at hwaiting
    cases hwaiting
  | @held text hheld _ =>
    obtain ⟨d, -, hsole, ⟨hd, hapart⟩ | ⟨hnone, -⟩⟩ := hheld.owed
    · rw [hd] at hwaiting
      cases hwaiting
      exact ⟨text, hheld, hsole, hapart⟩
    · rw [hnone] at hwaiting
      cases hwaiting

private theorem opening_key_of_some (h : Course k j) {c : Nat}
    (hwaiting : j.machine.waiting = some c) (fuel : Nat) (code : Value) :
    ∃ n, (j.machine.handed code c).Logged n ∧
      ((Move.key code).opening fuel).on j.machine = (.ok true, n) ∧
      ∃ text, Going k j.before text (j.done.flatMap (told k)) { n with running := true } := by
  obtain ⟨text, hheld, hsole, -⟩ := h.waits hwaiting
  have hstored := Aloft.stored hheld.toAloft code
  have hspent : (j.machine.stored code).spent = j.machine.spent := by
    unfold Machine.stored
    split
    · rfl
    · rfl
  have hledger : ((j.machine.stored code).keyed code).ledger =
      { j.machine.ledger with waiting := none } := by
    unfold Machine.stored
    split
    · rfl
    · rfl
  have hkeyed : Aloft k j.before text (j.done.flatMap (told k)) false
      ((j.machine.stored code).keyed code) :=
    { hstored with sound := ⟨hstored.sound.1.await nofun, hstored.sound.2⟩ }
  have hsole' : ((j.machine.stored code).keyed code).ledger.Sole c := by
    rw [hledger]
    exact { hsole with }
  have hfresh : ((j.machine.stored code).keyed code).spent.contains c = false := by
    have hnew : c ∉ j.machine.spent := hsole.fresh
    change (j.machine.stored code).spent.contains c = false
    rw [hspent]
    simpa using hnew
  obtain ⟨line, hline, -⟩ := Option.map_eq_some_iff.mp hkeyed.line
  obtain ⟨n, hn, hheard, hrouse⟩ := rouse_of_line hfresh hkeyed.running hline
  refine ⟨n, ?_, ?_, text, hkeyed.going hsole' rfl hn hheard⟩
  · rw [handed_eq]
    exact hn
  · rw [Move.opening, on_bind_ok (deliverKey_of_some h.sound h.unwatched hwaiting code)]
    exact hrouse

private theorem unmoved_of_waiting (h : Course k j) {c : Nat}
    (hwaiting : j.machine.waiting = some c) {move : Move} (hmove : move.isKey = false)
    (fuel : Nat) :
    ∃ o, Silent o ∧ (move.run fuel).on j.machine = (o, j.machine) := by
  obtain ⟨text, hheld, hsole, hapart⟩ := h.waits hwaiting
  cases move with
  | read other =>
    refine ⟨_, silent_error (.failed { cause := .lineInFlight }), ?_⟩
    rw [Move.run, ← bind_pure_comp, on_bind_error (readLine_held hheld fuel other)]
  | callBack place =>
    rw [Move.run, callBack, on_get_bind]
    cases hplace : j.machine.sleeping[place]? with
    | none => exact ⟨.ok none, silent_none, rfl⟩
    | some e =>
      have he : e ∈ j.machine.sleeping := List.mem_of_getElem? hplace
      have hspent : e.2 ∈ j.machine.spent :=
        hsole.others e.2 (hheld.sound.1.sleeping e he) (hapart e he)
      exact ⟨_, silent_error _, resume_of_spent hspent fuel⟩
  | key code => cases hmove

private theorem unmoved_all (h : Course k j) {c : Nat} (hwaiting : j.machine.waiting = some c)
    {moves : List (Nat × Move)} (hmoves : ∀ e ∈ moves, e.2.isKey = false) :
    (makeMoves moves j.machine).2 = j.machine ∧
      ∀ o ∈ (makeMoves moves j.machine).1, Silent o := by
  induction moves with
  | nil => exact ⟨rfl, List.forall_mem_nil _⟩
  | cons e moves ih =>
    obtain ⟨fuel, move⟩ := e
    obtain ⟨hmove, hmoves⟩ := List.forall_mem_cons.mp hmoves
    obtain ⟨o, ho, hrun⟩ := unmoved_of_waiting h hwaiting hmove fuel
    obtain ⟨hsame, hsilent⟩ := ih hmoves
    simp only [makeMoves, hrun]
    exact ⟨hsame, List.forall_mem_cons.mpr ⟨ho, hsilent⟩⟩

private theorem rouse_cases (h : Course k j) {e : Binary64 × Nat} (he : e ∈ j.machine.sleeping) :
    (∃ n base text heard, (rouse e.2).on j.machine = (.ok true, n) ∧
        Going k base text heard { n with running := true }) ∨
      (rouse e.2).on j.machine = (.error (.failed { cause := .continuationSpent }), j.machine) := by
  have hused (hspent : e.2 ∈ j.machine.spent) :
      (rouse e.2).on j.machine = (.error (.failed { cause := .continuationSpent }), j.machine) :=
    rouse_of_spent (List.contains_iff_mem.mpr hspent)
  cases h.balanced with
  | rests hrests _ => exact .inr (hused (hrests.spent e.2 (hrests.sound.1.sleeping e he)))
  | held hheld _ =>
    obtain ⟨c, -, hsole, hentrusts⟩ := hheld.owed
    by_cases hec : e.2 = c
    · have hwaiting : j.machine.waiting = none := by
        rcases hentrusts with ⟨-, hapart⟩ | ⟨hnone, -⟩
        · exact absurd hec (hapart e he)
        · exact hnone
      have hnew : c ∉ j.machine.spent := hsole.fresh
      have hfresh : j.machine.spent.contains e.2 = false := by simpa [hec] using hnew
      obtain ⟨line, hline, -⟩ := Option.map_eq_some_iff.mp hheld.line
      obtain ⟨n, hn, hheard, hrouse⟩ := rouse_of_line hfresh hheld.running hline
      exact .inl ⟨n, _, _, _, hrouse, hheld.toAloft.going (hec ▸ hsole) hwaiting hn hheard⟩
    · exact .inr (hused (hsole.others e.2 (hheld.sound.1.sleeping e he) hec))

private theorem opening_cases (h : Course k j) (fuel : Nat) (move : Move) :
    (∃ n base text heard, (move.opening fuel).on j.machine = (.ok true, n) ∧
        Going k base text heard { n with running := true }) ∨
      ∃ o n, (move.opening fuel).on j.machine = (o, n) ∧ o ≠ .ok true ∧
        (n = j.machine ∨ n.waiting = none) := by
  cases move with
  | read text =>
    cases h.balanced with
    | rests hrests _ =>
      obtain ⟨n, hn, hheard, hbegin⟩ := beginLine_of_free hrests.toIdle.free text
      refine .inl ⟨n, 0, text, _, ?_, hrests.going (Nat.zero_le _) hn hheard⟩
      rw [Move.opening, on_bind_ok hbegin]
      rfl
    | held hheld _ =>
      refine .inr ⟨.error (.failed { cause := .lineInFlight }), j.machine, ?_, nofun, .inl rfl⟩
      have hbusy : (j.machine.line.isSome || j.machine.paused || j.machine.running) = true := by
        rw [hheld.paused, Bool.or_true, Bool.true_or]
      rw [Move.opening, on_bind_error (beginLine_of_busy text hbusy)]
  | callBack place =>
    rw [Move.opening, on_get_bind]
    cases hplace : j.machine.sleeping[place]? with
    | none => exact .inr ⟨.ok false, j.machine, rfl, nofun, .inl rfl⟩
    | some e =>
      rcases rouse_cases h (List.mem_of_getElem? hplace) with hgoing | hspent
      · exact .inl hgoing
      · exact .inr ⟨_, _, hspent, nofun, .inl rfl⟩
  | key code =>
    cases hwaiting : j.machine.waiting with
    | none =>
      refine .inr ⟨_, _, opening_key_of_none h hwaiting fuel code, nofun, .inr ?_⟩
      rw [stored_waiting, hwaiting]
    | some c =>
      obtain ⟨n, -, hopening, text, hgoing⟩ := opening_key_of_some h hwaiting fuel code
      exact .inl ⟨n, _, text, _, hopening, hgoing⟩

private theorem run_ends (h : Course k j) {fuel : Nat} {move : Move} {n₀ : Machine}
    (hopening : (move.opening fuel).on j.machine = (.ok true, n₀))
    (hend : ((move.run fuel).on j.machine).1 ≠ .error .exhausted) :
    ∃ base text heard out n map m', Going k base text heard { n₀ with running := true } ∧
      Ends { n₀ with running := true } out n ∧
      (move.run fuel).on j.machine =
        (.ok (some (Machine.result { n with running := false } map out)), m') ∧
      (Machine.concluded { n with running := false } map out).Logged m' := by
  obtain ⟨n₁, base, text, heard, hsame, hgoing⟩ | ⟨o, n₁, hsame, ho, -⟩ :=
    opening_cases h fuel move
  · rw [hopening] at hsame
    cases hsame
    have hrun : (move.run fuel).on j.machine = (some <$> drive fuel).on n₀ := by
      rw [move.run_eq, on_bind_ok hopening, if_pos rfl]
    have hdrive : ((drive fuel).on n₀).1 ≠ .error .exhausted := by
      intro hexhausted
      have hstop : (drive fuel).on n₀ = (.error .exhausted, ((drive fuel).on n₀).2) :=
        Prod.ext hexhausted rfl
      rw [hrun, ← bind_pure_comp, on_bind_error hstop] at hend
      exact hend rfl
    obtain ⟨out, n, map, m', hends, hresult, hm'⟩ := drive_ends hgoing hdrive
    refine ⟨base, text, heard, out, n, map, m', hgoing, hends, ?_, hm'⟩
    rw [hrun, ← bind_pure_comp, on_bind_ok hresult]
    rfl
  · rw [hopening] at hsame
    cases hsame
    exact absurd rfl ho

private theorem waits_at_key (h : Course k j) {fuel : Nat} {move : Move} {n₀ n : Machine}
    {rest : List Node} (hopening : (move.opening fuel).on j.machine = (.ok true, n₀))
    (hreaches : Reaches { n₀ with running := true } n) (hkey : n.AtKey rest)
    (hend : ((move.run fuel).on j.machine).1 ≠ .error .exhausted) :
    ∃ r m', (move.run fuel).on j.machine = (.ok (some r), m') ∧ r.paused = true ∧
      Machine.Logged { n.awaiting rest with running := false } m' := by
  obtain ⟨_, _, _, out, n', map, m', -, hends, hrun, hm'⟩ := run_ends h hopening hend
  obtain ⟨n₁, hn₁, hunique⟩ := ends_of_atKey hkey
  obtain ⟨rfl, rfl⟩ := hunique (hreaches.ends hends)
  refine ⟨_, m', hrun, rfl, ?_⟩
  obtain ⟨entries, events, rfl⟩ := hn₁
  obtain ⟨entries, events, rfl⟩ := hm'
  exact ⟨entries, events, rfl⟩

private theorem concluded_waiting {m : Machine} {map : MemoryMap} {out : Except Failure Bool}
    {c : Nat} (h : (m.concluded map out).waiting = some c) : m.waiting = some c := by
  rcases out with f | _ | _
  · cases h
  · exact h
  · exact h

private theorem key_of_waits (h : Course k j) {fuel c : Nat} {move : Move}
    (hend : ((move.run fuel).on j.machine).1 ≠ .error .exhausted)
    (hwaiting : ((move.run fuel).on j.machine).2.waiting = some c) :
    ((move.run fuel).on j.machine).2 = j.machine ∨
      ∃ n₀ n rest, (move.opening fuel).on j.machine = (.ok true, n₀) ∧
        Reaches { n₀ with running := true } n ∧ n.AtKey rest := by
  rcases hrun : (move.run fuel).on j.machine with ⟨o, m'⟩
  rw [hrun] at hwaiting
  obtain ⟨n₀, _, _, _, hopening, -⟩ | ⟨out, n₀, hopening, hout, hn₀⟩ := opening_cases h fuel move
  · obtain ⟨_, _, _, out, n, map, m₁, hgoing, hends, hmade, hm₁⟩ :=
      run_ends h hopening hend
    rw [hrun] at hmade
    cases hmade
    have hwaits : n.waiting = some c := by
      obtain ⟨entries, events, rfl⟩ := hm₁
      exact concluded_waiting (m := { n with running := false }) hwaiting
    obtain ⟨n₁, rest, hreaches, hkey⟩ := atKey_of_ends hends hgoing (by simp [hwaits])
    exact .inr ⟨n₀, n₁, rest, hopening, hreaches, hkey⟩
  · have hm' : m' = n₀ := by
      rw [move.run_eq] at hrun
      rcases out with stop | _ | _
      · rw [on_bind_error hopening] at hrun
        cases hrun
        rfl
      · rw [on_bind_ok hopening] at hrun
        cases hrun
        rfl
      · exact absurd rfl hout
    rcases hn₀ with hsame | hnone
    · exact .inl (hm'.trans hsame)
    · rw [hm', hnone] at hwaiting
      cases hwaiting

/-- Keys are neither lost nor handed out twice. A key for which no line waits is stored in
`last-key`, and nothing else changes. A line that waits for a key does so until the next one,
however often the host reads other lines or calls back; that key is stored, and the line goes on
with it on the stack. Only where a line comes to `key` does it start to wait. -/
theorem keys_are_handed_over_once (h : Course k j) :
    (j.machine.waiting = none → ∀ fuel code,
      (sendKey fuel code).on j.machine = (.ok none, j.machine.stored code)) ∧
    (∀ c, j.machine.waiting = some c →
      j.machine.OnHold ∧
      ∀ moves, (∀ e ∈ moves, e.2.isKey = false) →
        (∀ o ∈ (makeMoves moves j.machine).1, Silent o) ∧
        (makeMoves moves j.machine).2 = j.machine ∧
        ∀ fuel code, ∃ n, (j.machine.handed code c).Logged n ∧
          (sendKey fuel code).on (makeMoves moves j.machine).2 = (some <$> drive fuel).on n) ∧
    (∀ address, j.machine.memory.addressOf? "last-key" = some address → ∀ code i,
      (j.machine.stored code).memory.cell i =
        if i = address.toNat then code else j.machine.memory.cell i) ∧
    ∀ (fuel : Nat) (move : Move), ((move.run fuel).on j.machine).1 ≠ .error .exhausted →
      (∀ n₀ n rest, (move.opening fuel).on j.machine = (.ok true, n₀) →
        Reaches { n₀ with running := true } n → n.AtKey rest →
        ∃ r m', (move.run fuel).on j.machine = (.ok (some r), m') ∧ r.paused = true ∧
          Machine.Logged { n.awaiting rest with running := false } m') ∧
      ∀ c, ((move.run fuel).on j.machine).2.waiting = some c →
        ((move.run fuel).on j.machine).2 = j.machine ∨
          ∃ n₀ n rest, (move.opening fuel).on j.machine = (.ok true, n₀) ∧
            Reaches { n₀ with running := true } n ∧ n.AtKey rest := by
  refine ⟨sendKey_of_none h, ?_, fun _ haddress => cell_stored haddress, ?_⟩
  · intro c hwaiting
    obtain ⟨text, hheld, -, -⟩ := h.waits hwaiting
    have hline : j.machine.line.isSome = true := by
      rw [← Option.isSome_map (f := Line.text), hheld.line]
      rfl
    refine ⟨⟨hline, hheld.source, hheld.paused, hheld.running⟩, fun moves hmoves => ?_⟩
    obtain ⟨hsame, hsilent⟩ := unmoved_all h hwaiting hmoves
    refine ⟨hsilent, hsame, fun fuel code => ?_⟩
    obtain ⟨n, hn, hopening, -⟩ := opening_key_of_some h hwaiting fuel code
    refine ⟨n, hn, ?_⟩
    change ((Move.key code).run fuel).on _ = _
    rw [hsame, Move.run_eq, on_bind_ok hopening, if_pos rfl]
  · intro fuel move hend
    exact ⟨fun n₀ n rest hopening hreaches hkey => waits_at_key h hopening hreaches hkey hend,
      fun c hwaiting => key_of_waits h hend hwaiting⟩

private def twoKeysMoves : List Move :=
  [.read "variable last-key", .read "1 sleep key key -", .key (.int 7), .callBack 0]

private def twoKeys : Journal := play 100 twoKeysMoves heardSession

theorem twoKeys_handed_over_once :
    twoKeys.machine.waiting = some 1 ∧ twoKeys.machine.OnHold ∧
      twoKeys.machine.memory.addressOf? "last-key" = some 1000 ∧
      (twoKeys.machine.stored (.int 65)).memory.cell 1000 = .int 65 ∧
      ∃ n, (twoKeys.machine.handed (.int 65) 1).Logged n ∧
        (sendKey 100 (.int 65)).on (makeMoves [(100, .read "2"), (100, .callBack 0)]
          twoKeys.machine).2 = (some <$> drive 100).on n := by
  obtain ⟨hplay, hwaiting, haddress⟩ : playable 100 twoKeysMoves heardSession = true ∧
      twoKeys.machine.waiting = some 1 ∧
      twoKeys.machine.memory.addressOf? "last-key" = some 1000 := by
    decide +kernel
  have hcourse : Course 1 twoKeys := heardSession_course.play hplay
  obtain ⟨-, hwaits, hcell, -⟩ := keys_are_handed_over_once hcourse
  obtain ⟨hhold, hmoves⟩ := hwaits 1 hwaiting
  obtain ⟨-, -, hkey⟩ := hmoves [(100, .read "2"), (100, .callBack 0)] (by simp [Move.isKey])
  exact ⟨hwaiting, hhold, haddress, hcell 1000 haddress (.int 65) 1000, hkey 100 (.int 65)⟩

end Session

end Forthline
