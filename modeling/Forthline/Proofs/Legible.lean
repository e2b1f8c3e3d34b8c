import Forthline.Proofs.Outcomes
import Forthline.Proofs.Results
import Forthline.Session.Device

/-!
# Legible memories

The result of a line shows every named block of the memory, and the line stays in flight if one of
them cannot be read. That is so exactly if a block lies outside of the memory, or has several
cells of which one holds no integer. Variables alone never do this.
-/

namespace Forthline

namespace Memory

variable {σ : Type}

/-- A block has a value: it lies inside the memory, and its cells hold integers if there are
several. -/
structure Readable (m : Memory σ) (b : Binding) : Prop where
  lower : 0 ≤ b.address
  upper : b.address + max b.size 1 ≤ m.size
  integers : 1 < b.size → ∀ i < b.size.toNat,
    ∃ n, (m.peek (b.address.toNat + i)).toInteger = .ok n

def Legible (m : Memory σ) : Prop := ∀ e ∈ m.bindings.entries, m.Readable e.2

theorem locate_congr {m n : Memory σ} (h : n.size = m.size) (a size : Int) :
    n.locate (.int a) size = m.locate (.int a) size := by
  simp only [locate, inRange, h]

theorem locate_eq_ok_iff (m : Memory σ) (a size : Int) (place : Nat) :
    m.locate (.int a) size = .ok place ↔ 0 ≤ a ∧ a + size ≤ m.size ∧ place = a.toNat := by
  change m.inRange a size = .ok place ↔ _
  unfold inRange
  split
  · rename_i h
    simp only [Bool.or_eq_true, decide_eq_true_eq] at h
    constructor
    · intro hok
      split at hok <;> cases hok
    · omega
  · rename_i h
    simp only [Bool.or_eq_true, decide_eq_true_eq, not_or, Int.not_lt] at h
    constructor
    · intro hok
      cases hok
      exact ⟨h.1, h.2, rfl⟩
    · rintro ⟨-, -, rfl⟩
      rfl

private theorem read_eq_ok_iff (m : Memory σ) (b : Binding) :
    (∃ v, m.read (.int b.address) b.size = .ok v) ↔ m.Readable b := by
  constructor
  · rintro ⟨v, h⟩
    obtain ⟨a, ha, h⟩ := except_bind_eq_ok.mp h
    obtain ⟨hlower, hupper, rfl⟩ := (locate_eq_ok_iff m _ _ _).mp ha
    split at h
    · rename_i hsize
      obtain ⟨ns, hns, -⟩ := except_bind_eq_ok.mp h
      have hcells := exists_mapM_eq_ok_iff.mp ⟨ns, hns⟩
      exact ⟨hlower, by omega, fun _ i hi => hcells i (List.mem_range.mpr hi)⟩
    · rename_i hsize
      split at h
      · rename_i hplace
        unfold extent at hplace
        exact ⟨hlower, by omega, fun hwide => absurd hwide hsize⟩
      · cases h
  · intro h
    have hlower := h.lower
    have hupper := h.upper
    have ha : m.locate (.int b.address) b.size = .ok b.address.toNat :=
      (locate_eq_ok_iff m _ _ _).mpr ⟨hlower, by omega, rfl⟩
    by_cases hsize : 1 < b.size
    · obtain ⟨ns, hns⟩ := exists_mapM_eq_ok_iff.mpr
        fun i hi => h.integers hsize i (List.mem_range.mp hi)
      refine ⟨.int (joinBytes ns), except_bind_eq_ok.mpr ⟨_, ha, ?_⟩⟩
      rw [if_pos hsize]
      exact except_bind_eq_ok.mpr ⟨ns, hns, rfl⟩
    · refine ⟨m.peek b.address.toNat, except_bind_eq_ok.mpr ⟨_, ha, ?_⟩⟩
      have hplace : b.address.toNat < m.extent := by
        unfold extent
        omega
      rw [if_neg hsize, if_pos hplace]
      rfl

/-- The named blocks can be shown exactly if each of them has a value. -/
theorem map_eq_ok_iff (m : Memory σ) : (∃ map, m.map = .ok map) ↔ m.Legible := by
  have hblock (e : String × Binding) :
      (∃ b : Block, (do
        let value ← m.read (.int e.2.address) e.2.size
        pure { name := e.1, binding := e.2, value } : Except Cause Block) = .ok b) ↔
        m.Readable e.2 := by
    rw [← read_eq_ok_iff]
    constructor
    · rintro ⟨_, h⟩
      obtain ⟨v, hv, -⟩ := except_bind_eq_ok.mp h
      exact ⟨v, hv⟩
    · rintro ⟨v, hv⟩
      exact ⟨_, except_bind_eq_ok.mpr ⟨v, hv, rfl⟩⟩
  unfold Legible
  simp only [← hblock, ← exists_mapM_eq_ok_iff]
  constructor
  · rintro ⟨_, h⟩
    obtain ⟨blocks, hblocks, -⟩ := except_bind_eq_ok.mp h
    exact ⟨blocks, hblocks⟩
  · rintro ⟨blocks, hblocks⟩
    exact ⟨_, except_bind_eq_ok.mpr ⟨blocks, hblocks, rfl⟩⟩

structure Tame (m : Memory σ) : Prop where
  next : 0 ≤ m.next
  heapLimit : m.heapLimit ≤ m.size
  single : ∀ e ∈ m.bindings.entries, e.2.size = 1 ∧ 0 ≤ e.2.address ∧ e.2.address < m.size

theorem Tame.legible {m : Memory σ} (h : m.Tame) : m.Legible := by
  intro e he
  obtain ⟨hsize, hlower, hupper⟩ := h.single e he
  exact ⟨hlower, by omega, fun hwide => by omega⟩

theorem Tame.evolves {m m' : Memory σ} (h : m.Tame) (he : m.Evolves m') : m'.Tame where
  next := Int.le_trans h.next he.next
  heapLimit := by
    rw [he.heapLimit, he.size]
    exact h.heapLimit
  single := by
    rw [he.bindings, he.size]
    exact h.single

theorem Tame.addVariable {m m' : Memory σ} (h : m.Tame) {name : String} {a : Int}
    (hv : m.addVariable name 1 = .ok (a, m')) : m'.Tame := by
  obtain ⟨⟨a', m₁⟩, ha, hm'⟩ := except_bind_eq_ok.mp hv
  have hm₁ := h.evolves (evolves_allot ha)
  unfold allot at ha
  split at ha
  · split at ha <;> cases ha
  · rename_i hroom
    simp only [Bool.or_eq_true, decide_eq_true_eq, not_or, Int.not_lt] at hroom
    cases ha
    cases hm'
    refine ⟨hm₁.next, hm₁.heapLimit, fun e he => ?_⟩
    rcases Table.mem_insertEntry he with rfl | he
    · have hnext := h.next
      have hlimit := h.heapLimit
      refine ⟨rfl, hnext, ?_⟩
      change m.next < m.size
      omega
    · exact hm₁.single e he

end Memory

namespace Run

theorem tame_invariant : Invariant fun m => m.memory.Tame where
  work := fun _ _ h hw => h.evolves hw.memory
  learn := fun _ _ _ _ _ h _ => h
  declare := fun _ _ _ _ h hv => h.addVariable hv
  wake := fun _ _ h _ => h
  pause := fun _ h => h
  hold := fun _ h => h
  await := fun _ h => h
  touch := fun _ h => h
  sleep := fun _ _ h => h
  record := fun _ _ h => h
  rest := fun _ _ _ _ _ _ _ _ h => h

private theorem line_invariant : Invariant fun m => m.line.isSome = true where
  work := fun _ _ h _ => h
  learn := fun _ _ _ _ _ h _ => h
  declare := fun _ _ _ _ h _ => h
  wake := fun _ _ h _ => h
  pause := fun _ h => h
  hold := fun _ h => h
  await := fun _ h => h
  touch := fun _ h => h
  sleep := fun _ _ h => h
  record := fun _ _ h => by simpa using h
  rest := fun _ _ _ _ _ _ _ _ h => h

private theorem ended_line (m : Machine) (o : Except Failure Bool) :
    (m.ended o).line = m.line := by
  rcases o with f | _ | _ <;> rfl

private theorem concluded_memory (m : Machine) (map : MemoryMap) (o : Except Failure Bool) :
    (m.concluded map o).memory = m.memory := by
  rcases o with f | _ | _ <;> rfl

private theorem idle_concluded {m n : Machine} {o : Except Failure Bool} (h : Ends m o n)
    (map : MemoryMap) (hr : (Machine.result { n with running := false } map o).paused = false) :
    (Machine.concluded { n with running := false } map o).Idle := by
  rcases o with f | _ | _
  · exact ⟨rfl, rfl, rfl, rfl⟩
  · cases hr
  · obtain ⟨hpaused, hframes⟩ : Ready [] n := h.stopped
    exact ⟨rfl, hpaused, rfl, hframes⟩

private theorem Idle.logged {m n : Machine} (hm : m.Idle) (h : m.Logged n) : n.Idle := by
  obtain ⟨_, _, rfl⟩ := h
  exact ⟨hm.line, hm.paused, hm.running, hm.frames⟩

private theorem readLine_cases {fuel : Nat} {text : String} {m m' : Machine}
    {o : Except Stop LineResult} (hm : m.Idle) (h : (readLine fuel text).on m = (o, m'))
    (hend : o ≠ .error .exhausted) :
    ∃ start out n, Ends start out n ∧ n.line.isSome = true ∧
      (m.memory.Tame → n.memory.Tame) ∧
      (conclude out).on { n with running := false } = (o, m') := by
  obtain ⟨n, hn, -, hread⟩ := readLine_of_free hm.free text
  rw [hread] at h
  obtain ⟨out, n', hline, hdrive⟩ := drive_cases (m := n) (by rwa [h])
  rw [hdrive] at h
  refine ⟨_, out, n', (continueLine_iff_ends _ _ _).mp ⟨fuel, hline⟩, ?_, fun ht => ?_, h⟩
  · have hkept := (continueLine_keeps line_invariant.carries fuel).on
      (m := { n with running := true }) (by obtain ⟨_, _, rfl⟩ := hn; rfl)
    rwa [hline] at hkept
  · have hkept := (continueLine_keeps tame_invariant.carries fuel).on
      (m := { n with running := true })
      (by rw [show n.memory = m.memory from hn.memory]; exact ht)
    rwa [hline] at hkept

private theorem readLine_of_ended {m n : Machine} {o : Except Failure Bool}
    (hm : m.line.isSome = true) (h : (m.ended o).Logged n) (fuel : Nat) (text : String) :
    (readLine fuel text).on n = (.error (.failed { cause := .lineInFlight }), n) := by
  refine readLine_of_busy fuel text ?_
  obtain ⟨_, _, rfl⟩ := h
  change ((m.ended o).line.isSome || _ || _) = true
  rw [ended_line, hm]
  rfl

/-- A line that an idle machine reads, and that comes to an end or is suspended, leads to a result
exactly if the memory is legible then. If it does and the line is not suspended, the machine is
idle again; if it does not, no line is read any more. With variables as its only names, the
memory stays legible. -/
theorem readLine_returns_iff_legible {fuel : Nat} {text : String} {m m' : Machine}
    {o : Except Stop LineResult} (hm : m.Idle) (h : (readLine fuel text).on m = (o, m'))
    (hend : o ≠ .error .exhausted) :
    ((∃ r, o = .ok r) ↔ m'.memory.Legible) ∧
    (∀ r, o = .ok r → r.paused = false → m'.Idle) ∧
    (∀ stop, o = .error stop → ∀ fuel text,
      (readLine fuel text).on m' = (.error (.failed { cause := .lineInFlight }), m')) ∧
    (m.memory.Tame → m'.memory.Tame ∧ ∃ r, o = .ok r) := by
  obtain ⟨start, out, n, hends, hflight, htame, h⟩ := readLine_cases hm h hend
  have hmap_iff := n.memory.map_eq_ok_iff
  cases hmap : n.memory.map with
  | ok map =>
    have hlegible : n.memory.Legible := hmap_iff.mp ⟨map, hmap⟩
    obtain ⟨k, hk, hconclude⟩ := conclude_of_map (m := { n with running := false }) hmap out
    rw [hconclude] at h
    cases h
    have hmemory : m'.memory = n.memory := hk.memory.trans (concluded_memory _ _ _)
    rw [hmemory]
    refine ⟨⟨fun _ => hlegible, fun _ => ⟨_, rfl⟩⟩, ?_, ?_, fun ht => ⟨htame ht, _, rfl⟩⟩
    · intro r hr hpaused
      cases hr
      exact Idle.logged (idle_concluded hends map hpaused) hk
    · intro _ hr
      cases hr
  | error c =>
    have hillegible : ¬n.memory.Legible := by
      intro hlegible
      obtain ⟨map, hok⟩ := hmap_iff.mpr hlegible
      rw [hmap] at hok
      cases hok
    obtain ⟨k, hk, hconclude⟩ := conclude_of_error (m := { n with running := false }) hmap out
    rw [hconclude] at h
    cases h
    have hmemory : m'.memory = n.memory := hk.memory.trans (ended_memory _ _)
    rw [hmemory]
    refine ⟨⟨?_, fun hlegible => absurd hlegible hillegible⟩, ?_, ?_, fun ht => ?_⟩
    · rintro ⟨_, hr⟩
      cases hr
    · intro _ hr
      cases hr
    · intro _ _ fuel text
      exact readLine_of_ended (m := { n with running := false }) hflight hk fuel text
    · exact absurd (htame ht).legible hillegible

private def bareSession : Except Stop Machine := Session.start 100 { loadLibrary := false }

private def wideDevice : Offer :=
  { name := some "d", ports := some [.port "w" 2 "readwrite" ""] }

private def wideSession : Except Stop String × Machine :=
  match bareSession with
  | .ok m => (attach 100 wideDevice).on m
  | .error stop => (.error stop, {})

private def spoilingLine : String := ".\" x\" 4096 !"

private theorem wideSession_attached :
    ∃ m device, bareSession = .ok m ∧
      (attach 100 wideDevice).on m = (.ok device, wideSession.2) := by
  have hstart : bareSession.isOk = true := by decide +kernel
  have hattach : wideSession.1.isOk = true := by decide +kernel
  cases hm : bareSession with
  | error stop =>
    rw [hm] at hstart
    cases hstart
  | ok m =>
    have hon : wideSession = (attach 100 wideDevice).on m := by
      unfold wideSession
      rw [hm]
    cases hd : wideSession.1 with
    | error stop =>
      rw [hd] at hattach
      cases hattach
    | ok device =>
      refine ⟨m, device, rfl, ?_⟩
      rw [← hon, ← hd]

private theorem wideSession_idle : wideSession.2.Idle := by decide +kernel

private theorem spoilingLine_fails :
    ∃ f m', (readLine 100 spoilingLine).on wideSession.2 = (.error (.failed f), m') ∧
      (m'.line.isSome || m'.paused || m'.running) = true := by
  let o := (readLine 100 spoilingLine).on wideSession.2
  have htests : (failing o && (o.2.line.isSome || o.2.paused || o.2.running)) = true := by
    decide +kernel
  obtain ⟨hfails, hbusy⟩ := (Bool.and_eq_true _ _).mp htests
  obtain ⟨f, m', h⟩ := failure_of_failing hfails
  rw [h] at hbusy
  exact ⟨f, m', h, hbusy⟩

/-- A text in a port of two cells makes the memory illegible. -/
theorem spoilingLine_illegible :
    wideSession.2.Idle ∧
    ¬((readLine 100 spoilingLine).on wideSession.2).2.memory.Legible := by
  refine ⟨wideSession_idle, ?_⟩
  obtain ⟨f, m', h, -⟩ := spoilingLine_fails
  have hresult := (readLine_returns_iff_legible wideSession_idle h (by intro hstop; cases hstop)).1
  rw [h]
  intro hlegible
  obtain ⟨r, hr⟩ := hresult.mpr hlegible
  cases hr

/-- An idle session with a device reads a line that ends, gets no result for it, and reads no line
any more. -/
theorem line_can_wedge_session :
    ∃ m device fuel text f m',
      bareSession = .ok m ∧ (attach 100 wideDevice).on m = (.ok device, wideSession.2) ∧
      wideSession.2.Idle ∧
      (readLine fuel text).on wideSession.2 = (.error (.failed f), m') ∧
      ∀ fuel text,
        (readLine fuel text).on m' = (.error (.failed { cause := .lineInFlight }), m') := by
  obtain ⟨m, device, hstart, hattach⟩ := wideSession_attached
  obtain ⟨f, m', h, hbusy⟩ := spoilingLine_fails
  exact ⟨m, device, 100, spoilingLine, f, m', hstart, hattach, wideSession_idle, h,
    fun fuel text => readLine_of_busy fuel text hbusy⟩

end Run

end Forthline
