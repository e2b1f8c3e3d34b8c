import Forthline.Proofs.Legible
import Forthline.Proofs.Persistence

/-!
# Sessions without devices

Every number of a continuation that such a session knows was given out before, so the next one is
not used up yet, and all names of its memory are those of variables. Both hold after whatever the
host asks of the session.
-/

namespace Forthline

namespace Ledger

structure Numbered (l : Ledger) : Prop where
  spent : ∀ c ∈ l.spent, c < l.continuations
  waiting : ∀ c, l.waiting = some c → c < l.continuations
  kept : ∀ c ∈ l.kept, c < l.continuations
  sleeping : ∀ e ∈ l.sleeping, e.2 < l.continuations
  fired : ∀ c, l.fired = some c → c < l.continuations

namespace Numbered

variable {l : Ledger}

theorem fresh (h : l.Numbered) : l.spent.contains l.continuations = false := by
  refine Bool.eq_false_iff.mpr fun hc => ?_
  have hlt := h.spent _ (List.contains_iff_mem.mp hc)
  omega

theorem grow (h : l.Numbered) : { l with continuations := l.continuations + 1 }.Numbered where
  spent := fun c hc => Nat.lt_succ_of_lt (h.spent c hc)
  waiting := fun c hc => Nat.lt_succ_of_lt (h.waiting c hc)
  kept := fun c hc => Nat.lt_succ_of_lt (h.kept c hc)
  sleeping := fun e he => Nat.lt_succ_of_lt (h.sleeping e he)
  fired := fun c hc => Nat.lt_succ_of_lt (h.fired c hc)

theorem spend (h : l.Numbered) {c : Nat} (hc : c < l.continuations) :
    { l with spent := c :: l.spent }.Numbered :=
  { h with
    spent := fun d hd => by
      rcases List.mem_cons.mp hd with rfl | hd
      · exact hc
      · exact h.spent d hd }

theorem keep (h : l.Numbered) {c : Nat} (hc : c < l.continuations) :
    { l with kept := l.kept ++ [c] }.Numbered :=
  { h with
    kept := fun d hd => by
      rcases List.mem_append.mp hd with hd | hd
      · exact h.kept d hd
      · rw [List.mem_singleton.mp hd]
        exact hc }

theorem sleep (h : l.Numbered) (delay : Binary64) {c : Nat} (hc : c < l.continuations) :
    { l with sleeping := l.sleeping ++ [(delay, c)] }.Numbered :=
  { h with
    sleeping := fun e he => by
      rcases List.mem_append.mp he with he | he
      · exact h.sleeping e he
      · rw [List.mem_singleton.mp he]
        exact hc }

theorem await (h : l.Numbered) {waiting : Option Nat}
    (hw : ∀ c, waiting = some c → c < l.continuations) : { l with waiting }.Numbered :=
  { h with waiting := hw }

theorem fire (h : l.Numbered) {c : Nat} (hc : c < l.continuations) (place : Nat) :
    { l with sleeping := l.sleeping.eraseIdx place, fired := some c }.Numbered :=
  { h with
    sleeping := fun e he => h.sleeping e (List.mem_of_mem_eraseIdx he)
    fired := fun d hd => by
      cases hd
      exact hc }

end Numbered

end Ledger

def Machine.Sound (m : Machine) : Prop := m.ledger.Numbered ∧ m.memory.Tame

namespace Run

theorem sound_invariant : Invariant Machine.Sound where
  work := by
    intro m w h hw
    refine ⟨h.1.await fun c hc => ?_, h.2.evolves hw.memory⟩
    change w.waiting = some c at hc
    rcases hw.waiting with hsame | hnone
    · rw [hsame] at hc
      exact h.1.waiting c hc
    · rw [hnone] at hc
      cases hc
  learn := fun _ _ _ _ _ h _ => h
  declare := fun _ _ _ _ h hv => ⟨h.1, h.2.addVariable hv⟩
  wake := fun _ _ h hc => ⟨h.1.spend (h.1.waiting _ hc), h.2⟩
  pause := fun _ h => ⟨h.1.grow, h.2⟩
  hold := fun _ h => ⟨h.1.grow.keep (Nat.lt_succ_self _), h.2⟩
  await := fun _ h => by
    refine ⟨h.1.grow.await fun c hc => ?_, h.2⟩
    cases hc
    exact Nat.lt_succ_self _
  touch := fun _ h => ⟨h.1.grow.spend (Nat.lt_succ_self _), h.2⟩
  sleep := fun _ delay h => ⟨h.1.grow.sleep delay (Nat.lt_succ_self _), h.2⟩
  record := fun _ _ h => h
  rest := fun _ _ _ _ _ _ _ _ h => h

theorem sound_persists : Persists Machine.Sound where
  carries := sound_invariant.carries
  heeds := sound_invariant.respects.heeds
  reads := sound_invariant.reads
  aside := by
    intro m n hm h
    have hmemory : n.memory = m.memory := congrArg Estate.memory h
    have hledger : n.ledger = m.ledger := congrArg Estate.ledger h
    rw [Machine.Sound, hmemory, hledger]
    exact hm
  drop := fun _ hm => ⟨hm.1.await nofun, hm.2⟩
  wake := by
    intro m c hm hc
    refine ⟨hm.1.spend ?_, hm.2⟩
    rcases hc with hc | hc | hc
    · exact hm.1.waiting c hc
    · exact hm.1.fired c hc
    · exact hm.1.kept c hc
  fire := fun _ place _ hm he =>
    ⟨hm.1.fire (hm.1.sleeping _ (List.mem_of_getElem? he)) place, hm.2⟩

private theorem betweenLines_sound (fuel number : Nat) (action : PortAction) :
    Keeps Machine.Sound (betweenLines fuel number action) :=
  perform_matches sound_invariant.respects
    (fun text => (readLine_keeps sound_persists.lasts fuel text).map _) nestingLimit number action

end Run

namespace Session

/-- The states of sessions with the default layout of the memory and without devices: those after
the start and after calls that come to an end. -/
inductive Reached : Machine → Prop where
  | start {fuel : Nat} {c : Config} {m : Machine} : c.memorySize = 65536 → c.heapStart = 1000 →
      c.deviceBase = 0x1000 → Session.start fuel c = .ok m → Reached m
  | call {fuel : Nat} {call : Call} {m m' : Machine} {o : Except Stop Unit} : Reached m →
      (call.run fuel).on m = (o, m') → o ≠ .error .exhausted → Reached m'

theorem Call.keeps (fuel : Nat) (call : Call) : Run.Keeps Machine.Sound (call.run fuel) := by
  have hstore (address value : Value) (size : Int) :
      Run.Keeps Machine.Sound (Run.store (Run.betweenLines fuel) address value size) :=
    Run.store_matches Run.sound_invariant.respects (Run.betweenLines_sound fuel) address value size
  apply Call.keeps_of Run.sound_persists fuel
  · intro key m a _ hm _
    exact (hstore _ _ _).on hm
  · intro address value size _
    exact hstore address value size

theorem sound_blank {c : Config} (hsize : c.memorySize = 65536) (hheap : c.heapStart = 1000)
    (hbase : c.deviceBase = 0x1000) (threshold : Nat) : (blank c threshold).Sound := by
  refine ⟨⟨nofun, nofun, nofun, nofun, nofun⟩, ?_, ?_, nofun⟩
  · change 0 ≤ c.heapStart
    omega
  · change c.deviceBase ≤ c.memorySize
    omega

theorem start_eq_ok_iff {fuel : Nat} {c : Config} {m : Machine} :
    Session.start fuel c = .ok m ↔ ∃ threshold, Level.threshold c.logLevel = .ok threshold ∧
      (Run.load fuel c.loadLibrary).on (blank c threshold) = (.ok (), m) := by
  unfold Session.start
  cases Level.threshold c.logLevel with
  | error cause => simp
  | ok threshold =>
    have hon : (Run.load fuel c.loadLibrary).on (blank c threshold) =
        StateT.run (ExceptT.run (Run.load fuel c.loadLibrary)) (blank c threshold) := rfl
    simp only [Except.ok.injEq, exists_eq_left', hon]
    split
    · rename_i hload
      simp [hload]
    · rename_i hload
      simp [hload]

theorem load_of_start {fuel : Nat} {c : Config} {m : Machine} (h : Session.start fuel c = .ok m) :
    ∃ threshold, (Run.load fuel c.loadLibrary).on (blank c threshold) = (.ok (), m) := by
  obtain ⟨threshold, -, hload⟩ := start_eq_ok_iff.mp h
  exact ⟨threshold, hload⟩

private theorem sound_start {fuel : Nat} {c : Config} {m : Machine} (hsize : c.memorySize = 65536)
    (hheap : c.heapStart = 1000) (hbase : c.deviceBase = 0x1000)
    (h : Session.start fuel c = .ok m) : m.Sound := by
  obtain ⟨threshold, hload⟩ := load_of_start h
  have hkept := (Run.load_keeps Run.sound_persists fuel c.loadLibrary).on
    (sound_blank hsize hheap hbase threshold)
  rwa [hload] at hkept

theorem Reached.sound {m : Machine} (h : Reached m) : m.Sound := by
  induction h with
  | start hsize hheap hbase h => exact sound_start hsize hheap hbase h
  | @call fuel call m m' o _ hrun _ ih =>
    have hkept := (call.keeps fuel).on ih
    rwa [hrun] at hkept

def builtin : Machine :=
  match start 100 { loadLibrary := false } with
  | .ok m => m
  | .error _ => {}

theorem builtin_start : start 100 { loadLibrary := false } = .ok builtin := by
  have hstart : (start 100 { loadLibrary := false }).isOk = true := by decide +kernel
  unfold builtin
  cases hm : start 100 { loadLibrary := false } with
  | error stop =>
    rw [hm] at hstart
    cases hstart
  | ok m => rfl

theorem builtin_reached : Reached builtin := .start rfl rfl rfl builtin_start

theorem builtin_idle : builtin.Idle := by decide +kernel

def standard : Machine := (start 100 {}).toOption.getD {}

end Session

end Forthline
