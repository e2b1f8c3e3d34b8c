import Forthline.Proofs.Reading

/-!
# Invariants of lines

A property of machines that survives what words, frames and the reader do one by one survives a
whole line, wherever the line stops.
-/

namespace Forthline

namespace Run

variable {α β : Type} {I : Machine → Prop}

def Itself (I : Machine → Prop) (m n : Machine) : Prop := m = n ∧ I m

def Keeps (I : Machine → Prop) (p : Run α) : Prop := Matches (Itself I) p p

namespace Keeps

theorem on {p : Run α} (hp : Keeps I p) {m : Machine} (hm : I m) : I (p.on m).2 :=
  (hp ⟨rfl, hm⟩).2.2

theorem of_on {p : Run α} (h : ∀ ⦃m⦄, I m → I (p.on m).2) : Keeps I p := by
  rintro m _ ⟨rfl, hm⟩
  exact ⟨rfl, rfl, h hm⟩

theorem get_bind {k : Machine → Run β} (h : ∀ ⦃m⦄, I m → Keeps I (k m)) :
    Keeps I ((get : Run Machine) >>= k) := by
  refine Matches.get_bind ?_
  rintro m _ ⟨rfl, hm⟩
  exact h hm

theorem modify {f : Machine → Machine} (h : ∀ ⦃m⦄, I m → I (f m)) :
    Keeps I (modify f : Run PUnit) :=
  of_on h

end Keeps

structure Endures (I : Machine → Prop) : Prop where
  work : ∀ ⦃m w⦄, I m → m.workspace.Evolves w → I (m.work w)
  write : ∀ ⦃m⦄ text, I m → I { m with output := m.output ++ text }
  emit : ∀ ⦃m e⦄, I m → e.line? = none → I { m with events := e :: m.events }
  note : ∀ ⦃m⦄ e, I m → I { m with log := { m.log with entries := e :: m.log.entries } }
  wake : ∀ ⦃m c⦄, I m → m.waiting = some c →
    I { m with spent := c :: m.spent, paused := false }

theorem Endures.respects (hI : Endures I) : Respects (Itself I) where
  workspace := by
    rintro m _ ⟨rfl, -⟩
    rfl
  rack := by
    rintro m _ ⟨rfl, -⟩
    rfl
  spent := by
    rintro m _ ⟨rfl, -⟩
    rfl
  threshold := by
    rintro m _ ⟨rfl, -⟩
    rfl
  logListeners := by
    rintro m _ ⟨rfl, -⟩
    rfl
  work := by
    rintro m _ w ⟨rfl, hm⟩ hw
    exact ⟨rfl, hI.work hm hw⟩
  write := by
    rintro m _ text ⟨rfl, hm⟩
    exact ⟨rfl, hI.write text hm⟩
  emit := by
    rintro m _ e ⟨rfl, hm⟩ he
    exact ⟨rfl, hI.emit hm he⟩
  note := by
    rintro m _ e ⟨rfl, hm⟩
    exact ⟨rfl, hI.note e hm⟩
  wake := by
    rintro m _ c ⟨rfl, hm⟩ hc
    exact ⟨rfl, hI.wake hm hc⟩

structure Invariant (I : Machine → Prop) : Prop where
  work : ∀ ⦃m w⦄, I m → m.workspace.Evolves w → I (m.work w)
  learn : ∀ ⦃m name word permanent d⦄, I m → m.dictionary.add name word permanent = .ok d →
    I { m with dictionary := d }
  declare : ∀ ⦃m name a memory⦄, I m → m.memory.addVariable name 1 = .ok (a, memory) →
    I { m with memory }
  wake : ∀ ⦃m c⦄, I m → m.waiting = some c →
    I { m with spent := c :: m.spent, paused := false }
  pause : ∀ ⦃m⦄, I m → I m.suspended
  hold : ∀ ⦃m⦄, I m → I { m.suspended with kept := m.kept ++ [m.continuations] }
  await : ∀ ⦃m⦄, I m → I { m.suspended with waiting := some m.continuations }
  touch : ∀ ⦃m⦄, I m →
    I { m.suspended with spent := m.continuations :: m.spent, paused := false }
  sleep : ∀ ⦃m⦄ delay, I m →
    I { m.suspended with sleeping := m.sleeping ++ [(delay, m.continuations)] }
  record : ∀ ⦃m⦄ token, I m →
    I { m with line := m.line.map fun l => { l with parsed := token :: l.parsed } }
  rest : ∀ ⦃m⦄ source output events log frames steps pending, I m →
    I { m with source, output, events, log, frames, steps, pending }

theorem Invariant.and {J : Machine → Prop} (hI : Invariant I) (hJ : Invariant J) :
    Invariant fun m => I m ∧ J m where
  work := fun _ _ h hw => ⟨hI.work h.1 hw, hJ.work h.2 hw⟩
  learn := fun _ _ _ _ _ h hadd => ⟨hI.learn h.1 hadd, hJ.learn h.2 hadd⟩
  declare := fun _ _ _ _ h hv => ⟨hI.declare h.1 hv, hJ.declare h.2 hv⟩
  wake := fun _ _ h hc => ⟨hI.wake h.1 hc, hJ.wake h.2 hc⟩
  pause := fun _ h => ⟨hI.pause h.1, hJ.pause h.2⟩
  hold := fun _ h => ⟨hI.hold h.1, hJ.hold h.2⟩
  await := fun _ h => ⟨hI.await h.1, hJ.await h.2⟩
  touch := fun _ h => ⟨hI.touch h.1, hJ.touch h.2⟩
  sleep := fun _ delay h => ⟨hI.sleep delay h.1, hJ.sleep delay h.2⟩
  record := fun _ token h => ⟨hI.record token h.1, hJ.record token h.2⟩
  rest := fun _ source output events log frames steps pending h =>
    ⟨hI.rest source output events log frames steps pending h.1,
      hJ.rest source output events log frames steps pending h.2⟩

/-- The property survives that a line is suspended, and says nothing of what only belongs to the
line, except for the definition that it opened. -/
structure Passes (I : Machine → Prop) : Prop where
  pause : ∀ ⦃m⦄, I m → I m.suspended
  hold : ∀ ⦃m⦄, I m → I { m.suspended with kept := m.kept ++ [m.continuations] }
  await : ∀ ⦃m⦄, I m → I { m.suspended with waiting := some m.continuations }
  touch : ∀ ⦃m⦄, I m →
    I { m.suspended with spent := m.continuations :: m.spent, paused := false }
  sleep : ∀ ⦃m⦄ delay, I m →
    I { m.suspended with sleeping := m.sleeping ++ [(delay, m.continuations)] }
  rest : ∀ ⦃m⦄ source output events log frames steps, I m →
    I { m with source, output, events, log, frames, steps }

namespace Passes

variable (hI : Passes I)

include hI

theorem scans : Scans (Itself I) where
  source := by
    rintro m _ ⟨rfl, -⟩
    rfl
  setSource := by
    rintro m _ s ⟨rfl, hm⟩
    exact ⟨rfl, hI.rest _ _ _ _ _ _ hm⟩

theorem pauses : Pauses (Itself I) where
  continuations := by
    rintro m _ ⟨rfl, -⟩
    rfl
  pause := by
    rintro m _ ⟨rfl, hm⟩
    exact ⟨rfl, hI.pause hm⟩
  hold := by
    rintro m _ ⟨rfl, hm⟩
    exact ⟨rfl, hI.hold hm⟩
  await := by
    rintro m _ ⟨rfl, hm⟩
    exact ⟨rfl, hI.await hm⟩
  touch := by
    rintro m _ ⟨rfl, hm⟩
    exact ⟨rfl, hI.touch hm⟩

theorem sleeps : Sleeps (Itself I) where
  scheduler := by
    rintro m _ ⟨rfl, -⟩
    rfl
  record := by
    rintro m _ delay ⟨rfl, hm⟩
    exact ⟨rfl, hI.sleep delay hm⟩

theorem tracks : Tracks (Itself I) where
  frames := by
    rintro m _ ⟨rfl, -⟩
    rfl
  setFrames := by
    rintro m _ fs ⟨rfl, hm⟩
    exact ⟨rfl, hI.rest _ _ _ _ _ _ hm⟩
  step := by
    rintro m _ ⟨rfl, hm⟩
    exact ⟨rfl, hI.rest _ _ _ _ _ _ hm⟩

end Passes

theorem itself_reads (hpending : ∀ ⦃m⦄ pending, I m → I { m with pending })
    (hlearn : ∀ ⦃m name word permanent d⦄, I m → m.dictionary.add name word permanent = .ok d →
      I { m with dictionary := d })
    (hdeclare : ∀ ⦃m name a memory⦄, I m → m.memory.addVariable name 1 = .ok (a, memory) →
      I { m with memory }) : Reads (Itself I) where
  pending := by
    rintro m _ ⟨rfl, -⟩
    rfl
  setPending := by
    rintro m _ p ⟨rfl, hm⟩
    exact ⟨rfl, hpending p hm⟩
  learn := by
    rintro m _ name word permanent d ⟨rfl, hm⟩ hd
    exact ⟨rfl, hlearn hm hd⟩
  declare := by
    rintro m _ name a memory ⟨rfl, hm⟩ ha
    exact ⟨rfl, hdeclare hm ha⟩

namespace Invariant

theorem endures (hI : Invariant I) : Endures I where
  work := hI.work
  write := fun _ _ hm => hI.rest _ _ _ _ _ _ _ hm
  emit := fun _ _ hm _ => hI.rest _ _ _ _ _ _ _ hm
  note := fun _ _ hm => hI.rest _ _ _ _ _ _ _ hm
  wake := hI.wake

theorem respects (hI : Invariant I) : Respects (Itself I) := hI.endures.respects

theorem passes (hI : Invariant I) : Passes I where
  pause := hI.pause
  hold := hI.hold
  await := hI.await
  touch := hI.touch
  sleep := hI.sleep
  rest := fun _ _ _ _ _ _ _ hm => hI.rest _ _ _ _ _ _ _ hm

theorem reads (hI : Invariant I) : Reads (Itself I) :=
  itself_reads (fun _ _ hm => hI.rest _ _ _ _ _ _ _ hm) hI.learn hI.declare

end Invariant

/-- The property survives what a line does step by step: it takes a token, finds out what the token
stands for, and lets frames take their turns. -/
structure Carries (I : Machine → Prop) : Prop where
  nextToken : Keeps I nextToken
  interpret : ∀ t, Keeps I (interpret t)
  recordToken : ∀ t, Keeps I (recordToken t)
  pushFrame : ∀ f, Keeps I (pushFrame f)
  advance : ∀ f, Keeps I (advance f)

theorem Invariant.carries (hI : Invariant I) : Carries I where
  nextToken := nextToken_matches hI.passes.scans
  interpret := interpret_matches hI.respects hI.reads hI.passes.scans
  recordToken := fun t => Keeps.modify fun _ hm => hI.record t.value hm
  pushFrame := pushFrame_matches hI.passes.tracks
  advance := fun _ => advance_matches hI.passes.tracks hI.respects hI.passes.pauses hI.passes.scans
    fun _ => sleep_matches hI.respects hI.passes.pauses hI.passes.sleeps

instance : Coe (Invariant I) (Carries I) := ⟨Invariant.carries⟩

section Lines

variable (hI : Carries I)

include hI

theorem run_keeps (fuel : Nat) : Keeps I (run fuel) := by
  induction fuel with
  | zero => exact Matches.throw _
  | succ fuel ih =>
    refine Keeps.get_bind fun m hm => ?_
    cases m.frames with
    | nil => exact Matches.pure _
    | cons f fs => exact Matches.ite _ (Matches.pure _) ((hI.advance f).bind fun _ => ih)

theorem readTokens_keeps (fuel : Nat) : Keeps I (readTokens fuel) := by
  induction fuel with
  | zero => exact Matches.throw _
  | succ fuel ih =>
    refine hI.nextToken.bind fun t => ?_
    cases t with
    | none => exact Matches.pure _
    | some t =>
      refine (hI.interpret t).bind fun w => ?_
      cases w with
      | none => exact ih
      | some w =>
        refine (hI.recordToken t).bind fun _ => ?_
        have hexecute : Keeps I (execute fuel w) :=
          (hI.pushFrame _).bind fun _ => run_keeps hI fuel
        refine hexecute.bind fun done => ?_
        exact Matches.ite _ ih (Matches.pure _)

theorem continueLine_keeps (fuel : Nat) : Keeps I (continueLine fuel) :=
  (run_keeps hI fuel).bind fun _ => Matches.ite _ (readTokens_keeps hI fuel) (Matches.pure _)

end Lines

end Run

end Forthline
