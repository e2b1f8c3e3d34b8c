import Forthline.Proofs.Bytes
import Forthline.Proofs.Housing

/-!
# Ports are isolated

The ports of all attached devices share one memory, and each has its own cells in it. What is
written to a port is read back from it, as far as its cells reach, and neither another port nor a
variable nor any other cell notices, if the subscribers that are told do not write themselves.
-/

namespace Forthline

namespace Rack

/-- The port is one of an attached device. -/
def Live (r : Rack) (device : String) (p : Port) : Prop :=
  ∃ d, r.devices.get? device = some d ∧ p ∈ d.ports

variable {r : Rack} {floor : Int}

theorem Fit.lookup_of_live (h : r.Fit floor) {device : String} {p : Port} (hp : r.Live device p) :
    ∃ start, r.lookup device p.name = .ok (start, p) ∧ 0 < p.size ∧
      ∀ a, start ≤ a → a < start + p.size → r.Covers ⟨device, p⟩ a := by
  obtain ⟨d, hd, hmem⟩ := hp
  obtain ⟨base, -, -, haddresses⟩ := h.devices device d hd
  obtain ⟨start, hstart, -⟩ := layOut_bound {} base (List.mem_map_of_mem (f := Port.name) hmem)
  have hfound : (r.addresses.get? device).bind (·.get? p.name) = some start := by
    rw [haddresses, Option.bind_some, hstart]
  have hsize := (h.decent device d hd).sized p hmem
  have hcovers (a : Int) (hle : start ≤ a) (hlt : a < start + p.size) :
      r.Covers ⟨device, p⟩ a := ⟨d, start, hd, hmem, hfound, hle, hlt⟩
  refine ⟨start, ?_, hsize, hcovers⟩
  rw [lookup, hfound]
  dsimp only
  rw [h.indexed _ start (hcovers start (Int.le_refl _) (by omega))]

end Rack

def PortAction.looks : PortAction → Bool
  | .get _ | .address _ | .fail _ => true
  | _ => false

def Subscription.SparesCells (act : Nat → PortAction → Run PortAnswer) (s : Subscription) : Prop :=
  ∀ a ∈ s.actions, ∀ n, ((act s.binding a).on n).2.memory.cells = n.memory.cells

namespace Run

inductive Acts : (Nat → PortAction → Run PortAnswer) → Prop where
  | withinLine (depth : Nat) : Acts (perform (fun _ => fail .lineInFlight) depth)
  | betweenLines (fuel depth : Nat) :
      Acts (perform (fun text => .line <$> readLine fuel text) depth)

section Subscribers

variable {act : Nat → PortAction → Run PortAnswer} {m : Machine}

def Steady (r : Rack) (size : Int) (n : Machine) : Prop := n.rack = r ∧ n.memory.size = size

theorem steady_invariant (r : Rack) (size : Int) : Invariant (Steady r size) where
  work := fun _ _ h hw => ⟨h.1, hw.memory.size.trans h.2⟩
  learn := fun _ _ _ _ _ h _ => h
  declare := by
    intro m name a memory h hv
    rcases m.memory.addVariable_cases name 1 with ⟨-, hadd⟩ | ⟨-, c, hadd⟩
    · rw [hadd] at hv
      cases hv
      exact h
    · rw [hadd] at hv
      cases hv
  wake := fun _ _ h _ => h
  pause := fun _ h => h
  hold := fun _ h => h
  await := fun _ h => h
  touch := fun _ h => h
  sleep := fun _ _ h => h
  record := fun _ _ h => h
  rest := fun _ _ _ _ _ _ _ _ h => h

private theorem steady_persists (r : Rack) (size : Int) : Persists (Steady r size) where
  carries := (steady_invariant r size).carries
  heeds := (steady_invariant r size).respects.heeds
  reads := (steady_invariant r size).reads
  aside := by
    intro m n hm h
    have hmemory : n.memory = m.memory := congrArg Estate.memory h
    have hrack : n.rack = m.rack := congrArg Estate.rack h
    rw [Steady, hrack, hmemory]
    exact hm
  drop := fun _ h => h
  wake := fun _ _ h _ => h
  fire := fun _ _ _ h _ => h

private theorem Acts.steady (hact : Acts act) (r : Rack) (size : Int) (number : Nat)
    (a : PortAction) : Keeps (Steady r size) (act number a) := by
  have habides := (steady_invariant r size).respects.toAbides
  cases hact with
  | withinLine depth => exact perform_matches habides (fun _ => Matches.fail _) depth number a
  | betweenLines fuel depth =>
    exact perform_matches habides
      (fun text => (readLine_keeps (steady_persists _ _).lasts fuel text).map _) depth number a

theorem store_steady (hact : Acts act) (address value : Value) (size : Int) :
    Steady m.rack m.memory.size ((store act address value size).on m).2 :=
  Keeps.on (store_matches (steady_invariant _ _).respects.toAbides (hact.steady _ _) address value
    size) ⟨rfl, rfl⟩

/-- If the subscribers spare the cells, a write leaves them as it made them. -/
theorem store_cells {address value : Value} {size : Int} {w : Written Subscription}
    (hw : m.memory.write address value size = .ok w)
    (hspares : ∀ s ∈ w.watchers, s.SparesCells act) :
    ((store act address value size).on m).2.memory.cells = w.memory.cells := by
  rw [store, on_get_bind, hw, on_bind_ok (on_lift_ok _ _), on_modify_bind]
  refine Keeps.on (I := fun n => n.memory.cells = w.memory.cells) (Matches.forM_of_mem ?_) rfl
  intro s hs
  have hemit : Keeps (fun n => n.memory.cells = w.memory.cells)
      (emit (.port s.label w.value size)) := Keeps.modify fun _ hn => hn
  refine hemit.bind fun _ => Matches.forM_of_mem fun a ha => ?_
  exact Matches.discard (Keeps.of_on fun n hn => (hspares s hs a ha n).trans hn)

private theorem forM_fails {α : Type} {I : Machine → Prop} {xs : List α} {f : α → Run Unit}
    (hI : ∀ x ∈ xs, Keeps I (f x)) {n : Machine} (hn : I n) {stop : Stop}
    (h : ((xs.forM f).on n).1 = .error stop) :
    ∃ x ∈ xs, ∃ k, I k ∧ ((f x).on k).1 = .error stop := by
  induction xs generalizing n with
  | nil => cases h
  | cons x xs ih =>
    have hkept := (hI x List.mem_cons_self).on hn
    change ((f x >>= fun _ => xs.forM f).on n).1 = _ at h
    rcases hx : (f x).on n with ⟨stop' | _, n'⟩
    · rw [on_bind_error hx] at h
      cases h
      exact ⟨x, List.mem_cons_self, n, hn, by rw [hx]⟩
    · rw [on_bind_ok hx] at h
      rw [hx] at hkept
      obtain ⟨y, hy, k, hk, hfails⟩ := ih (fun y hy => hI y (List.mem_cons_of_mem x hy)) hkept h
      exact ⟨y, List.mem_cons_of_mem x hy, k, hk, hfails⟩

theorem store_fails (hact : Acts act) {address value : Value} {size : Int}
    {w : Written Subscription} (hw : m.memory.write address value size = .ok w) {stop : Stop}
    (h : ((store act address value size).on m).1 = .error stop) :
    ∃ s ∈ w.watchers, ∃ a ∈ s.actions, ∃ n : Machine, n.rack = m.rack ∧
      ((act s.binding a).on n).1 = .error stop := by
  have hacts (s : Subscription) (a : PortAction) :
      Keeps (Steady m.rack m.memory.size) (discard (act s.binding a)) :=
    (hact.steady _ _ s.binding a).discard
  have hemit (s : Subscription) :
      Keeps (Steady m.rack m.memory.size) (emit (.port s.label w.value size)) :=
    Keeps.modify fun _ hn => hn
  rw [store, on_get_bind, hw, on_bind_ok (on_lift_ok _ _), on_modify_bind] at h
  have hset : Steady m.rack m.memory.size { m with memory := w.memory } :=
    ⟨rfl, (Memory.evolves_write hw).size⟩
  obtain ⟨s, hs, n, hn, h⟩ := forM_fails
    (fun s _ => (hemit s).bind fun _ => Matches.forM _ fun a => hacts s a) hset h
  rw [emit, on_modify_bind] at h
  have htold : Steady m.rack m.memory.size
      { n with events := .port s.label w.value size :: n.events } := hn
  obtain ⟨a, ha, k, hk, h⟩ := forM_fails (fun a _ => hacts s a) htold h
  refine ⟨s, hs, a, ha, k, hk.1, ?_⟩
  change ((act s.binding a >>= fun _ => pure ()).on k).1 = _ at h
  rcases hx : (act s.binding a).on k with ⟨stop' | answer, k'⟩
  · rw [on_bind_error hx] at h
    cases h
    rfl
  · rw [on_bind_ok hx] at h
    cases h

theorem sparesCells_of_looks (hact : Acts act) {s : Subscription}
    (hs : s.actions.all PortAction.looks = true) : s.SparesCells act := by
  obtain ⟨reader, depth, rfl⟩ : ∃ reader depth, act = perform reader depth := by
    cases hact with
    | withinLine depth => exact ⟨_, depth, rfl⟩
    | betweenLines fuel depth => exact ⟨_, depth, rfl⟩
  intro a ha n
  have hlooks := List.all_eq_true.mp hs a ha
  refine Keeps.on (I := fun k => k.memory.cells = n.memory.cells) ?_ rfl
  cases depth with
  | zero => exact Matches.fail _
  | succ depth =>
    refine Keeps.get_bind fun k _ => ?_
    cases k.bindings[s.binding]? with
    | none => exact Matches.pure _
    | some b =>
      cases a with
      | get port =>
        refine Matches.map _ (Keeps.get_bind fun _ _ => ?_)
        exact (Matches.lift _).bind fun _ => Matches.lift _
      | address port =>
        exact Keeps.get_bind fun _ _ => (Matches.lift _).bind fun _ => Matches.pure _
      | fail message => exact Matches.fail _
      | _ => cases hlooks

section Ports

variable {device : String} {p : Port}

theorem portValue_on {port : String} {start : Int}
    (h : m.rack.lookup device port = .ok (start, p)) :
    (portValue device port).on m =
      (lift (m.memory.read (.int start) p.size) : Run Value).on m := by
  rw [portValue, on_get_bind, h, on_bind_ok (on_lift_ok _ _)]

theorem portValue_congr {n : Machine} {port : String} {start : Int}
    (h : m.rack.lookup device port = .ok (start, p)) (hsize : 0 < p.size)
    (hrack : n.rack = m.rack) (hextent : n.memory.size = m.memory.size)
    (hcells : ∀ i : Nat, start ≤ i → i < start + p.size → n.memory.cell i = m.memory.cell i) :
    ((portValue device port).on n).1 = ((portValue device port).on m).1 := by
  rw [portValue_on h, portValue_on (hrack ▸ h), Memory.read_congr hextent]
  · cases m.memory.read (.int start) p.size <;> rfl
  · intro i hlower hupper
    exact hcells i hlower (by omega)

private theorem setPort_on {start : Int} (h : m.rack.lookup device p.name = .ok (start, p))
    (hwritable : p.access ≠ .read) (value : Value) :
    (setPort act device p.name value).on m = (updatePort act device p.name value).on m := by
  rw [setPort, updatePort, on_get_bind, on_get_bind, h, on_bind_ok (on_lift_ok _ _),
    on_bind_ok (on_lift_ok _ _)]
  dsimp only
  rw [if_neg hwritable]

end Ports

private structure Wrote (m m' : Machine) (start : Int) (size : Nat) (v : Int) : Prop where
  rack : m'.rack = m.rack
  extent : m'.memory.size = m.memory.size
  read : m'.memory.read (.int start) size = .ok (.int (Memory.held size v))
  elsewhere : ∀ i : Nat, ¬(start ≤ i ∧ i < start + size) → m'.memory.cell i = m.memory.cell i

private theorem store_wrote (hact : Acts act)
    (hspares : ∀ w ∈ m.memory.watchers, w.2.SparesCells act) {start : Int} {size : Nat} {v : Int}
    {w : Written Subscription} (hsize : 0 < size)
    (hw : m.memory.write (.int start) (.int v) size = .ok w) :
    Wrote m ((store act (.int start) (.int v) size).on m).2 start size v := by
  obtain ⟨hrack, hsame⟩ := store_steady (m := m) hact (.int start) (.int v) size
  obtain ⟨-, htold⟩ := Memory.watchers_write hw
  obtain ⟨a, hlocate, helsewhere⟩ := Memory.cell_write hw
  have hstart := Memory.locate_int hlocate
  have hcells := store_cells hw fun s hs => by
    obtain ⟨b, hb⟩ := htold s hs
    exact hspares _ hb
  have hcell (i : Nat) :
      ((store act (.int start) (.int v) size).on m).2.memory.cell i = w.memory.cell i :=
    Memory.cell_congr hcells i
  refine ⟨hrack, hsame, ?_, ?_⟩
  · rw [Memory.read_congr (hsame.trans (Memory.evolves_write hw).size.symm) fun i _ _ => hcell i]
    exact Memory.read_of_write hsize hw
  · intro i hi
    rw [hcell, helsewhere i (by omega)]

end Subscribers

end Run

namespace Session

open Run

section Isolation

variable {m m' : Machine} {floor : Int} {device : String} {p : Port} {start v : Int}

private theorem port_of_shared (h : m.rack.Fit floor) {device' : String} {p' : Port} {a : Int}
    (ha : m.rack.Covers ⟨device, p⟩ a) (ha' : m.rack.Covers ⟨device', p'⟩ a) :
    device' = device ∧ p' = p := by
  have howner := h.indexed _ a ha
  rw [h.indexed _ a ha'] at howner
  cases howner
  exact ⟨rfl, rfl⟩

private theorem portValue_other (h : m.rack.Fit floor) (hw : Wrote m m' start p.size v)
    (hcovers : ∀ a, start ≤ a → a < start + p.size → m.rack.Covers ⟨device, p⟩ a)
    {device' : String} {p' : Port} (hp' : m.rack.Live device' p')
    (hother : ¬(device' = device ∧ p' = p)) :
    ((portValue device' p'.name).on m').1 = ((portValue device' p'.name).on m).1 := by
  obtain ⟨start', hlookup, hsize, hcovers'⟩ := h.lookup_of_live hp'
  apply portValue_congr hlookup hsize hw.rack hw.extent
  intro i hle hlt
  apply hw.elsewhere
  intro hin
  exact hother (port_of_shared h (hcovers i hin.1 hin.2) (hcovers' i hle hlt))

end Isolation

/-- The ports of a session are isolated: an integer that is written to a port of an attached device
is what the port and its accessor give from then on, as far as the cells of the port reach, and
every other port, every variable and every other cell is as it was. The subscribers that are told
must spare the cells; the write fails only if one of them does. -/
theorem ports_are_isolated {m : Machine} (h : Furnished m) {device : String} {p : Port}
    (hp : m.rack.Live device p) {act : Nat → PortAction → Run PortAnswer} (hact : Acts act)
    (hspares : ∀ w ∈ m.memory.watchers, w.2.SparesCells act) (v : Int) {write : Run Unit}
    (hwrite : write = updatePort act device p.name (.int v) ∨
      p.access ≠ .read ∧ write = setPort act device p.name (.int v))
    {o : Except Stop Unit} {m' : Machine} (hrun : write.on m = (o, m')) :
    (∀ stop, o = .error stop → ∃ w ∈ m.memory.watchers, ∃ a ∈ w.2.actions, ∃ n : Machine,
      n.rack = m.rack ∧ ((act w.2.binding a).on n).1 = .error stop) ∧
    m'.rack = m.rack ∧
    (portValue device p.name).on m' = (.ok (.int (Memory.held p.size v)), m') ∧
    (word (accessor device p.name)).on m' =
      (.ok (), { m' with stack := m'.stack.push (.int (Memory.held p.size v)) }) ∧
    (∀ device' p', m.rack.Live device' p' → ¬(device' = device ∧ p' = p) →
      ((portValue device' p'.name).on m').1 = ((portValue device' p'.name).on m).1) ∧
    (∀ name b, m.memory.bindings.get? name = some b → b.kind = .variable →
      m'.memory.read (.int b.address) b.size = m.memory.read (.int b.address) b.size) ∧
    ∃ start, m.rack.lookup device p.name = .ok (start, p) ∧
      ∀ i : Nat, ¬(start ≤ i ∧ i < start + p.size) → m'.memory.cell i = m.memory.cell i := by
  obtain ⟨floor, hready, hhoused⟩ := h.housed
  obtain ⟨start, hlookup, hsize, hcovers⟩ := hready.rack.lookup_of_live hp
  have hfirst := hcovers start (Int.le_refl _) (by omega)
  have hlast := hcovers (start + p.size - 1) (by omega) (by omega)
  have hfloor := (hready.rack.bounds_of_covers hfirst).1
  obtain ⟨hlower, -⟩ := hhoused.owners _ _ (hready.rack.indexed _ _ hfirst)
  obtain ⟨-, hupper⟩ := hhoused.owners _ _ (hready.rack.indexed _ _ hlast)
  have hstore : write.on m = (store act (.int start) (.int v) p.size).on m := by
    have hupdate : (updatePort act device p.name (.int v)).on m =
        (store act (.int start) (.int v) p.size).on m := by
      rw [updatePort, on_get_bind, hlookup, on_bind_ok (on_lift_ok _ _)]
    rcases hwrite with rfl | ⟨hwritable, rfl⟩
    · exact hupdate
    · rw [setPort_on hlookup hwritable, hupdate]
  obtain ⟨w, hw⟩ := Memory.exists_write (m := m.memory) hsize hlower (by omega) v
  have hwrote := store_wrote hact hspares hsize hw
  rw [← hstore, hrun] at hwrote
  have hlookup' := hlookup
  rw [← hwrote.rack] at hlookup'
  have hvalue : (portValue device p.name).on m' = (.ok (.int (Memory.held p.size v)), m') := by
    rw [portValue_on hlookup', hwrote.read]
    rfl
  refine ⟨?_, hwrote.rack, hvalue, ?_, fun device' p' => ?_, ?_, start, hlookup, hwrote.elsewhere⟩
  · intro stop hstop
    have hfailed : ((store act (.int start) (.int v) p.size).on m).1 = .error stop := by
      rw [← hstore, hrun, hstop]
    obtain ⟨s, hs, a, ha, n, hn, herror⟩ := store_fails hact hw hfailed
    obtain ⟨b, hb⟩ := (Memory.watchers_write hw).2 s hs
    exact ⟨(b, s), hb, a, ha, n, hn, herror⟩
  · refine native_of_ok p.name ?_
    change (portValue device p.name >>= push).on m' = _
    rw [on_bind_ok hvalue]
    rfl
  · exact portValue_other hready.rack hwrote hcovers
  · intro name b hb hkind
    obtain ⟨hsingle, hbelow⟩ := hhoused.declared name b hb hkind
    apply Memory.read_congr hwrote.extent
    intro i _ hlt
    apply hwrote.elsewhere
    omega

private def dial : Offer :=
  { name := some "dial"
    ports := some [.port "low" 1 "readwrite" "", .port "wide" 2 "read" "", .port "far" 3 "write" ""]
    onAttach := some [.port (.subscribe "wide" "seen" [.get "low"])] }

private def knob : Offer := { name := some "knob", ports := some [.port "turn" 2 "readwrite" ""] }

private def lever : Offer := { name := some "lever", ports := some [.port "pull" 4 "write" ""] }

private def turned : Machine :=
  ((Run.register knob).on (((Call.readLine "variable x 7 x !").run 100).on builtin).2).2

private def dialled : Machine := ((Run.attach 100 dial).on turned).2

private def crowded : Machine := ((Run.register lever).on ((Run.unregister "knob").on dialled).2).2

private theorem crowded_tests :
    (((Run.register knob).on (((Call.readLine "variable x 7 x !").run 100).on builtin).2).1.isOk &&
      ((Run.unregister "knob").on dialled).1.isOk &&
      ((Run.register lever).on ((Run.unregister "knob").on dialled).2).1.isOk &&
      ((updatePort (betweenLines 100) "dial" "wide" (.int (-3))).on crowded).1.isOk &&
      (crowded.rack.devices.get? "dial").map Device.ports = some
        [⟨"low", 1, .readWrite, ""⟩, ⟨"wide", 2, .read, ""⟩, ⟨"far", 3, .write, ""⟩] &&
      crowded.memory.bindings.get? "x" = some ⟨1000, 1, .variable⟩ &&
      (crowded.memory.read (.int 1000) 1).toOption = some (.int 7) &&
      crowded.memory.watchers.all (fun w => w.2.actions.all PortAction.looks)) = true := by
  decide +kernel

private theorem crowded_furnished : Furnished crowded := by
  have htests := crowded_tests
  simp only [Bool.and_eq_true] at htests
  obtain ⟨⟨⟨⟨⟨⟨⟨hknob, hunknob⟩, hlever⟩, -⟩, -⟩, -⟩, -⟩, -⟩ := htests
  obtain ⟨_, hknob⟩ := eq_of_isOk hknob
  obtain ⟨_, hunknob⟩ := eq_of_isOk hunknob
  obtain ⟨_, hlever⟩ := eq_of_isOk hlever
  have hdecent : knob.Decent ∧ lever.Decent :=
    ⟨⟨by decide, nofun, nofun⟩, by decide, nofun, nofun⟩
  have hdial : dial.Decent := ⟨by decide, decent_of_single rfl, nofun⟩
  have hstart : Furnished (((Call.readLine "variable x 7 x !").run 100).on builtin).2 :=
    .call 100 _ (.start builtin_start)
  have hturned : Furnished turned := hstart.register hdecent.1 hknob
  have hdialled : Furnished dialled := hturned.attach 100 hdial (.inl staysHome_of_single)
  exact (hdialled.unregister hunknob).register hdecent.2 hlever

/-- A read-only port of two cells holds what its device wrote, in as many bytes, and neither its
neighbour nor the variable changed. -/
theorem wide_port_is_isolated :
    Furnished crowded ∧ crowded.rack.Live "dial" ⟨"wide", 2, .read, ""⟩ ∧
    ∃ m', (updatePort (betweenLines 100) "dial" "wide" (.int (-3))).on crowded = (.ok (), m') ∧
      (portValue "dial" "wide").on m' = (.ok (.int 65533), m') ∧
      ((portValue "dial" "far").on m').1 = ((portValue "dial" "far").on crowded).1 ∧
      (m'.memory.read (.int 1000) 1).toOption = some (.int 7) := by
  have htests := crowded_tests
  simp only [Bool.and_eq_true, decide_eq_true_eq] at htests
  obtain ⟨⟨⟨⟨⟨-, hwrites⟩, hports⟩, hx⟩, hseven⟩, hlooks⟩ := htests
  obtain ⟨d, hd, hports⟩ := Option.map_eq_some_iff.mp hports
  have hwide : crowded.rack.Live "dial" ⟨"wide", 2, .read, ""⟩ := ⟨d, hd, by simp [hports]⟩
  have hfar : crowded.rack.Live "dial" ⟨"far", 3, .write, ""⟩ := ⟨d, hd, by simp [hports]⟩
  obtain ⟨m', hrun⟩ : ∃ m',
      (updatePort (betweenLines 100) "dial" "wide" (.int (-3))).on crowded = (.ok (), m') := by
    obtain ⟨_, hrun⟩ := eq_of_isOk hwrites
    exact ⟨_, hrun⟩
  have hacts : Acts (betweenLines 100) := .betweenLines 100 nestingLimit
  obtain ⟨-, -, hvalue, -, hothers, hvariables, -⟩ := ports_are_isolated crowded_furnished hwide
    hacts (fun w hw => sparesCells_of_looks hacts (List.all_eq_true.mp hlooks w hw)) (-3) (.inl rfl)
    hrun
  have hheld : Memory.held 2 (-3) = 65533 := by decide
  have hneighbour := hothers "dial" ⟨"far", 3, .write, ""⟩ hfar (by decide)
  have hkept := hvariables "x" _ hx rfl
  dsimp only at hvalue hneighbour hkept
  rw [hheld] at hvalue
  rw [← hkept] at hseven
  exact ⟨crowded_furnished, hwide, m', hrun, hvalue, hneighbour, hseven⟩

end Session

end Forthline
