import Forthline.Proofs.Fetching
import Forthline.Proofs.Packing

/-!
# What subscribers hear

A subscription to a port watches the first cell of the port. What is stored there, by a line or by
a device, is told to all subscribers of the port, one after another. What a line stores in another
cell of the port changes the value of the port as well, but is told to none of them.
-/

namespace Forthline

namespace Machine

variable {m n : Machine}

def Numbered (m : Machine) : Prop := ∀ x ∈ m.memory.watchers, x.2.number < m.subscriptionCount

theorem Numbered.evolves (h : m.Numbered) {w : Workspace} (hw : m.workspace.Evolves w) :
    (m.work w).Numbered := by
  intro x hx
  rcases hw.subscriptions x hx with hx | ⟨-, hlt⟩
  · exact Nat.lt_of_lt_of_le (h x hx) hw.count
  · exact hlt

theorem Numbered.of_watchers (h : m.Numbered)
    (hwatchers : n.memory.watchers = m.memory.watchers)
    (hcount : n.subscriptionCount = m.subscriptionCount) : n.Numbered := by
  unfold Numbered
  rw [hwatchers, hcount]
  exact h

def Wired (m n : Machine) : Prop := Run.Steady m.rack m.memory.size n ∧ n.Numbered

end Machine

namespace Run

open Machine

private theorem numbered_invariant : Invariant Machine.Numbered where
  work := fun _ _ h hw => h.evolves hw
  learn := fun _ _ _ _ _ h _ => h
  declare := by
    intro m name a memory h hv
    obtain ⟨_, hallot, hbind⟩ := except_bind_eq_ok.mp hv
    cases hbind
    exact h.of_watchers (Memory.spares_allot hallot).2 rfl
  wake := fun _ _ h _ => h
  pause := fun _ h => h
  hold := fun _ h => h
  await := fun _ h => h
  touch := fun _ h => h
  sleep := fun _ _ h => h
  record := fun _ _ h => h
  rest := fun _ _ _ _ _ _ _ _ h => h

private theorem numbered_persists : Persists Machine.Numbered where
  carries := numbered_invariant.carries
  heeds := numbered_invariant.respects.heeds
  reads := numbered_invariant.reads
  aside := by
    intro m n hm h
    have hmemory : n.memory = m.memory := congrArg Estate.memory h
    exact hm.of_watchers (congrArg Memory.watchers hmemory) (congrArg Estate.subscriptionCount h)
  drop := fun _ h => h
  wake := fun _ _ h _ => h
  fire := fun _ _ _ h _ => h

private theorem numbered_hosts : Hosts Machine.Numbered where
  persists := numbered_persists
  abides := numbered_invariant.respects.toAbides
  place := fun _ _ _ _ h _ => h
  displace := fun _ _ _ _ h => h
  enroll := fun _ _ _ _ _ _ h => h
  lower := fun _ _ _ h => h

theorem wired_carries (m : Machine) : Carries m.Wired :=
  ((steady_invariant m.rack m.memory.size).and numbered_invariant).carries

end Run

namespace Session

private theorem numbered_start {fuel : Nat} {c : Config} {m : Machine}
    (h : Session.start fuel c = .ok m) : m.Numbered := by
  obtain ⟨threshold, hload⟩ := load_of_start h
  have hloaded := (Run.load_keeps Run.numbered_hosts.persists fuel c.loadLibrary).on
    (show (blank c threshold).Numbered from nofun)
  rwa [hload] at hloaded

theorem Furnished.numbered {m : Machine} (h : Furnished m) : m.Numbered := by
  induction h with
  | start h => exact numbered_start h
  | call fuel call _ ih => exact (Run.numbered_hosts.call fuel call).on ih
  | attach fuel _ _ _ ih => exact (Run.numbered_hosts.attach fuel _).on ih
  | detach fuel device _ _ ih => exact (Run.numbered_hosts.detach fuel device).on ih
  | act fuel device _ _ ih => exact (Run.numbered_hosts.actOn fuel device _).on ih
  | @register m m' o registered _ _ hr ih =>
    have hkept := (Run.numbered_hosts.register o).on ih
    rwa [hr] at hkept
  | @unregister m m' device _ hr ih =>
    have hkept := (Run.numbered_hosts.unregister device).on ih
    rwa [hr] at hkept

theorem Furnished.wired {m : Machine} (h : Furnished m) : m.Wired m := ⟨⟨rfl, rfl⟩, h.numbered⟩

end Session

namespace Rack

variable {r : Rack} {floor : Int}

private theorem Fit.start_of_lookup (h : r.Fit floor) {device name : String} {start : Int}
    {p : Port} (hlookup : r.lookup device name = .ok (start, p)) :
    (r.addresses.get? device).bind (·.get? p.name) = some start := by
  obtain ⟨hsize, hcovers⟩ := h.covers_of_lookup hlookup
  obtain ⟨d, base, -, -, hbase, hlower, -⟩ := hcovers start (Int.le_refl _) (by omega)
  obtain ⟨d', base', -, -, hbase', -, hupper⟩ :=
    hcovers (start + p.size - 1) (by omega) (by omega)
  rw [hbase] at hbase'
  cases hbase'
  have hsame : base = start := by
    dsimp only at hupper
    omega
  rw [hbase, hsame]

theorem Fit.start_eq_of_shared (h : r.Fit floor) {device device' name name' : String}
    {start start' i : Int} {p p' : Port} (hp : r.lookup device name = .ok (start, p))
    (hp' : r.lookup device' name' = .ok (start', p')) (hi : start ≤ i ∧ i < start + p.size)
    (hi' : start' ≤ i ∧ i < start' + p'.size) : start' = start := by
  have howner := h.indexed _ i ((h.covers_of_lookup hp).2 i hi.1 hi.2)
  rw [h.indexed _ i ((h.covers_of_lookup hp').2 i hi'.1 hi'.2)] at howner
  cases howner
  have hstart := h.start_of_lookup hp
  rw [h.start_of_lookup hp'] at hstart
  cases hstart
  rfl

end Rack

namespace Machine

variable {m n : Machine} {s : Subscription} {a size : Nat}

/-- What words and subscribers make of a machine: the ports stay where they are, reports are only
added, and the number of a subscription is not given again. -/
structure Onward (m : Machine) (s : Subscription) (n : Machine) : Prop where
  rack : n.rack = m.rack
  size : n.memory.size = m.memory.size
  events : m.events <:+ n.events
  number : s.number < n.subscriptionCount

def Told (m : Machine) (s : Subscription) (n : Machine) : Prop :=
  ∃ heard value size, n.events = heard ++ m.events ∧ Event.port s.label value size ∈ heard

/-- The subscriber to a cell was told of a write, or has ended the subscription. -/
def Settled (m : Machine) (a : Nat) (s : Subscription) (n : Machine) : Prop :=
  m.Onward s n ∧ (m.Told s n ∨ (a, s) ∉ n.memory.watchers)

/-- Either the subscriber to the first of some cells has nothing to wait for, or these cells are as
they were. -/
def Heeded (m : Machine) (a size : Nat) (s : Subscription) (n : Machine) : Prop :=
  m.Settled a s n ∨
    m.Onward s n ∧ ∀ i, a ≤ i → i < a + size → n.memory.cell i = m.memory.cell i

theorem Heeded.onward (h : m.Heeded a size s n) : m.Onward s n := by
  rcases h with h | h
  · exact h.1
  · exact h.1

theorem Told.of_suffix {k : Machine} (h : k.Told s n) (hm : m.events <:+ k.events) :
    m.Told s n := by
  obtain ⟨heard, value, size, hevents, hmem⟩ := h
  obtain ⟨before, hbefore⟩ := hm
  refine ⟨heard ++ before, value, size, ?_, List.mem_append_left _ hmem⟩
  rw [hevents, ← hbefore, List.append_assoc]

end Machine

namespace Run

open Machine

variable {m n : Machine} {s : Subscription} {a size : Nat}

private theorem heard_endures (es : List Event) : Endures fun n => es <:+ n.events where
  work := fun _ _ h _ => h
  write := fun _ _ h => h
  emit := fun _ _ h _ => h.trans (List.suffix_cons _ _)
  note := fun _ _ h => h
  wake := fun _ _ h _ => h

private theorem onward_endures : Endures (m.Onward s) where
  work := fun _ _ h hw =>
    ⟨h.rack, hw.memory.size.trans h.size, h.events, Nat.lt_of_lt_of_le h.number hw.count⟩
  write := fun _ _ h => { h with }
  emit := fun _ _ h _ => { h with events := h.events.trans (List.suffix_cons _ _) }
  note := fun _ _ h => { h with }
  wake := fun _ _ h _ => { h with }

private theorem settled_endures : Endures (m.Settled a s) where
  work := by
    intro n w h hw
    refine ⟨onward_endures.work h.1 hw, h.2.imp_right fun hout hin => ?_⟩
    rcases hw.subscriptions _ hin with hin | ⟨hnew, -⟩
    · exact hout hin
    · exact absurd h.1.number (Nat.not_lt.mpr hnew)
  write := fun _ text h => ⟨onward_endures.write text h.1, h.2⟩
  emit := by
    intro n e h he
    refine ⟨onward_endures.emit h.1 he, h.2.imp_left ?_⟩
    rintro ⟨heard, value, size, hevents, hmem⟩
    refine ⟨e :: heard, value, size, ?_, List.mem_cons_of_mem e hmem⟩
    change e :: n.events = _
    rw [hevents, List.cons_append]
  note := fun _ e h => ⟨onward_endures.note e h.1, h.2⟩
  wake := fun _ _ h hc => ⟨onward_endures.wake h.1 hc, h.2⟩

def Brings {α : Type} (I : Machine → Prop) (p : Run α) : Prop := Follows (Itself I) p p

namespace Brings

variable {α β : Type} {I : Machine → Prop} {p : Run α}

theorem on (hp : Brings I p) {x : α} (hm : I m) (h : p.on m = (.ok x, n)) : I n := by
  obtain ⟨n', -, -, hn⟩ := hp ⟨rfl, hm⟩ h
  exact hn

theorem of_on (h : ∀ ⦃m x n⦄, I m → p.on m = (.ok x, n) → I n) : Brings I p := by
  rintro m _ n x ⟨rfl, hm⟩ hp
  exact ⟨n, hp, rfl, h hm hp⟩

theorem of_keeps (h : Keeps I p) : Brings I p := Matches.follows h

theorem bind {k : α → Run β} (hp : Brings I p) (hk : ∀ x, Brings I (k x)) :
    Brings I (p >>= k) := Follows.bind hp hk

theorem get_bind {k : Machine → Run β} (h : ∀ ⦃m⦄, I m → Brings I (k m)) :
    Brings I ((get : Run Machine) >>= k) := by
  apply Follows.get_bind
  rintro m _ ⟨rfl, hm⟩
  exact h hm

theorem lift_bind {x : Except Cause α} {k : α → Run β} (h : ∀ v, x = .ok v → Brings I (k v)) :
    Brings I (lift x >>= k) := by
  cases x with
  | error c => exact of_keeps (Matches.fail c)
  | ok v => exact h v rfl

theorem discard (hp : Brings I p) : Brings I (discard p) := by
  change Brings I ((fun _ => ()) <$> p)
  rw [← bind_pure_comp]
  exact hp.bind fun _ => of_keeps (Matches.pure _)

theorem forM {γ : Type} {xs : List γ} {f : γ → Run PUnit} (h : ∀ x, Brings I (f x)) :
    Brings I (xs.forM f) := by
  induction xs with
  | nil => exact of_keeps (Matches.pure _)
  | cons x xs ih => exact (h x).bind fun _ => ih

end Brings

abbrev nested (depth : Nat) : Nat → PortAction → Run PortAnswer :=
  perform (fun _ => fail .lineInFlight) depth

private theorem nested_keeps {I : Machine → Prop} (hI : Endures I) (depth number : Nat)
    (action : PortAction) : Keeps I (nested depth number action) :=
  perform_matches hI.respects.toAbides (fun _ => Matches.fail _) depth number action

private theorem store_nested_keeps {I : Machine → Prop} (hI : Endures I) (depth : Nat)
    (address value : Value) (size : Int) : Keeps I (store (nested depth) address value size) :=
  store_matches hI.respects.toAbides (nested_keeps hI depth) address value size

private theorem forM_tells {ws : List Subscription} {report : Subscription → Event}
    {f : Subscription → Run Unit}
    (hf : ∀ s k, (report s :: k.events) <:+ ((f s).on k).2.events) {n' : Machine}
    (h : (ws.forM f).on n = (.ok (), n')) :
    ∃ heard, n'.events = heard ++ n.events ∧ (ws.map report).reverse.Sublist heard := by
  induction ws generalizing n with
  | nil =>
    cases h
    exact ⟨[], rfl, List.Sublist.refl _⟩
  | cons w ws ih =>
    obtain ⟨_, k, hw, hws⟩ := on_bind_eq_ok h
    obtain ⟨first, hfirst⟩ := hf w n
    rw [hw] at hfirst
    obtain ⟨heard, hheard, hsub⟩ := ih hws
    refine ⟨heard ++ (first ++ [report w]), ?_, ?_⟩
    · rw [hheard, ← hfirst]
      simp
    · rw [List.map_cons, List.reverse_cons]
      exact hsub.append (List.sublist_append_right _ _)

private def tell (depth : Nat) (w : Written Subscription) (size : Int) : Run Unit :=
  w.watchers.forM fun s => do
    emit (.port s.label w.value size)
    s.actions.forM fun a => discard (nested depth s.binding a)

private theorem tell_of_store {depth : Nat} {address value : Value} {size : Int} {n' : Machine}
    (h : (store (nested depth) address value size).on n = (.ok (), n')) :
    ∃ w, n.memory.write address value size = .ok w ∧
      (tell depth w size).on { n with memory := w.memory } = (.ok (), n') := by
  rw [store, on_get_bind] at h
  obtain ⟨w, hw, h⟩ := on_lift_bind_eq_ok h
  exact ⟨w, hw, h⟩

theorem store_tells {depth : Nat} {address value : Value} {size : Int} {n' : Machine}
    (h : (store (nested depth) address value size).on n = (.ok (), n')) :
    ∃ w heard, n.memory.write address value size = .ok w ∧ n'.events = heard ++ n.events ∧
      (w.watchers.map fun s => Event.port s.label w.value size).reverse.Sublist heard := by
  obtain ⟨w, hw, htell⟩ := tell_of_store h
  have hbegins (s : Subscription) (k : Machine) :
      (Event.port s.label w.value size :: k.events) <:+ ((do
        emit (.port s.label w.value size)
        s.actions.forM fun a => discard (nested depth s.binding a) : Run Unit).on k).2.events := by
    have hacts : Keeps (fun n => (Event.port s.label w.value size :: k.events) <:+ n.events)
        (s.actions.forM fun a => discard (nested depth s.binding a)) :=
      Matches.forM _ fun a => (nested_keeps (heard_endures _) depth s.binding a).discard
    rw [emit, on_modify_bind]
    exact hacts.on (List.suffix_refl _)
  obtain ⟨heard, hheard, hsub⟩ := forM_tells hbegins htell
  exact ⟨w, heard, hw, hheard, hsub⟩

private theorem heeded_of_cells {α : Type} {q : Run α}
    (hkeeps : ∀ {I : Machine → Prop}, Endures I → Keeps I q)
    (hcells : ∀ k, (q.on k).2.memory.cells = k.memory.cells) : Keeps (m.Heeded a size s) q := by
  apply Keeps.of_on
  rintro k (hk | ⟨hk, hsame⟩)
  · exact .inl ((hkeeps settled_endures).on hk)
  · refine .inr ⟨(hkeeps onward_endures).on hk, ?_⟩
    intro i hlower hupper
    rw [Memory.cell_congr (hcells k), hsame i hlower hupper]

private theorem subscribe_heeded (number : Nat) (b : PortBinding) (port label : String)
    (actions : List PortAction) :
    Keeps (m.Heeded a size s) (subscribe number b port label actions) := by
  apply heeded_of_cells
  · intro I hI
    exact subscribe_matches hI.respects.toAbides number b port label actions
  · intro k
    rcases subscribe_cases number b port label actions k with ⟨c, hon⟩ | ⟨a, hon⟩
    · rw [hon]
    · rw [hon]
      rfl

private theorem closeBinding_heeded (number : Nat) :
    Keeps (m.Heeded a size s) (closeBinding number) := by
  apply heeded_of_cells
  · intro I hI
    exact closeBinding_matches hI.respects.toAbides number
  · intro k
    rw [closeBinding, on_get_bind]
    cases k.bindings[number]? with
    | none => rfl
    | some b => exact cells_unwatch_all b.subscriptions k.memory

section Storing

variable {depth : Nat} {address value : Value} {width : Int} {n' : Machine}
  (h : (store (nested depth) address value width).on n = (.ok (), n'))

include h

private theorem store_settles (hlocate : n.memory.locate address width = .ok a)
    (hn : m.Onward s n) : m.Settled a s n' := by
  by_cases hs : (a, s) ∈ n.memory.watchers
  · obtain ⟨w, heard, hw, hheard, hsub⟩ := store_tells h
    obtain ⟨b, -, hlocate', -, hwatchers⟩ := Memory.write_eq hw
    rw [hlocate] at hlocate'
    cases hlocate'
    have htold : n.Told s n' := by
      refine ⟨heard, w.value, width, hheard, hsub.subset ?_⟩
      rw [List.mem_reverse, hwatchers]
      exact List.mem_map_of_mem (Memory.mem_watchersAt.mpr hs)
    have hkept := (store_nested_keeps onward_endures depth address value width).on hn
    rw [h] at hkept
    exact ⟨hkept, .inl (htold.of_suffix hn.events)⟩
  · have hsettled : m.Settled a s n := ⟨hn, .inr hs⟩
    have hkept := (store_nested_keeps settled_endures depth address value width).on hsettled
    rwa [h] at hkept

private theorem store_heeded
    (hact : ∀ number action, Brings (m.Heeded a size s) (nested depth number action))
    (hplace : ∀ b, n.memory.locate address width = .ok b →
      b = a ∨ ∀ i, a ≤ i → i < a + size → ¬(b ≤ i ∧ i < b + max 1 width.toNat))
    (hn : m.Heeded a size s n) : m.Heeded a size s n' := by
  rcases hn with hsettled | ⟨honward, hcells⟩
  · have hkept := (store_nested_keeps settled_endures depth address value width).on hsettled
    rw [h] at hkept
    exact .inl hkept
  · obtain ⟨w, hw, htell⟩ := tell_of_store h
    obtain ⟨b, hlocate, helsewhere⟩ := Memory.cell_write hw
    rcases hplace b hlocate with rfl | hout
    · exact .inl (store_settles h hlocate honward)
    · have hsize := (Memory.evolves_write hw).size.trans honward.size
      have hwritten : m.Heeded a size s { n with memory := w.memory } := by
        refine .inr ⟨{ honward with size := hsize }, ?_⟩
        intro i hlower hupper
        rw [← hcells i hlower hupper]
        exact helsewhere i (hout i hlower hupper)
      refine Brings.on (Brings.forM fun t => ?_) hwritten htell
      have hemit : Keeps (m.Heeded a size s) (emit (.port t.label w.value width)) :=
        heeded_of_cells (fun hI => emit_matches hI.respects.heeds rfl) fun _ => rfl
      exact Brings.bind (.of_keeps hemit) fun _ =>
        Brings.forM fun action => (hact t.binding action).discard

end Storing

section Ports

variable {floor : Int} {device port : String} {p : Port} (hfit : m.rack.Fit floor)
  (hp : m.rack.lookup device port = .ok ((a : Int), p))

include hfit hp

section Writing

variable {depth : Nat}
  (hact : ∀ number action, Brings (m.Heeded a p.size s) (nested depth number action))

include hact

private theorem storePort_heeded {device' port' : String} {start : Int} {p' : Port}
    (hp' : m.rack.lookup device' port' = .ok (start, p')) (value : Value) :
    Brings (m.Heeded a p.size s) (store (nested depth) (.int start) value p'.size) := by
  apply Brings.of_on
  intro n _ n' hn h
  refine store_heeded h hact ?_ hn
  intro b hlocate
  have hb := Memory.locate_int hlocate
  by_cases hsame : start = a
  · left
    omega
  · right
    intro i hlower hupper hin
    have hsize := (hfit.covers_of_lookup hp').1
    apply hsame
    apply hfit.start_eq_of_shared hp hp' (i := i)
    · omega
    · omega

private theorem updatePort_heeded (device' port' : String) (value : Value) :
    Brings (m.Heeded a p.size s) (updatePort (nested depth) device' port' value) := by
  refine Brings.get_bind fun k hk => Brings.lift_bind fun found hlookup => ?_
  rw [hk.onward.rack] at hlookup
  exact storePort_heeded hfit hp hact hlookup value

private theorem setPort_heeded (device' port' : String) (value : Value) :
    Brings (m.Heeded a p.size s) (setPort (nested depth) device' port' value) := by
  refine Brings.get_bind fun k hk => Brings.lift_bind fun found hlookup => ?_
  rw [hk.onward.rack] at hlookup
  have hstore := storePort_heeded hfit hp hact hlookup value
  dsimp only
  split
  · exact (Brings.of_keeps (Matches.fail _)).bind fun _ => hstore
  · exact hstore

end Writing

private theorem nested_heeded (depth number : Nat) (action : PortAction) :
    Brings (m.Heeded a p.size s) (nested depth number action) := by
  induction depth generalizing number action with
  | zero => exact .of_keeps (Matches.fail _)
  | succ depth ih =>
    refine Brings.get_bind fun n _ => ?_
    cases n.bindings[number]? with
    | none => exact .of_keeps (Matches.pure _)
    | some b =>
      cases action with
      | set port' value =>
        have hset := setPort_heeded hfit hp ih b.device port' value
        exact hset.bind fun _ => .of_keeps (Matches.pure _)
      | update port' value =>
        have hupdate := updatePort_heeded hfit hp ih b.device port' value
        exact hupdate.bind fun _ => .of_keeps (Matches.pure _)
      | get port' =>
        refine .of_keeps (Matches.map _ (Keeps.get_bind fun _ _ => ?_))
        exact (Matches.lift _).bind fun _ => Matches.lift _
      | address port' =>
        refine .of_keeps (Keeps.get_bind fun _ _ => ?_)
        exact (Matches.lift _).bind fun _ => Matches.pure _
      | subscribe port' label actions =>
        refine .of_keeps ((subscribe_heeded number b port' label actions).bind fun _ => ?_)
        exact Matches.pure _
      | line text => exact .of_keeps (Matches.fail _)
      | close => exact .of_keeps ((closeBinding_heeded number).bind fun _ => Matches.pure _)
      | fail message => exact .of_keeps (Matches.fail _)

private theorem deposit_heeded {d : Deposit} {n' : Machine} (hs : s.number < m.subscriptionCount)
    (hinner : ∀ i, m.target? d.address = some i → ¬(a < i ∧ i < a + p.size))
    (h : (deposit d).on m = (.ok (), n')) : m.Heeded a p.size s n' := by
  have hstart : m.Heeded a p.size s m :=
    .inr ⟨⟨rfl, rfl, List.suffix_refl _, hs⟩, fun _ _ _ => rfl⟩
  have hstore := checkedStore_of_deposit h
  cases htarget : m.target? d.address with
  | none =>
    have hsame : n' = m := by simpa [hstore] using checkedStore_of_none htarget
    rwa [hsame]
  | some i =>
    rw [checkedStore_of_target htarget] at hstore
    refine store_heeded hstore (nested_heeded hfit hp nestingLimit) ?_ hstart
    intro b hlocate
    rw [(target?_eq_some.mp htarget).1] at hlocate
    cases hlocate
    have hout := hinner i htarget
    by_cases hsame : i = a
    · exact .inl hsame
    · right
      intro k hlower hupper hin
      simp at hin
      omega

end Ports

private theorem eq_of_lift {α : Type} {x y : Except Cause α}
    (h : ((lift x).on n).1 = ((lift y).on m).1) : x = y := by
  cases x with
  | error c =>
    cases y with
    | error c' =>
      cases h
      rfl
    | ok v => cases h
  | ok v =>
    cases y with
    | error c => cases h
    | ok v' =>
      cases h
      rfl

private theorem portValue_ne {device port : String} {start : Int} {p : Port}
    (hp : m.rack.lookup device port = .ok (start, p)) (hrack : n.rack = m.rack)
    (hne : n.memory.read (.int start) p.size ≠ m.memory.read (.int start) p.size) :
    ((portValue device port).on n).1 ≠ ((portValue device port).on m).1 := by
  rw [portValue_on hp, portValue_on (hrack ▸ hp)]
  intro heq
  exact hne (eq_of_lift heq)

private theorem deposit_unwatched {d : Deposit} {i : Nat} (htarget : m.target? d.address = some i)
    (hnone : m.memory.watchersAt i = []) :
    (deposit d).on m = (.ok (), { m with memory := m.memory.setCell i d.value }) := by
  apply deposit_of_ok
  have hwrite := Memory.write_single (target?_eq_some.mp htarget).1 d.value
  rw [checkedStore_of_target htarget, store, on_get_bind, hwrite, on_bind_ok (on_lift_ok _ _),
    on_modify_bind]
  dsimp only
  rw [hnone]
  rfl

private theorem deposit_fails {d : Deposit} {n' : Machine} {stop : Stop}
    (h : (deposit d).on m = (.error stop, n')) :
    n' = m ∨ ∃ i, m.target? d.address = some i ∧ ∃ s ∈ m.memory.watchersAt i,
      ∃ action ∈ s.actions, ∃ (k : Machine) (stop' : Stop), k.rack = m.rack ∧
        ((withinLine s.binding action).on k).1 = .error stop' := by
  obtain ⟨hmachine, hfailed⟩ := deposit_on d m
  rw [h] at hmachine hfailed
  cases htarget : m.target? d.address with
  | none =>
    left
    rw [← checkedStore_of_none htarget, ← hmachine]
  | some i =>
    obtain ⟨stop', hstop'⟩ := hfailed stop rfl
    rw [checkedStore_of_target htarget] at hstop'
    have hwrite := Memory.write_single (target?_eq_some.mp htarget).1 d.value
    obtain ⟨s, hs, action, haction, k, hk, herror⟩ :=
      store_fails (.withinLine nestingLimit) hwrite hstop'
    exact .inr ⟨i, rfl, s, hs, action, haction, k, stop', hk, herror⟩

end Run

namespace Session

open Run

/-- Subscribers hear what lines do to their port with stores, unless a store goes to another cell of
the port than the first. In any session in which devices come and go, a store that gives a value,
changes what the port gives, and goes to its first cell or to none of its cells, was told to each
subscriber of the port that has not ended its subscription. A store to another cell of the port,
which nobody watches, is told to nobody, and changes what the port gives whenever the cells hold
bytes and it puts another byte there. -/
theorem port_changes_are_heard_unless_inner {m : Machine} (h : Furnished m) :
    Carries m.Wired ∧ m.Wired m ∧
    ∀ n, m.Wired n → ∀ (device port : String) (start : Nat) (p : Port),
      m.rack.lookup device port = .ok ((start : Int), p) →
      ∀ (d : Deposit) (o : Except Stop Unit) (n' : Machine), (deposit d).on n = (o, n') →
        (o = .ok () → ((portValue device port).on n').1 ≠ ((portValue device port).on n).1 →
          (∀ i, n.target? d.address = some i → ¬(start < i ∧ i < start + p.size)) →
          ∀ s, (start, s) ∈ n.memory.watchers →
            n.Told s n' ∨ (start, s) ∉ n'.memory.watchers) ∧
        (o = .ok () → n.target? d.address = some start →
          ∃ heard, n'.events = heard ++ n.events ∧ ((n.memory.watchersAt start).map
            fun s => Event.port s.label d.value 1).reverse.Sublist heard) ∧
        (∀ i, n.target? d.address = some i → start < i → i < start + p.size →
          n.memory.watchersAt i = [] →
            o = .ok () ∧ n'.events = n.events ∧
            (n.memory.HoldsBytes start p.size → ∀ b : Int, d.value = .int b → 0 ≤ b → b < 256 →
              n.memory.cell i ≠ .int b →
              ((portValue device port).on n').1 ≠ ((portValue device port).on n).1)) ∧
        ∀ stop, o = .error stop → n' = n ∨ ∃ i, n.target? d.address = some i ∧
          ∃ s ∈ n.memory.watchersAt i, ∃ action ∈ s.actions, ∃ (k : Machine) (stop' : Stop),
            k.rack = n.rack ∧ ((withinLine s.binding action).on k).1 = .error stop' := by
  obtain ⟨floor, hready, hhoused⟩ := h.housed
  refine ⟨wired_carries m, h.wired, ?_⟩
  intro n hn device port start p hp d o n' hon
  obtain ⟨⟨hrack, hextent⟩, hnumbered⟩ := hn
  have hfit : n.rack.Fit floor := hrack ▸ hready.rack
  obtain ⟨hsize, hcovers⟩ := hready.rack.covers_of_lookup hp
  have hlast := hready.rack.indexed _ _ (hcovers (start + p.size - 1) (by omega) (by omega))
  have hupper := (hhoused.owners _ _ hlast).2
  rw [← hrack] at hp
  refine ⟨?_, ?_, ?_, ?_⟩
  · intro hok hchanged hinner s hs
    rw [hok] at hon
    rcases deposit_heeded hfit hp (hnumbered _ hs) hinner hon with ⟨-, hsettled⟩ | ⟨hkept, hcells⟩
    · exact hsettled
    · refine absurd (portValue_congr hp hsize hkept.rack hkept.size ?_) hchanged
      intro i hlower hlt
      exact hcells i (by omega) (by omega)
  · intro hok htarget
    rw [hok] at hon
    have hstore : (store (nested nestingLimit) d.address d.value 1).on n = (.ok (), n') := by
      rw [← checkedStore_of_deposit hon, checkedStore_of_target htarget]
      rfl
    obtain ⟨w, heard, hw, hheard, hsub⟩ := store_tells hstore
    rw [Memory.write_single (Machine.target?_eq_some.mp htarget).1] at hw
    cases hw
    exact ⟨heard, hheard, hsub⟩
  · intro i htarget hlower hlt hnone
    rw [deposit_unwatched htarget hnone] at hon
    cases hon
    refine ⟨rfl, rfl, ?_⟩
    intro hbytes b hb hnonneg hbyte hother
    obtain ⟨k, rfl⟩ : ∃ k, i = start + k := ⟨i - start, by omega⟩
    apply portValue_ne hp
    · rfl
    · rw [hb]
      exact hbytes.read_setCell_ne (by omega) (by omega) (by omega) hnonneg hbyte hother
  · intro stop hstop
    rw [hstop] at hon
    exact deposit_fails hon

private def ear : Offer :=
  { name := some "d"
    ports := some [.port "w" 2 "readwrite" ""]
    onAttach := some [.port (.subscribe "w" "heard" [])] }

private def listening : Machine := ((attach 100 ear).on builtin).2

private theorem listening_furnished : Furnished listening := by
  have hdecent : ear.Decent := ⟨by decide, decent_of_single rfl, nofun⟩
  exact .attach 100 (.start builtin_start) hdecent (.inl staysHome_of_single)

private theorem listening_subscribed :
    (listening.memory.watchersAt 0x1000).map Subscription.label = ["heard"] := by
  decide +kernel

private theorem listening_port : listening.rack.lookup "d" "w" =
    .ok (((0x1000 : Nat) : Int), ⟨"w", 2, .readWrite, ""⟩) := by
  have hstart : (listening.rack.addresses.get? "d").bind (·.get? "w") = some 0x1000 := by
    decide +kernel
  have howner : listening.rack.owners.get? 0x1000 = some ⟨"d", "w", 2, .readWrite, ""⟩ := by
    decide +kernel
  rw [Rack.lookup, hstart]
  dsimp only
  rw [howner]
  rfl

/-- The device is told of what is stored in the first cell of its port. -/
theorem store_to_first_cell_is_heard :
    Furnished listening ∧ ∃ n', (deposit ⟨.int 5, .int 0x1000⟩).on listening = (.ok (), n') ∧
      ((portValue "d" "w").on n').1.toOption = some (.int 5) ∧
      ∃ heard, n'.events = heard ++ listening.events ∧
        [Event.port "heard" (.int 5) 1].Sublist heard := by
  have hok : ((deposit ⟨.int 5, .int 0x1000⟩).on listening).1.isOk = true := by decide +kernel
  obtain ⟨_, hon⟩ := eq_of_isOk hok
  have hvalue : ((portValue "d" "w").on
      ((deposit ⟨.int 5, .int 0x1000⟩).on listening).2).1.toOption = some (.int 5) := by
    decide +kernel
  have htarget : listening.target? (.int 0x1000) = some 0x1000 := by decide +kernel
  obtain ⟨-, hwired, hstores⟩ := port_changes_are_heard_unless_inner listening_furnished
  obtain ⟨-, htold, -⟩ := hstores listening hwired "d" "w" 0x1000 _ listening_port _ _ _ hon
  obtain ⟨heard, hheard, hsub⟩ := htold rfl htarget
  have hreports : (listening.memory.watchersAt 0x1000).map
      (fun s => Event.port s.label (.int 5) 1) = [Event.port "heard" (.int 5) 1] := by
    have hlabels := congrArg (List.map fun label => Event.port label (.int 5) 1)
      listening_subscribed
    rwa [List.map_map] at hlabels
  rw [hreports] at hsub
  exact ⟨listening_furnished, _, hon, hvalue, heard, hheard, hsub⟩

/-- What a line stores in the second cell changes what the port gives, and the device, which has
subscribed to it, is not told. -/
theorem store_to_second_cell_is_not_heard :
    Furnished listening ∧
    (listening.memory.watchersAt 0x1000).map Subscription.label = ["heard"] ∧
    ((portValue "d" "w").on listening).1.toOption = some (.int 0) ∧
    ((portValue "d" "w").on
      (((Call.readLine "5 4097 !").run 100).on listening).2).1.toOption = some (.int 1280) ∧
    (((Call.readLine "5 4097 !").run 100).on listening).2.events = [] := by
  have hsilent : (((Call.readLine "5 4097 !").run 100).on listening).2.events.isEmpty = true := by
    decide +kernel
  refine ⟨listening_furnished, listening_subscribed, by decide +kernel, by decide +kernel, ?_⟩
  exact List.isEmpty_iff.mp hsilent

end Session

end Forthline
