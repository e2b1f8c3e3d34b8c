import Forthline.Proofs.Registration

/-!
# Attaching devices

A device that cannot be set up is unregistered again: the rack is as it was before. The words that
were installed for it until then are not taken back, and stand in the way of those whose names
they took.
-/

namespace Forthline

mutual

def PortAction.readsLine : PortAction → Bool
  | .line _ => true
  | .subscribe _ _ actions => anyReadsLine actions
  | _ => false

def anyReadsLine : List PortAction → Bool
  | [] => false
  | a :: as => a.readsLine || anyReadsLine as

end

theorem readsLine_of_mem {a : PortAction} {as : List PortAction} (h : anyReadsLine as = false)
    (ha : a ∈ as) : a.readsLine = false := by
  induction as with
  | nil => cases ha
  | cons b as ih =>
    obtain ⟨hb, has⟩ := Bool.or_eq_false_iff.mp h
    rcases List.mem_cons.mp ha with rfl | ha
    · exact hb
    · exact ih has ha

/-- Whether the action only uses the binding that the hook was handed: it reads no line, and leaves
other devices alone. -/
def HookAction.throughBinding : HookAction → Bool
  | .port a => !a.readsLine
  | _ => false

namespace Rack

/-- What the parts of a rack say of each other: only attached devices have addresses and a binding,
and no address from the next on belongs to a port. -/
structure Consistent (r : Rack) : Prop where
  addresses : ∀ name, r.devices.get? name = none → r.addresses.get? name = none
  bindings : ∀ name, r.devices.get? name = none → r.bindings.get? name = none
  owners : ∀ a, r.next ≤ a → r.owners.get? a = none

def displaceAll (r : Rack) (addresses : Table Int) : List Port → Rack
  | [] => r
  | p :: ports =>
    (r.displace p ((addresses.get? p.name).getD 0)).displaceAll addresses ports

theorem displaceAll_eq (r : Rack) (addresses : Table Int) (ports : List Port) :
    r.displaceAll addresses ports =
      { r with owners := (r.displaceAll addresses ports).owners } := by
  induction ports generalizing r with
  | nil => rfl
  | cons p ports ih =>
    rw [displaceAll, ih]
    rfl

end Rack

theorem get?_layOut {addresses : Table Int} {next : Int} {ports : List Port}
    {name : String} (h : name ∉ ports.map Port.name) :
    (layOut addresses next ports).get? name = addresses.get? name := by
  induction ports generalizing addresses next with
  | nil => rfl
  | cons p ports ih =>
    simp only [List.map_cons, List.mem_cons, not_or] at h
    rw [layOut, ih h.2, Table.get?_insert, if_neg h.1]

private theorem owners_displaceAll (r : Rack) (addresses : Table Int) (next : Int)
    {ports : List Port} (h : (ports.map Port.name).Nodup) (a : Int) :
    (r.displaceAll (layOut addresses next ports) ports).owners.get? a =
      if next ≤ a ∧ a < next + cellsOf ports then none else r.owners.get? a := by
  induction ports generalizing r addresses next with
  | nil =>
    have hout : ¬(next ≤ a ∧ a < next + (0 : Nat)) := by omega
    rw [cellsOf_nil, if_neg hout]
    rfl
  | cons p ports ih =>
    obtain ⟨hp, hports⟩ := List.nodup_cons.mp h
    have haddress : ((layOut addresses next (p :: ports)).get? p.name).getD 0 = next := by
      rw [layOut, get?_layOut hp]
      simp
    rw [Rack.displaceAll, haddress, layOut, ih _ _ _ hports, Rack.owners_displace, cellsOf_cons]
    grind

def Machine.Quiet (m : Machine) : Prop :=
  ∀ w ∈ m.memory.watchers, anyReadsLine w.2.actions = false

structure Machine.Still (d : Dictionary) (r : Rack) (m : Machine) : Prop where
  dictionary : m.dictionary = d
  rack : m.rack = r
  quiet : m.Quiet

namespace Run

section Hooks

variable {d : Dictionary} {r : Rack}

private theorem store_still {act : Nat → PortAction → Run PortAnswer}
    (hact : ∀ number a, a.readsLine = false → Keeps (Machine.Still d r) (act number a))
    (address value : Value) (size : Int) :
    Keeps (Machine.Still d r) (store act address value size) := by
  refine Keeps.of_on fun m hm => ?_
  rw [store, on_get_bind]
  cases hw : m.memory.write address value size with
  | error c => exact hm
  | ok w =>
    obtain ⟨hkept, htold⟩ := Memory.watchers_write hw
    have hset : Machine.Still d r { m with memory := w.memory } := by
      refine ⟨hm.dictionary, hm.rack, fun x hx => hm.quiet x ?_⟩
      rwa [← hkept]
    have htell : Keeps (Machine.Still d r) (w.watchers.forM fun s => do
        emit (.port s.label w.value size)
        s.actions.forM fun a => discard (act s.binding a)) := by
      refine Matches.forM_of_mem fun s hs => ?_
      obtain ⟨a, ha⟩ := htold s hs
      have hsilent : anyReadsLine s.actions = false := hm.quiet _ ha
      refine (Keeps.modify fun n hn => ⟨hn.dictionary, hn.rack, hn.quiet⟩).bind fun _ => ?_
      exact Matches.forM_of_mem fun b hb => (hact s.binding b (readsLine_of_mem hsilent hb)).discard
    exact htell.on hset

private theorem subscribe_still (number : Nat) (b : PortBinding) (port label : String)
    {actions : List PortAction} (hactions : anyReadsLine actions = false) :
    Keeps (Machine.Still d r) (subscribe number b port label actions) := by
  refine Keeps.of_on fun m hm => ?_
  rcases subscribe_cases number b port label actions m with ⟨c, hon⟩ | ⟨a, hon⟩
  · rw [hon]
    exact hm
  · rw [hon]
    refine ⟨hm.dictionary, hm.rack, fun x hx => ?_⟩
    rcases List.mem_append.mp hx with hx | hx
    · exact hm.quiet x hx
    · rw [List.mem_singleton.mp hx]
      exact hactions

private theorem closeBinding_still (number : Nat) :
    Keeps (Machine.Still d r) (closeBinding number) := by
  refine Keeps.of_on fun m hm => ?_
  rw [closeBinding, on_get_bind]
  cases m.bindings[number]? with
  | none => exact hm
  | some b =>
    refine ⟨hm.dictionary, hm.rack, fun x hx => hm.quiet x ?_⟩
    exact Memory.mem_of_unwatch_all b.subscriptions m.memory hx

private theorem perform_still (reader : String → Run PortAnswer) (depth number : Nat)
    {action : PortAction} (h : action.readsLine = false) :
    Keeps (Machine.Still d r) (perform reader depth number action) := by
  induction depth generalizing number action with
  | zero => exact Matches.fail _
  | succ depth ih =>
    have hstore (address value : Value) (size : Int) :
        Keeps (Machine.Still d r) (store (perform reader depth) address value size) :=
      store_still (fun number a ha => ih number ha) address value size
    refine Keeps.get_bind fun m _ => ?_
    cases m.bindings[number]? with
    | none => exact Matches.pure _
    | some b =>
      cases action with
      | set port value =>
        refine Matches.bind (Keeps.get_bind fun m _ => ?_) fun _ => Matches.pure _
        refine (Matches.lift _).bind fun found => ?_
        exact Matches.ite _ (Matches.bind (Matches.fail _) fun _ => hstore _ _ _) (hstore _ _ _)
      | update port value =>
        refine Matches.bind (Keeps.get_bind fun m _ => ?_) fun _ => Matches.pure _
        exact (Matches.lift _).bind fun found => hstore _ _ _
      | get port =>
        refine Matches.map _ (Keeps.get_bind fun m _ => ?_)
        exact (Matches.lift _).bind fun found => Matches.lift _
      | address port =>
        refine Keeps.get_bind fun m _ => ?_
        exact (Matches.lift _).bind fun found => Matches.pure _
      | subscribe port label actions =>
        exact (subscribe_still number b port label h).bind fun _ => Matches.pure _
      | line text => cases h
      | close => exact (closeBinding_still number).bind fun _ => Matches.pure _
      | fail message => exact Matches.fail _

end Hooks

end Run

def Dictionary.install (d : Dictionary) (e : String × Word) : Dictionary :=
  { d with words := d.words.insert (Text.lower e.1) (e.2, false) }

def Machine.installing (m : Machine) (es : List (String × Word)) : Machine :=
  { m with dictionary := es.foldl Dictionary.install m.dictionary }

def Device.accessor (d : Device) (p : Port) : String × Word := (p.name, Run.accessor d.name p.name)

namespace Run

private def Installs (P : String × Word → Prop) (p : Run PUnit) : Prop :=
  ∀ m : Machine, (∃ e n, P e ∧ (m.installing [e]).Logged n ∧ p.on m = (.ok ⟨⟩, n)) ∨
    ∃ stop, p.on m = (.error stop, m)

private theorem addWord_installs (name : String) (word : Word) :
    Installs (· = (name, word)) (addWord name word false) := by
  intro m
  rw [addWord, on_get_bind]
  unfold Dictionary.add
  cases name.isEmpty with
  | true => exact .inr ⟨_, rfl⟩
  | false =>
    obtain ⟨n, hn, hreport⟩ := report_logged .debug "Dictionary" s!"Adding word `{name}`."
      (m.installing [(name, word)])
    exact .inl ⟨(name, word), n, rfl, hn, hreport⟩

private theorem hostWord_stays (name : String) (w : HostWord) (m : Machine) :
    (∃ word, (hostWord name w).on m = (.ok word, m)) ∨
    ∃ stop, (hostWord name w).on m = (.error stop, m) := by
  have hlift (x : Except Cause Word) :
      (∃ word, (lift x).on m = (.ok word, m)) ∨ ∃ stop, (lift x).on m = (.error stop, m) := by
    cases x with
    | ok word => exact .inl ⟨word, rfl⟩
    | error c => exact .inr ⟨_, rfl⟩
  cases w with
  | word word => exact .inl ⟨word, rfl⟩
  | named target => exact hlift _
  | function signature apply => exact hlift _
  | task signature task => exact hlift _
  | value v =>
    refine .inr ?_
    rw [hostWord]
    cases v.quoted with
    | ok shown => exact ⟨_, rfl⟩
    | error c => exact ⟨_, rfl⟩

private theorem addHostWord_installs (name : String) (w : HostWord) :
    Installs (fun e => e.1 = name) (discard (addHostWord name w false)) := by
  intro m
  change (∃ e n, _ ∧ _ ∧ ((fun _ => ⟨⟩) <$> addHostWord name w false : Run PUnit).on m = _) ∨
    ∃ stop, ((fun _ => ⟨⟩) <$> addHostWord name w false : Run PUnit).on m = _
  rw [← bind_pure_comp, addHostWord, bind_assoc]
  rcases hostWord_stays name w m with ⟨word, hword⟩ | ⟨stop, hword⟩
  · rw [on_bind_ok hword, bind_assoc]
    rcases addWord_installs name word m with ⟨e, n, rfl, hn, hadd⟩ | ⟨stop, hadd⟩
    · exact .inl ⟨_, n, rfl, hn, on_bind_ok hadd _⟩
    · exact .inr ⟨stop, on_bind_error hadd _⟩
  · exact .inr ⟨stop, on_bind_error hword _⟩

private theorem logged_installing {m n k : Machine} {es es' : List (String × Word)}
    (hn : (m.installing es).Logged n) (hk : (n.installing es').Logged k) :
    (m.installing (es ++ es')).Logged k := by
  refine Machine.Logged.trans ?_ hk
  obtain ⟨entries, events, rfl⟩ := hn
  refine ⟨entries, events, ?_⟩
  simp [Machine.installing, List.foldl_append]

private theorem forM_installs {γ δ : Type} {g : String × Word → δ} {h : γ → δ} {f : γ → Run PUnit}
    (hf : ∀ x, Installs (fun e => g e = h x) (f x)) (xs : List γ) (m : Machine) :
    (∃ es n, es.map g = xs.map h ∧ (m.installing es).Logged n ∧
      (xs.forM f).on m = (.ok ⟨⟩, n)) ∨
    ∃ before x after es stop n, xs = before ++ x :: after ∧ es.map g = before.map h ∧
      (m.installing es).Logged n ∧ (xs.forM f).on m = (.error stop, n) := by
  induction xs generalizing m with
  | nil => exact .inl ⟨[], m, rfl, .refl m, rfl⟩
  | cons x xs ih =>
    rcases hf x m with ⟨e, n, he, hn, hx⟩ | ⟨stop, hx⟩
    · rcases ih n with ⟨es, k, hes, hk, hxs⟩ | ⟨before, y, after, es, stop, k, rfl, hes, hk, hxs⟩
      · exact .inl ⟨e :: es, k, by simp [he, hes], logged_installing hn hk,
          (on_bind_ok hx _).trans hxs⟩
      · exact .inr ⟨x :: before, y, after, e :: es, stop, k, rfl, by simp [he, hes],
          logged_installing hn hk, (on_bind_ok hx _).trans hxs⟩
    · exact .inr ⟨[], x, xs, [], stop, m, rfl, rfl, .refl m, on_bind_error hx _⟩

/-- The words of a device that were installed before one of them failed: accessors of ports, or
those of all ports and some words of its own. -/
def PartlyInstalled (d : Device) (installed : List (String × Word)) : Prop :=
  (∃ before p after, d.ports = before ++ p :: after ∧ installed = before.map d.accessor) ∨
  ∃ before w after own, d.words = some (before ++ w :: after) ∧
    own.map Prod.fst = before.map Prod.fst ∧ installed = d.ports.map d.accessor ++ own

private theorem registerWordsOf_of_error {d : Device} {m m' : Machine} {stop : Stop}
    (h : (registerWordsOf d).on m = (.error stop, m')) :
    ∃ installed, PartlyInstalled d installed ∧ (m.installing installed).Logged m' := by
  have hport (p : Port) : Installs (fun e => id e = d.accessor p)
      (addWord p.name (accessor d.name p.name) false) := addWord_installs _ _
  have hword (w : String × HostWord) : Installs (fun e => e.1 = w.1)
      (discard (addHostWord w.1 w.2 false)) := addHostWord_installs w.1 w.2
  unfold registerWordsOf at h
  rcases forM_installs hport d.ports m with
    ⟨es, n, hes, hn, hports⟩ | ⟨before, p, after, es, stop', n, hsplit, hes, hn, hports⟩
  · rw [on_bind_ok hports] at h
    rw [List.map_id] at hes
    rcases forM_installs hword (d.words.getD []) n with
      ⟨_, _, -, -, hwords⟩ | ⟨before, w, after, own, stop', k, hsplit, hown, hk, hwords⟩
    · rw [hwords] at h
      cases h
    · rw [hwords] at h
      cases h
      have hsome : d.words = some (before ++ w :: after) := by
        cases hw : d.words with
        | none => simp [hw] at hsplit
        | some ws => simpa [hw] using hsplit
      refine ⟨_, .inr ⟨before, w, after, own, hsome, hown, rfl⟩, ?_⟩
      rw [← hes]
      exact logged_installing hn hk
  · rw [on_bind_error hports] at h
    rw [List.map_id] at hes
    cases h
    exact ⟨_, .inl ⟨before, p, after, hsplit, rfl⟩, by rwa [← hes]⟩

section Hooks

variable (hook : Option Nat → HookAction → Run Unit)

def greet (d : Device) (number : Nat) : Run Unit := do
  match d.onAttach with
  | some actions =>
    modify fun m =>
      { m with rack := { m.rack with handed := m.rack.handed.insert d.name number } }
    actions.forM (hook (some number))
  | none => pure ()

theorem setUp_eq (d : Device) (number : Nat) :
    setUp hook d number = (do
      greet hook d number
      registerWords (some d.name)) := by
  unfold setUp greet
  cases d.onAttach with
  | none => rfl
  | some actions => simp only [bind_assoc]

end Hooks

theorem runHook_port (fuel depth : Nat) (binding : Option Nat) (a : PortAction) :
    runHook fuel depth binding (.port a) = discard (actFor fuel binding a) := by
  cases depth <;> rfl

private theorem greet_still (fuel depth : Nat) {d : Device} (number : Nat) {m : Machine}
    (hm : m.Quiet)
    (hhook : ∀ actions, d.onAttach = some actions → ∀ a ∈ actions, a.throughBinding = true) :
    ∃ handed, ((greet (runHook fuel depth) d number).on m).2.Still m.dictionary
      { m.rack with handed } := by
  unfold greet
  cases hd : d.onAttach with
  | none => exact ⟨m.rack.handed, rfl, rfl, hm⟩
  | some actions =>
    refine ⟨m.rack.handed.insert d.name number, ?_⟩
    dsimp only
    rw [on_modify_bind]
    refine Keeps.on (Matches.forM_of_mem fun a ha => ?_) ⟨rfl, rfl, hm⟩
    have hbound := hhook actions hd a ha
    cases a with
    | port action =>
      have hreads : action.readsLine = false := by
        simpa [HookAction.throughBinding] using hbound
      rw [runHook_port]
      exact (perform_still _ nestingLimit number hreads).discard
    | attach o => cases hbound
    | detach device => cases hbound

private theorem setUp_of_error {fuel depth : Nat} {d : Device} {number : Nat} {m m' : Machine}
    {stop : Stop} (hm : m.Quiet)
    (hhook : ∀ actions, d.onAttach = some actions → ∀ a ∈ actions, a.throughBinding = true)
    (hdevice : m.rack.devices.get? d.name = some d) (hname : d.name.isEmpty = false)
    (h : (setUp (runHook fuel depth) d number).on m = (.error stop, m')) :
    ∃ handed installed, m'.rack = { m.rack with handed } ∧
      m'.dictionary = (m.installing installed).dictionary ∧
      (((greet (runHook fuel depth) d number).on m).1 = .error stop ∧ installed = [] ∨
        PartlyInstalled d installed) := by
  obtain ⟨handed, hstill⟩ := greet_still fuel depth number hm hhook
  rw [setUp_eq] at h
  rcases hgreet : (greet (runHook fuel depth) d number).on m with ⟨stop' | _, n⟩ <;>
    rw [hgreet] at hstill
  · rw [on_bind_error hgreet] at h
    cases h
    exact ⟨handed, [], hstill.rack, hstill.dictionary, .inl ⟨rfl, rfl⟩⟩
  · have hdictionary : n.dictionary = m.dictionary := hstill.dictionary
    have hfound : n.rack.devices.get? d.name = some d := by
      rw [hstill.rack]
      exact hdevice
    rw [on_bind_ok hgreet, registerWords, on_get_bind] at h
    dsimp only at h
    rw [hname, hfound] at h
    obtain ⟨installed, hinstalled, hm'⟩ := registerWordsOf_of_error h
    refine ⟨handed, installed, ?_, ?_, .inr hinstalled⟩
    · obtain ⟨_, _, rfl⟩ := hm'
      exact hstill.rack
    · obtain ⟨_, _, rfl⟩ := hm'
      simp [Machine.installing, hdictionary]

private theorem displacePorts_on (device : String) (addresses : Table Int) (ports : List Port)
    (m : Machine) :
    ∃ memory, (displacePorts device addresses ports).on m =
        (.ok (), { m with memory, rack := m.rack.displaceAll addresses ports }) ∧
      memory.bindings =
        m.memory.bindings.eraseAll (ports.map fun p => Rack.blockName device p.name) := by
  induction ports generalizing m with
  | nil => exact ⟨m.memory, rfl, rfl⟩
  | cons p ports ih => exact ih _

private theorem closeBinding_on (number : Nat) (m : Machine) :
    ∃ memory bindings, (closeBinding number).on m = (.ok (), { m with memory, bindings }) ∧
      memory.bindings = m.memory.bindings := by
  rw [closeBinding, on_get_bind]
  cases m.bindings[number]? with
  | none => exact ⟨m.memory, m.bindings, rfl, rfl⟩
  | some b => exact ⟨_, _, rfl, (Memory.evolves_unwatch_all b.subscriptions m.memory).bindings⟩

theorem unregister_on {device : String} {d : Device} {number : Nat} {m : Machine}
    (hdevice : m.rack.devices.get? device = some d)
    (hbinding : m.rack.bindings.get? device = some number) :
    ∃ memory bindings n,
      memory.bindings =
        m.memory.bindings.eraseAll (d.ports.map fun p => Rack.blockName device p.name) ∧
      Machine.Logged
        { m with
          memory
          bindings
          rack := (m.rack.displaceAll ((m.rack.addresses.get? device).getD {}) d.ports).forget
            device } n ∧
      (unregister device).on m = (.ok (), n) := by
  obtain ⟨memory₁, hdisplace, hblocks⟩ :=
    displacePorts_on device ((m.rack.addresses.get? device).getD {}) d.ports m
  obtain ⟨memory, bindings, hclose, hkept⟩ := closeBinding_on number
    { m with
      memory := memory₁
      rack := m.rack.displaceAll ((m.rack.addresses.get? device).getD {}) d.ports }
  obtain ⟨_, ⟨entries, events, rfl⟩, hreport⟩ := report_logged .info "Device"
    s!"Unregistered device `{device}`."
    { m with
      memory
      bindings
      rack := m.rack.displaceAll ((m.rack.addresses.get? device).getD {}) d.ports }
  refine ⟨memory, bindings, _, hkept.trans hblocks, ⟨entries, events, rfl⟩, ?_⟩
  rw [unregister, on_get_bind]
  dsimp only
  rw [hdevice]
  dsimp only
  rw [on_bind_ok hdisplace, hbinding]
  dsimp only
  rw [on_bind_ok hclose, on_bind_ok hreport]
  rfl

section Hooks

variable {hook : Option Nat → HookAction → Run Unit} {o : Offer} {d : Device} {number : Nat}
  {f : Failure} {m n n₁ : Machine}

/-- A device that cannot be set up is withdrawn, and the next address is set back to where it was,
unless the device is gone by then. -/
theorem attachBy_of_failed (hregister : (register o).on m = (.ok (d, number), n))
    (hsetUp : (setUp hook d number).on n = (.error (.failed f), n₁)) :
    ∃ n₂, n₁.Logged n₂ ∧ (attachBy hook o).on m =
      match (unregister d.name).on n₂ with
      | (.ok (), n') =>
        (.error (.failed f), { n' with rack := { n'.rack with next := m.rack.next } })
      | (.error stop, n') => (.error stop, n') := by
  let name := d.name
  obtain ⟨n₂, hn₂, hreport⟩ := report_logged .error "Device"
    s!"Attaching device `{name}` failed, unregistering it." n₁
  refine ⟨n₂, hn₂, ?_⟩
  rw [attachBy, on_get_bind, on_bind_ok hregister]
  dsimp only
  rw [on_bind, on_tryCatch, hsetUp]
  dsimp only
  rw [on_bind_ok hreport]
  rcases hunregister : (unregister d.name).on n₂ with ⟨stop | _, n'⟩
  · rw [on_bind_error hunregister]
  · rw [on_bind_ok hunregister]
    rfl

/-- What an attach comes to. -/
inductive Attached (hook : Option Nat → HookAction → Run Unit) (o : Offer) (m : Machine) :
    Except Stop String × Machine → Prop where
  | refused {stop : Stop} {n : Machine} :
      (register o).on m = (.error stop, n) → Attached hook o m (.error stop, n)
  | done {d : Device} {number : Nat} {n n₁ : Machine} :
      (register o).on m = (.ok (d, number), n) → (setUp hook d number).on n = (.ok (), n₁) →
      Attached hook o m (.ok d.name, n₁)
  | exhausted {d : Device} {number : Nat} {n n₁ : Machine} :
      (register o).on m = (.ok (d, number), n) →
      (setUp hook d number).on n = (.error .exhausted, n₁) →
      Attached hook o m (.error .exhausted, n₁)
  | gone {d : Device} {number : Nat} {f : Failure} {stop : Stop} {n n₁ n₂ n' : Machine} :
      (register o).on m = (.ok (d, number), n) →
      (setUp hook d number).on n = (.error (.failed f), n₁) → n₁.Logged n₂ →
      (unregister d.name).on n₂ = (.error stop, n') → Attached hook o m (.error stop, n')
  | withdrawn {d : Device} {number : Nat} {f : Failure} {n n₁ n₂ n' : Machine} :
      (register o).on m = (.ok (d, number), n) →
      (setUp hook d number).on n = (.error (.failed f), n₁) → n₁.Logged n₂ →
      (unregister d.name).on n₂ = (.ok (), n') → Attached hook o m
        (.error (.failed f), { n' with rack := { n'.rack with next := m.rack.next } })

theorem attachBy_cases (hook : Option Nat → HookAction → Run Unit) (o : Offer) (m : Machine) :
    Attached hook o m ((attachBy hook o).on m) := by
  rcases hr : (register o).on m with ⟨stop | ⟨d, number⟩, n⟩
  · rw [attachBy, on_get_bind, on_bind_error hr]
    exact .refused hr
  · rcases hs : (setUp hook d number).on n with ⟨(f | _) | _, n₁⟩
    · obtain ⟨n₂, hn₂, h⟩ := attachBy_of_failed hr hs
      rw [h]
      rcases hu : (unregister d.name).on n₂ with ⟨stop | _, n'⟩
      · exact .gone hr hs hn₂ hu
      · exact .withdrawn hr hs hn₂ hu
    · rw [attachBy, on_get_bind, on_bind_ok hr, on_bind, on_tryCatch, hs]
      exact .exhausted hr hs
    · rw [attachBy, on_get_bind, on_bind_ok hr, on_bind, on_tryCatch, hs]
      exact .done hr hs

-- The hook has left the device where it was, so that it can be withdrawn.
private theorem attachBy_of_error (hregister : (register o).on m = (.ok (d, number), n))
    (hsetUp : (setUp hook d number).on n = (.error (.failed f), n₁))
    (hdevice : n₁.rack.devices.get? d.name = some d)
    (hbinding : n₁.rack.bindings.get? d.name = some number) :
    ∃ m', (attachBy hook o).on m = (.error (.failed f), m') ∧ m'.dictionary = n₁.dictionary ∧
      m'.rack =
        { (n₁.rack.displaceAll ((n₁.rack.addresses.get? d.name).getD {}) d.ports).forget d.name with
          next := m.rack.next } := by
  obtain ⟨_, ⟨entries, events, rfl⟩, hattach⟩ := attachBy_of_failed hregister hsetUp
  obtain ⟨_, _, n', -, ⟨_, _, rfl⟩, hunregister⟩ :=
    unregister_on (m := { n₁ with log := { n₁.log with entries }, events }) hdevice hbinding
  rw [hunregister] at hattach
  exact ⟨_, hattach, rfl, rfl⟩

end Hooks

theorem registered_of_ok {o : Offer} {d : Device} {number : Nat} {m m' : Machine}
    (h : (register o).on m = (.ok (d, number), m')) :
    m.rack.accept o = .ok d ∧ number = m.bindings.length ∧ (m.registered d).Logged m' := by
  rcases register_cases o m with
    ⟨_, -, hr⟩ | ⟨_, _, _, _, _, _, -, -, -, -, hr⟩ | ⟨d', n, haccept, hn, hr⟩ <;> rw [hr] at h <;>
    cases h
  exact ⟨haccept, rfl, hn⟩

private theorem watchers_placeAll (m : Machine) (device : String) (ports : List Port) :
    (m.placeAll device ports).memory.watchers = m.memory.watchers := by
  induction ports generalizing m with
  | nil => rfl
  | cons p ports ih => exact ih (m.placePort device p)

private theorem dictionary_placeAll (m : Machine) (device : String) (ports : List Port) :
    (m.placeAll device ports).dictionary = m.dictionary := by
  induction ports generalizing m with
  | nil => rfl
  | cons p ports ih => exact ih (m.placePort device p)

private theorem rack_restored {m : Machine} {d : Device} (hrack : m.rack.Consistent)
    (hdevice : m.rack.devices.get? d.name = none) (hnames : (d.ports.map Port.name).Nodup)
    {r : Rack} {handed : Table Nat} (hr : r = { (m.registered d).rack with handed }) :
    let restored := { (r.displaceAll ((r.addresses.get? d.name).getD {}) d.ports).forget d.name with
      next := m.rack.next }
    restored.devices = m.rack.devices ∧ restored.bindings = m.rack.bindings ∧
      restored.addresses = m.rack.addresses ∧
      ∀ a, restored.owners.get? a = m.rack.owners.get? a := by
  obtain ⟨hdevices, hbindings, haddresses⟩ := m.placeAll_devices d.name d.ports
  have hlaid : r.addresses.get? d.name = some (layOut {} m.rack.next d.ports) := by
    rw [hr]
    simp [Machine.registered, Rack.attach]
  intro restored
  refine ⟨?_, ?_, ?_, fun a => ?_⟩
  · change (r.displaceAll _ d.ports).devices.erase d.name = _
    rw [Rack.displaceAll_eq, hr]
    change ((m.placeAll d.name d.ports).rack.devices.insert d.name d).erase d.name = _
    rw [hdevices, Table.erase_insert_of_get?_eq_none hdevice]
  · change (r.displaceAll _ d.ports).bindings.erase d.name = _
    rw [Rack.displaceAll_eq, hr]
    change ((m.placeAll d.name d.ports).rack.bindings.insert d.name _).erase d.name = _
    rw [hbindings, Table.erase_insert_of_get?_eq_none (hrack.bindings d.name hdevice)]
  · change (r.displaceAll _ d.ports).addresses.erase d.name = _
    rw [Rack.displaceAll_eq, hr]
    change ((m.placeAll d.name d.ports).rack.addresses.insert d.name _).erase d.name = _
    rw [haddresses, Table.erase_insert_of_get?_eq_none (hrack.addresses d.name hdevice)]
  · change (r.displaceAll ((r.addresses.get? d.name).getD {}) d.ports).owners.get? a = _
    rw [hlaid, Option.getD_some, owners_displaceAll r {} m.rack.next hnames]
    split
    · rename_i hin
      exact (hrack.owners a hin.1).symm
    · rename_i hout
      have hnone : portAt? m.rack.next d.ports a = none := by
        rwa [← Option.not_isSome_iff_eq_none, isSome_portAt?_iff]
      rw [hr]
      change (m.placeAll d.name d.ports).rack.owners.get? a = _
      rw [m.owners_placeAll, hnone]
      rfl

/-- A device that is registered but cannot be set up leaves the rack as it was, if its ports have
different names. The dictionary is not set back: the accessors of ports, and then the words of the
device, that were installed before the failure stay, whatever stood under their names before. -/
theorem failed_attach_keeps_installed_words {fuel : Nat} {o : Offer} {d : Device} {number : Nat}
    {m m₁ m₂ : Machine} {f : Failure} (hrack : m.rack.Consistent) (hquiet : m.Quiet)
    (hregister : (register o).on m = (.ok (d, number), m₁))
    (hnames : (d.ports.map Port.name).Nodup)
    (hhook : ∀ actions, d.onAttach = some actions → ∀ a ∈ actions, a.throughBinding = true)
    (hsetUp : (setUp (runHook fuel nestingLimit) d number).on m₁ = (.error (.failed f), m₂)) :
    ∃ m' installed, (attach fuel o).on m = (.error (.failed f), m') ∧
      m'.rack.devices = m.rack.devices ∧ m'.rack.bindings = m.rack.bindings ∧
      m'.rack.addresses = m.rack.addresses ∧ m'.rack.next = m.rack.next ∧
      (∀ a, m'.rack.owners.get? a = m.rack.owners.get? a) ∧
      m'.dictionary = installed.foldl Dictionary.install m.dictionary ∧
      (((greet (runHook fuel nestingLimit) d number).on m₁).1 = .error (.failed f) ∧
          installed = [] ∨
        PartlyInstalled d installed) := by
  obtain ⟨haccept, rfl, hm₁⟩ := registered_of_ok hregister
  obtain ⟨hname, hdevice, -⟩ := Rack.accepts_of_accept haccept
  have hrack₁ : m₁.rack = (m.registered d).rack := by
    obtain ⟨_, _, rfl⟩ := hm₁
    rfl
  have hdictionary₁ : m₁.dictionary = m.dictionary := by
    obtain ⟨_, _, rfl⟩ := hm₁
    exact dictionary_placeAll m d.name d.ports
  have hquiet₁ : m₁.Quiet := by
    obtain ⟨_, _, rfl⟩ := hm₁
    intro w hw
    refine hquiet w ?_
    rwa [← watchers_placeAll m d.name d.ports]
  have hfound : m₁.rack.devices.get? d.name = some d := by
    rw [hrack₁]
    simp [Machine.registered, Rack.attach]
  obtain ⟨handed, installed, hrack₂, hdictionary₂, hinstalled⟩ :=
    setUp_of_error hquiet₁ hhook hfound hname hsetUp
  rw [hrack₁] at hrack₂
  obtain ⟨m', hattach, hdictionary', hrack'⟩ := attachBy_of_error hregister hsetUp
    (by rw [hrack₂]; simp [Machine.registered, Rack.attach])
    (by rw [hrack₂]; simp [Machine.registered, Rack.attach])
  obtain ⟨hdevices, hbindings, haddresses, howners⟩ := rack_restored hrack hdevice hnames hrack₂
  rw [← hrack'] at hdevices hbindings haddresses howners
  refine ⟨m', installed, hattach, hdevices, hbindings, haddresses, ?_, howners, ?_, hinstalled⟩
  · rw [hrack']
  · rw [hdictionary', hdictionary₂, Machine.installing, hdictionary₁]

private def usurper : Offer :=
  { name := some "d"
    ports := some [.port "dup" 1 "readwrite" ""]
    words := some [("w", .value (.int 5))] }

private theorem builtin_consistent : Session.builtin.rack.Consistent := by
  have hempty : Session.builtin.rack.owners.isEmpty = true := by decide +kernel
  have haddresses : Session.builtin.rack.addresses.entries.isEmpty = true := by decide +kernel
  have hbindings : Session.builtin.rack.bindings.entries.isEmpty = true := by decide +kernel
  refine ⟨fun name _ => ?_, fun name _ => ?_, fun a _ => ?_⟩
  · rw [Table.get?, List.isEmpty_iff.mp haddresses]
    rfl
  · rw [Table.get?, List.isEmpty_iff.mp hbindings]
    rfl
  · exact Std.TreeMap.getElem?_of_isEmpty hempty

private theorem usurper_registered :
    ∃ d number m₁ f m₂, (register usurper).on Session.builtin = (.ok (d, number), m₁) ∧
      d.ports.map Port.name = ["dup"] ∧ d.onAttach = none ∧
      (setUp (runHook 100 nestingLimit) d number).on m₁ = (.error (.failed f), m₂) := by
  have hok : ((register usurper).on Session.builtin).1.toOption.any
      (fun r => r.1.ports.map Port.name == ["dup"] && r.1.onAttach.isNone) = true := by
    decide +kernel
  have hfails : failing ((do
      let r ← register usurper
      setUp (runHook 100 nestingLimit) r.1 r.2 : Run Unit).on Session.builtin) = true := by
    decide +kernel
  rcases hr : (register usurper).on Session.builtin with ⟨stop | ⟨d, number⟩, m₁⟩
  · rw [hr] at hok
    cases hok
  · rw [hr] at hok
    simp only [Except.toOption, Option.any_some, Bool.and_eq_true, beq_iff_eq,
      Option.isNone_iff_eq_none] at hok
    rw [on_bind_ok hr] at hfails
    obtain ⟨f, m₂, hsetUp⟩ := failure_of_failing hfails
    exact ⟨d, number, m₁, f, m₂, rfl, hok.1, hok.2, hsetUp⟩

/-- A device that is not attached keeps the accessor that it had installed. -/
theorem usurper_keeps_accessor :
    Session.builtin.rack.Consistent ∧
    ∃ d f m' installed, (attach 100 usurper).on Session.builtin = (.error (.failed f), m') ∧
      m'.rack.devices = Session.builtin.rack.devices ∧
      m'.dictionary = installed.foldl Dictionary.install Session.builtin.dictionary ∧
      PartlyInstalled d installed := by
  obtain ⟨d, number, m₁, f, m₂, hregister, hports, hhook, hsetUp⟩ := usurper_registered
  have hwatchers : Session.builtin.memory.watchers.isEmpty = true := by decide +kernel
  have hquiet : Session.builtin.Quiet := by
    intro w hw
    rw [List.isEmpty_iff.mp hwatchers] at hw
    cases hw
  obtain ⟨m', installed, hattach, hdevices, -, -, -, -, hdictionary, ⟨hgreet, -⟩ | hinstalled⟩ :=
    failed_attach_keeps_installed_words builtin_consistent hquiet hregister
      (by rw [hports]; decide) (by rw [hhook]; exact nofun) hsetUp
  · rw [greet, hhook] at hgreet
    cases hgreet
  · exact ⟨builtin_consistent, d, f, m', installed, hattach, hdevices, hdictionary, hinstalled⟩

private def leadsToPort : Except Cause (Option Word) → Bool
  | .ok (some (.native _ (.task (.readPort _ _)))) => true
  | _ => false

/-- After an attach that failed, a builtin word can be gone. -/
theorem failed_attach_can_change_words :
    Session.Reached Session.builtin ∧
    ∃ f m', (attach 100 usurper).on Session.builtin = (.error (.failed f), m') ∧
      m'.rack.devices.get? "d" = none ∧
      m'.dictionary.lookup "dup" ≠ Session.builtin.dictionary.lookup "dup" := by
  have hfails : failing ((attach 100 usurper).on Session.builtin) = true := by decide +kernel
  have hdevice : (((attach 100 usurper).on Session.builtin).2.rack.devices.get? "d").isNone =
      true := by decide +kernel
  have hafter : leadsToPort
      (((attach 100 usurper).on Session.builtin).2.dictionary.lookup "dup") = true := by
    decide +kernel
  have hbefore : leadsToPort (Session.builtin.dictionary.lookup "dup") = false := by
    decide +kernel
  obtain ⟨f, m', h⟩ := failure_of_failing hfails
  rw [h] at hdevice hafter
  refine ⟨Session.builtin_reached, f, m', h, Option.isNone_iff_eq_none.mp hdevice, fun hsame => ?_⟩
  rw [hsame, hbefore] at hafter
  cases hafter

end Run

end Forthline
