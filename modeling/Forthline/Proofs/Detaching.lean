import Forthline.Proofs.Territory

/-!
# Detaching devices

The blocks of a device's ports share one table of names with the variables and with the blocks of
other devices, under the name of the device, a dot and the name of the port. A device that is
attached and detached again takes all these names with it, whoever had them before; the others stay.
-/

namespace Forthline

namespace Machine

theorem eraseAll_placeAll (m : Machine) (device : String) {ports : List Port} {names : List String}
    (h : ∀ p ∈ ports, Rack.blockName device p.name ∈ names) :
    (m.placeAll device ports).memory.bindings.eraseAll names =
      m.memory.bindings.eraseAll names := by
  induction ports generalizing m with
  | nil => rfl
  | cons p ports ih =>
    have hrest := ih (m.placePort device p) fun q hq => h q (List.mem_cons_of_mem p hq)
    exact hrest.trans (Table.eraseAll_insert _ _ (h p List.mem_cons_self) _)

end Machine

namespace Run

/-- A device that is attached can be detached, and no names are left but those that were there
before, less the names of its blocks. So each name leads where it led, unless a block of the device
has it: then it leads nowhere, also if it was the name of a variable or of another device's block.
The table is as it was exactly if nothing had one of these names. -/
theorem detaching_forgets_block_names {o : Offer} {d : Device} {number : Nat} {m m₁ : Machine}
    (h : (register o).on m = (.ok (d, number), m₁)) :
    ∃ m₂, (unregister d.name).on m₁ = (.ok (), m₂) ∧
      let blocks := d.ports.map fun p => Rack.blockName d.name p.name
      m₂.memory.bindings = m.memory.bindings.eraseAll blocks ∧
      (∀ name, m₂.memory.bindings.get? name =
        if name ∈ blocks then none else m.memory.bindings.get? name) ∧
      (∀ name, m₂.memory.addressOf? name =
        if Text.lower name ∈ blocks then none else m.memory.addressOf? name) ∧
      (m₂.memory.bindings = m.memory.bindings ↔
        ∀ name ∈ blocks, m.memory.bindings.get? name = none) := by
  let blocks := d.ports.map fun p => Rack.blockName d.name p.name
  obtain ⟨-, rfl, hm₁⟩ := registered_of_ok h
  obtain ⟨hplaced, hdevice, hbinding⟩ :
      m₁.memory.bindings = (m.placeAll d.name d.ports).memory.bindings ∧
        m₁.rack.devices.get? d.name = some d ∧
        m₁.rack.bindings.get? d.name = some m.bindings.length := by
    obtain ⟨_, _, rfl⟩ := hm₁
    simp [Machine.registered, Rack.attach]
  obtain ⟨memory, _, m₂, hmemory, hm₂, hon⟩ := unregister_on hdevice hbinding
  have hbindings : m₂.memory.bindings = m.memory.bindings.eraseAll blocks := by
    have hblocks : ∀ p ∈ d.ports, Rack.blockName d.name p.name ∈ blocks := by
      intro p hp
      exact List.mem_map.mpr ⟨p, hp, rfl⟩
    obtain ⟨_, _, rfl⟩ := hm₂
    exact (hmemory.trans (by rw [hplaced])).trans (m.eraseAll_placeAll d.name hblocks)
  have hget (name : String) : m₂.memory.bindings.get? name =
      if name ∈ blocks then none else m.memory.bindings.get? name := by
    rw [hbindings, Table.get?_eraseAll]
  refine ⟨m₂, hon, hbindings, hget, ?_, ?_⟩
  · intro name
    unfold Memory.addressOf?
    rw [hget]
    by_cases hname : Text.lower name ∈ blocks
    · rw [if_pos hname, if_pos hname]
      rfl
    · rw [if_neg hname, if_neg hname]
  · rw [hbindings]
    exact Table.eraseAll_eq_self_iff _ _

private def plug : Offer :=
  { name := some "d", ports := some [.port "p" 1 "readwrite" ""] }

private def after (line : String) : Machine :=
  (((Session.Call.readLine line).run 100).on Session.builtin).2

private theorem plug_registered (line : String)
    (h : ((register plug).on (after line)).1.toOption.any
      (fun r => r.1.name == "d" && r.1.ports.map Port.name == ["p"]) = true) :
    ∃ d number, (register plug).on (after line) =
        (.ok (d, number), ((register plug).on (after line)).2) ∧
      d.name = "d" ∧ d.ports.map (fun p => Rack.blockName d.name p.name) = ["d.p"] := by
  obtain ⟨⟨d, number⟩, hd, hresult⟩ := result_of_any h
  obtain ⟨hname, hports⟩ : d.name = "d" ∧ d.ports.map Port.name = ["p"] := by simpa using hd
  refine ⟨d, number, hresult, hname, ?_⟩
  have hblocks : d.ports.map (fun p => Rack.blockName d.name p.name) =
      (d.ports.map Port.name).map (Rack.blockName d.name) := by
    rw [List.map_map]
    rfl
  rw [hblocks, hports, hname]
  rfl

/-- A variable of another name is still there after the device has come and gone. -/
theorem other_variable_stays :
    ∃ d number m₁ m₂, Session.Leads Session.builtin (after "variable x") ∧
      (register plug).on (after "variable x") = (.ok (d, number), m₁) ∧
      (unregister d.name).on m₁ = (.ok (), m₂) ∧
      m₂.memory.bindings = (after "variable x").memory.bindings ∧
      m₂.memory.addressOf? "X" = some 1000 := by
  obtain ⟨d, number, hregister, -, hblocks⟩ :=
    plug_registered "variable x" (by decide +kernel)
  obtain ⟨m₂, hunregister, -, -, haddress, hsame⟩ := detaching_forgets_block_names hregister
  have hleads : Session.Leads Session.builtin (after "variable x") :=
    .call 100 (.readLine "variable x") .refl
  refine ⟨d, number, _, m₂, hleads, hregister, hunregister, ?_, ?_⟩
  · rw [hsame, hblocks]
    intro name hname
    rw [List.mem_singleton.mp hname]
    exact Option.isNone_iff_eq_none.mp (by decide +kernel)
  · rw [haddress, hblocks]
    decide +kernel

/-- A variable with the name of a block is gone after the device has come and gone, although its
cell is still reserved for it. -/
theorem variable_named_as_block_is_lost :
    let m := after "variable d.p"
    let m₁ := ((register plug).on m).2
    let m₂ := ((unregister "d").on m₁).2
    Session.Leads Session.builtin m ∧
      m.memory.bindings.get? "d.p" = some ⟨1000, 1, .variable⟩ ∧
      m.memory.addressOf? "d.p" = some 1000 ∧
      ((register plug).on m).1.isOk ∧ ((unregister "d").on m₁).1.isOk ∧
      m₂.memory.bindings.get? "d.p" = none ∧ m₂.memory.addressOf? "d.p" = none := by
  intro m m₁ m₂
  have htests : (m.memory.bindings.get? "d.p" = some ⟨1000, 1, .variable⟩ &&
      m.memory.addressOf? "d.p" = some 1000 && ((register plug).on m).1.isOk &&
      ((unregister "d").on m₁).1.isOk && m₂.memory.bindings.get? "d.p" = none &&
      m₂.memory.addressOf? "d.p" = none) = true := by
    decide +kernel
  simp only [Bool.and_eq_true, decide_eq_true_eq] at htests
  obtain ⟨⟨⟨⟨⟨hlisted, haddress⟩, hregister⟩, hunregister⟩, hgone⟩, hnowhere⟩ := htests
  exact ⟨.call 100 (.readLine "variable d.p") .refl, hlisted, haddress, hregister, hunregister,
    hgone, hnowhere⟩

end Run

end Forthline
