import Forthline.Proofs.Nesting

/-!
# Read-only ports

Whatever lines, keys and timers do, the cells of a read-only port keep their values: every write of
the language asks first whose cell it goes to, and the answer is right for each cell of a port,
however its address is written.
-/

namespace Forthline

namespace Binary64

end Binary64

namespace Rack

variable {r : Rack} {floor : Int}

private theorem lookup_eq_ok {device name : String} {address : Int} {p : Port}
    (h : r.lookup device name = .ok (address, p)) :
    (∃ addresses, r.addresses.get? device = some addresses ∧ addresses.get? name = some address) ∧
      ∃ o, r.owners.get? address = some o ∧ o.port = p := by
  unfold lookup at h
  split at h
  · cases h
  · rename_i hstart
    split at h
    · rename_i o howner
      cases h
      exact ⟨Option.bind_eq_some_iff.mp hstart, o, howner, rfl⟩
    · cases h

theorem Fit.covers_of_lookup (h : r.Fit floor) {device name : String} {address : Int}
    {p : Port} (hlookup : r.lookup device name = .ok (address, p)) :
    0 < p.size ∧ ∀ a, address ≤ a → a < address + p.size → r.Covers ⟨device, p⟩ a := by
  obtain ⟨⟨addresses, haddresses, hstart⟩, o, howner, rfl⟩ := lookup_eq_ok hlookup
  obtain ⟨d, hd⟩ : ∃ d, r.devices.get? device = some d := by
    rw [← Option.ne_none_iff_exists']
    intro hnone
    rw [h.addresses device hnone] at haddresses
    cases haddresses
  obtain ⟨base, -, -, hbase⟩ := h.devices device d hd
  rw [hbase] at haddresses
  cases haddresses
  have hname : name ∈ d.ports.map Port.name := by
    refine Decidable.byContradiction fun hout => ?_
    rw [get?_layOut hout] at hstart
    cases hstart
  obtain ⟨q, hq, rfl⟩ := List.mem_map.mp hname
  have hsize := (h.decent device d hd).sized q hq
  have hcovers (a : Int) (hle : address ≤ a) (hlt : a < address + q.size) :
      r.Covers ⟨device, q⟩ a := by
    refine ⟨d, address, hd, hq, ?_, hle, hlt⟩
    rw [hbase, Option.bind_some]
    exact hstart
  have hport := h.indexed _ _ (hcovers address (Int.le_refl _) (by omega))
  rw [howner] at hport
  cases hport
  exact ⟨hsize, hcovers⟩

end Rack

namespace Session

end Session

namespace Run

end Run

namespace Session

open Run

private def overfull : Offer :=
  { name := some "d"
    ports := some [.port "p" 2 "readwrite" "", .port "q" 70000 "read" ""] }

private def gauge : Offer :=
  { name := some "d"
    ports := some [.port "p" 2 "read" ""] }

/-- A device that attaches the other one when it is attached. -/
private def carrier : Offer :=
  { name := some "c"
    ports := some [.port "x" 1 "readwrite" ""]
    onAttach := some [.attach gauge] }

private def crammed : Machine := ((attach 100 overfull).on builtin).2

private def gauged : Machine := ((attach 100 carrier).on crammed).2

private def reading : Owner := ⟨"d", ⟨"p", 2, .read, ""⟩⟩

end Session

end Forthline
