import Forthline.Proofs.Flight

/-!
# Sessions at their start

A session installs its builtin words and reads the lines of its library. It then is at rest, unless
the library suspends its last line. Listeners can be added before the first line of the host.
-/

namespace Forthline

namespace Run

variable {k : Nat} {heard : List (String × String)} {m n : Machine}

def Between (k : Nat) (heard : List (String × String)) (m : Machine) : Prop :=
  Rests k heard m ∨ ∃ text, Held k 0 text heard false m

private theorem Between.logged (h : Between k heard m) (hn : m.Logged n)
    (hheard : n.heard = m.heard) : Between k heard n := by
  rcases h with h | ⟨text, h⟩
  · exact .inl (h.logged hn hheard)
  · exact .inr ⟨text, h.logged hn hheard⟩

private theorem addWord_rests {name : String} {w : Word} {permanent : Bool} (h : Rests k heard m)
    (hw : w.Within fun c => c.holds = false)
    (hadd : (addWord name w permanent).on m = (.ok (), n)) :
    Rests k heard n := by
  rw [addWord, on_get_bind] at hadd
  cases hd : m.dictionary.add name w permanent with
  | error c =>
    rw [hd] at hadd
    cases hadd
  | ok d =>
    rw [hd, on_bind_ok (on_lift_ok _ _), on_modify_bind] at hadd
    have hlearned : Rests k heard { m with dictionary := d } := by
      refine { h with known := fun v hv => ?_ }
      rcases Dictionary.knows_of_add hd hv with rfl | hv
      · exact hw
      · exact h.known v hv
    obtain ⟨n', hn', hreport⟩ := report_logged .debug "Dictionary" s!"Adding word `{name}`."
      { m with dictionary := d }
    have hheard := (report_hears (m := { m with dictionary := d }) ⟨rfl, rfl⟩ hreport).heard
    rw [hreport] at hadd
    cases hadd
    exact hlearned.logged hn' hheard

private theorem installBuiltins_rests (h : Rests k heard m)
    (hinstall : installBuiltins.on m = (.ok (), n)) : Rests k heard n := by
  unfold installBuiltins at hinstall
  have hwithin := builtin_within
  generalize Builtin.installed = words at hinstall hwithin
  induction words generalizing m with
  | nil =>
    cases hinstall
    exact h
  | cons e words ih =>
    obtain ⟨_, m₁, hadd, hinstall⟩ := on_bind_eq_ok (m := m) hinstall
    refine ih (addWord_rests h (hwithin e List.mem_cons_self) hadd) hinstall fun e he => ?_
    exact hwithin e (List.mem_cons_of_mem _ he)

private theorem readLine_between {fuel : Nat} {line : String} {r : LineResult}
    (h : Between 0 [] m) (hread : (readLine fuel line).on m = (.ok r, n)) : Between 0 [] n := by
  rcases h with h | ⟨text, h⟩
  · obtain ⟨r', hr, -, hlands⟩ := readLine_rests h (Nat.zero_le _) hread nofun
    cases hr
    cases hp : r.paused with
    | false =>
      rw [hp] at hlands
      exact .inl hlands
    | true =>
      rw [hp] at hlands
      exact .inr ⟨line, hlands⟩
  · rw [readLine_held h] at hread
    cases hread

private theorem mapM_between {fuel : Nat} {lines : List String} {rs : List LineResult}
    (h : Between 0 [] m) (hread : (lines.mapM (readLine fuel)).on m = (.ok rs, n)) :
    Between 0 [] n := by
  induction lines generalizing m rs with
  | nil =>
    cases hread
    exact h
  | cons line lines ih =>
    rw [List.mapM_cons] at hread
    obtain ⟨r, m₁, hline, hread⟩ := on_bind_eq_ok hread
    obtain ⟨rs', m₂, hlines, hread⟩ := on_bind_eq_ok hread
    cases hread
    exact ih (readLine_between h hline) hlines

private theorem forM_same {f : LineResult → Run PUnit} (hf : ∀ r, Keeps (· = m) (f r))
    {rs : List LineResult} (h : (rs.forM f).on m = (.ok ⟨⟩, n)) : n = m := by
  have hsame := Keeps.on (Matches.forM rs hf) rfl
  rwa [h] at hsame

private theorem loadLibrary_between {fuel : Nat} (h : Between 0 [] m)
    (hload : (loadLibrary fuel).on m = (.ok (), n)) : Between 0 [] n := by
  obtain ⟨rs, m₁, hread, hload⟩ := on_bind_eq_ok hload
  obtain ⟨_, m₂, hcheck, hload⟩ := on_bind_eq_ok hload
  cases hload
  have hm₂ : m₂ = m₁ := by
    refine forM_same (fun r => ?_) hcheck
    cases r.failure with
    | some f => exact Matches.throw _
    | none => exact Matches.pure _
  rw [hm₂]
  rcases mapM_between h hread with h | ⟨text, h⟩
  · exact .inl { h with }
  · exact .inr ⟨text, { h with }⟩

private theorem report_between {level : Level} {category message : String}
    (h : Between k heard m) (hreport : (report level category message).on m = (.ok (), n)) :
    Between k heard n := by
  obtain ⟨n', hn', hlogged⟩ := report_logged level category message m
  rw [hreport] at hlogged
  cases hlogged
  exact h.logged hn' (report_hears ⟨rfl, rfl⟩ hreport).heard

private theorem count_between (h : Between k heard m)
    (hcount : (do
      let count := (← get).dictionary.words.size
      report .debug "Dictionary" s!"Loaded {count} words." : Run Unit).on m = (.ok (), n)) :
    Between k heard n := by
  rw [on_get_bind] at hcount
  exact report_between h hcount

private theorem load_between {fuel : Nat} {withLibrary : Bool} (h : Rests 0 [] m)
    (hload : (load fuel withLibrary).on m = (.ok (), n)) : Between 0 [] n := by
  obtain ⟨_, m₁, hinstall, hload⟩ := on_bind_eq_ok hload
  have hinstalled : Between 0 [] m₁ := .inl (installBuiltins_rests h hinstall)
  cases withLibrary with
  | false => exact count_between hinstalled hload
  | true =>
    obtain ⟨_, m₂, hlibrary, hload⟩ := on_bind_eq_ok (p := loadLibrary fuel) hload
    exact count_between (loadLibrary_between hinstalled hlibrary) hload

/-- A session starts at rest or, if the library suspends its last line, with that line on hold. -/
theorem start_between {fuel : Nat} {c : Config} (hsize : c.memorySize = 65536)
    (hheap : c.heapStart = 1000) (hbase : c.deviceBase = 0x1000)
    (hscheduler : c.scheduler = .recording) (h : Session.start fuel c = .ok m) :
    Between 0 [] m := by
  obtain ⟨threshold, hload⟩ := Session.load_of_start h
  have hblank : Rests 0 [] (Session.blank c threshold) :=
    { sound := Session.sound_blank hsize hheap hbase threshold
      known := by
        rintro w (⟨e, he, -⟩ | ⟨e, he, -⟩)
        · cases he
        · cases he
      spoken := nofun
      nodes := List.forall_mem_nil _
      bindings := rfl
      scheduler := hscheduler
      heard := rfl
      listeners := rfl
      line := rfl
      paused := rfl
      running := rfl
      frames := rfl
      source := rfl
      waiting := rfl
      spent := nofun }
  exact load_between hblank hload

def listen : Nat → Run Unit
  | 0 => return
  | k + 1 => do
    listen k
    discard listenToLines

theorem listen_between (h : Between 0 heard m) (hlisten : (listen k).on m = (.ok (), n)) :
    Between k heard n := by
  induction k generalizing n with
  | zero =>
    cases hlisten
    exact h
  | succ k ih =>
    obtain ⟨_, m₁, hrest, hlast⟩ := on_bind_eq_ok hlisten
    cases hlast
    have hlength : ∀ l, m₁.lineListeners.length = k → (m₁.lineListeners ++ [l]).length = k + 1 := by
      intro l hl
      rw [List.length_append, hl, List.length_singleton]
    rcases ih hrest with h | ⟨text, h⟩
    · exact .inl { h with listeners := hlength _ h.listeners }
    · exact .inr ⟨text, { h with listeners := hlength _ h.listeners }⟩

end Run

end Forthline
