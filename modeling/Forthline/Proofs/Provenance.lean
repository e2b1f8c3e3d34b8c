import Forthline.Proofs.Reachable
import Forthline.Proofs.Vocabulary
import Mathlib.Data.List.Nodup

/-!
# Where native words come from

Reading lines makes no native words but those that push a value: all others that a session knows
without devices are builtin words under their own names. So a word of such a session is given by
its shape and its names, and can be told by them.
-/

namespace Forthline

structure Machine.Versed (ok : Word → Prop) (m : Machine) : Prop where
  known : ∀ w, m.dictionary.Knows w → ok w
  spoken : ∀ p, m.pending = some p → ∀ w ∈ p.words, ok w

namespace Run

variable {ok : Word → Prop}

private theorem versed_endures : Endures (Machine.Versed ok) where
  work := fun _ _ hm hw => ⟨fun v hv => hm.known v (hw.vocabulary v hv), hm.spoken⟩
  write := fun _ _ hm => ⟨hm.known, hm.spoken⟩
  emit := fun _ _ hm _ => ⟨hm.known, hm.spoken⟩
  note := fun _ _ hm => ⟨hm.known, hm.spoken⟩
  wake := fun _ _ hm _ => ⟨hm.known, hm.spoken⟩

private theorem versed_passes : Passes (Machine.Versed ok) where
  pause := fun _ hm => ⟨hm.known, hm.spoken⟩
  hold := fun _ hm => ⟨hm.known, hm.spoken⟩
  await := fun _ hm => ⟨hm.known, hm.spoken⟩
  touch := fun _ hm => ⟨hm.known, hm.spoken⟩
  sleep := fun _ _ hm => ⟨hm.known, hm.spoken⟩
  rest := fun _ _ _ _ _ _ _ hm => ⟨hm.known, hm.spoken⟩

private theorem versed_learns : Learns ok (Itself (Machine.Versed ok)) where
  pending := by
    rintro m _ ⟨rfl, -⟩
    rfl
  known := fun _ _ h => h.2.known
  spoken := fun _ _ _ h hp => h.2.spoken _ hp
  setPending := by
    rintro m _ p ⟨rfl, hm⟩ hp
    exact ⟨rfl, hm.known, fun q hq => hp q hq⟩
  learn := by
    rintro m _ name w permanent d ⟨rfl, hm⟩ hw hadd
    refine ⟨rfl, fun v hv => ?_, hm.spoken⟩
    rcases Dictionary.knows_of_add hadd hv with rfl | hv
    · exact hw
    · exact hm.known v hv
  declare := by
    rintro m _ name a memory ⟨rfl, hm⟩ -
    exact ⟨rfl, hm.known, hm.spoken⟩

private theorem versed_lasts (hK : Closed ok) : Lasts (Machine.Versed ok) where
  carries :=
    { nextToken := nextToken_matches versed_passes.scans
      interpret := interpret_within hK versed_endures.respects.heeds versed_learns
        versed_passes.scans
      recordToken := fun _ => Keeps.modify fun _ hm => ⟨hm.known, hm.spoken⟩
      pushFrame := pushFrame_matches versed_passes.tracks
      advance := fun _ => advance_matches versed_passes.tracks versed_endures.respects.toAbides
        versed_passes.pauses versed_passes.scans fun _ =>
          sleep_matches versed_endures.respects.heeds versed_passes.pauses versed_passes.sleeps }
  aside := by
    intro m n hm hestate hpending
    have hdictionary : n.dictionary = m.dictionary := congrArg Estate.dictionary hestate
    refine ⟨fun w hw => hm.known w (hdictionary ▸ hw), fun p hp => ?_⟩
    rcases hpending with hsame | hnone
    · exact hm.spoken p (hsame ▸ hp)
    · rw [hnone] at hp
      cases hp
  drop := fun _ hm => ⟨hm.known, hm.spoken⟩

/-- A property of words that is passed on by definitions holds of all that a session knows at its
start, if it holds of the builtin words. -/
theorem versed_of_start (hK : Closed ok) (hbuiltin : ∀ e ∈ Builtin.installed, ok e.2) {fuel : Nat}
    {c : Config} {m : Machine} (h : Session.start fuel c = .ok m) : m.Versed ok := by
  obtain ⟨threshold, hload⟩ := Session.load_of_start h
  have hblank : (Session.blank c threshold).Versed ok := by
    refine ⟨?_, nofun⟩
    rintro w (⟨e, he, -⟩ | ⟨e, he, -⟩)
    · cases he
    · cases he
  have hadd : ∀ e ∈ Builtin.installed, Keeps (Machine.Versed ok) (addWord e.1 e.2 false) :=
    fun e he => addWord_within versed_endures.respects.heeds.toMinds versed_learns e.1
      (hbuiltin e he) false
  have hloaded := (load_keeps_of (versed_lasts hK) hadd fuel c.loadLibrary).on hblank
  rwa [hload] at hloaded

end Run

mutual

def Word.natives : Word → List (String × Code)
  | .native name c => [(name, c)]
  | .definition _ body _ => nativesOf body
  | .control _ | .stray _ => []

def Node.natives : Node → List (String × Code)
  | .action w => w.natives
  | .conditional consequent alternative => nativesOf consequent ++ nativesOf alternative
  | .counted body _ | .indefinite body => nativesOf body

def nativesOf : List Node → List (String × Code)
  | [] => []
  | n :: ns => n.natives ++ nativesOf ns

end

theorem Renders.natives {ns : List Node} {ws : List Word} (h : Renders ns ws) :
    nativesOf ns = ws.flatMap Word.natives := by
  induction h with
  | nil => rfl
  | action _ _ ih => simp [nativesOf, Node.natives, ih]
  | consequent _ _ ihc ih => simp [nativesOf, Node.natives, Word.natives, ihc, ih]
  | alternative _ _ _ ihc iha ih => simp [nativesOf, Node.natives, Word.natives, ihc, iha, ih]
  | counted _ _ ihb ih | stepped _ _ ihb ih | indefinite _ _ ihb ih =>
    simp [nativesOf, Node.natives, Word.natives, ihb, ih]

def Genuine (e : String × Code) : Prop :=
  (∃ v, e.2 = .push v) ∨ ∃ b ∈ Builtin.all, e = (b.name, b.code)

def AllGenuine (es : List (String × Code)) : Prop := ∀ e ∈ es, Genuine e

@[simp] theorem allGenuine_nil : AllGenuine [] := List.forall_mem_nil _

@[simp] theorem allGenuine_append {es fs : List (String × Code)} :
    AllGenuine (es ++ fs) ↔ AllGenuine es ∧ AllGenuine fs := List.forall_mem_append

@[simp] theorem allGenuine_push (name : String) (v : Value) : AllGenuine [(name, .push v)] := by
  intro e he
  rw [List.mem_singleton.mp he]
  exact .inl ⟨v, rfl⟩

theorem allGenuine_builtin {b : Builtin} (hb : b ∈ Builtin.all) :
    AllGenuine [(b.name, b.code)] := by
  intro e he
  rw [List.mem_singleton.mp he]
  exact .inr ⟨b, hb, rfl⟩

def Word.Authentic (w : Word) : Prop := AllGenuine w.natives

theorem Run.closed_authentic : Closed Word.Authentic where
  pusher := allGenuine_push
  definition := by
    intro ws name body hws hbody e he
    rw [Word.natives, (renders_of_compile hbody).natives] at he
    obtain ⟨w, hw, he⟩ := List.mem_flatMap.mp he
    exact hws w hw e he

theorem authentic_of_installed : ∀ e ∈ Builtin.installed, e.2.Authentic := by
  intro e he
  rcases List.mem_append.mp he with he | he
  · obtain ⟨c, -, rfl⟩ := List.mem_map.mp he
    exact allGenuine_nil
  · obtain ⟨b, hb, rfl⟩ := List.mem_map.mp he
    exact allGenuine_builtin hb

/-- A session knows no native words at its start but those that push a value and the builtin ones
under their own names. -/
theorem Session.authentic_of_start {fuel : Nat} {c : Config} {m : Machine}
    (h : Session.start fuel c = .ok m) {w : Word} (hw : m.dictionary.Knows w) : w.Authentic :=
  (Run.versed_of_start Run.closed_authentic authentic_of_installed h).known w hw

def Code.pushed? : Code → Option Value
  | .push v => some v
  | _ => none

mutual

/-- The words have the same shape, the same names and the same values, as far as it can be told
without looking into functions. -/
def Word.alike : Word → Word → Bool
  | .native name c, .native name' c' => name = name' && c.pushed? = c'.pushed?
  | .control c, .control c' => c = c'
  | .definition name body permanent, .definition name' body' permanent' =>
    name = name' && permanent = permanent' && nodesAlike body body'
  | .stray shown, .stray shown' => shown = shown'
  | _, _ => false

def Node.alike : Node → Node → Bool
  | .action w, .action w' => w.alike w'
  | .conditional consequent alternative, .conditional consequent' alternative' =>
    nodesAlike consequent consequent' && nodesAlike alternative alternative'
  | .counted body stepped, .counted body' stepped' => stepped = stepped' && nodesAlike body body'
  | .indefinite body, .indefinite body' => nodesAlike body body'
  | _, _ => false

def nodesAlike : List Node → List Node → Bool
  | [], [] => true
  | n :: ns, n' :: ns' => n.alike n' && nodesAlike ns ns'
  | _, _ => false

end

private theorem builtin_names_nodup : (Builtin.all.map Builtin.name).Nodup := by decide +kernel

private theorem pushed?_of_builtin : ∀ b ∈ Builtin.all, b.code.pushed? = none := by
  have hall : (Builtin.all.all fun b => b.code.pushed?.isNone) = true := by decide +kernel
  intro b hb
  exact Option.isNone_iff_eq_none.mp (List.all_eq_true.mp hall b hb)

private theorem Genuine.code_eq {name : String} {c c' : Code} (h : Genuine (name, c))
    (h' : Genuine (name, c')) (hpushed : c.pushed? = c'.pushed?) : c = c' := by
  rcases h with ⟨v, hv⟩ | ⟨b, hb, hsame⟩ <;> rcases h' with ⟨v', hv'⟩ | ⟨b', hb', hsame'⟩
  · cases hv
    cases hv'
    cases hpushed
    rfl
  · cases hv
    cases hsame'
    rw [pushed?_of_builtin b' hb'] at hpushed
    cases hpushed
  · cases hsame
    cases hv'
    rw [pushed?_of_builtin b hb] at hpushed
    cases hpushed
  · obtain ⟨hname, rfl⟩ := Prod.mk.inj hsame
    obtain ⟨hname', rfl⟩ := Prod.mk.inj hsame'
    have hsame := List.inj_on_of_nodup_map builtin_names_nodup hb hb' (hname.symm.trans hname')
    rw [hsame]

mutual

theorem Word.eq_of_alike {w v : Word} (hw : w.Authentic) (hv : v.Authentic)
    (h : w.alike v = true) : w = v := by
  cases w with
  | native name c =>
    cases v with
    | native name' c' =>
      simp only [Word.alike, Bool.and_eq_true, decide_eq_true_eq] at h
      obtain ⟨rfl, hpushed⟩ := h
      have hcode := Genuine.code_eq (hw _ (List.mem_singleton.mpr rfl))
        (hv _ (List.mem_singleton.mpr rfl)) hpushed
      rw [hcode]
    | _ => cases h
  | control c =>
    cases v with
    | control c' => rw [of_decide_eq_true h]
    | _ => cases h
  | definition name body permanent =>
    cases v with
    | definition name' body' permanent' =>
      simp only [Word.alike, Bool.and_eq_true, decide_eq_true_eq] at h
      obtain ⟨⟨rfl, rfl⟩, hbody⟩ := h
      rw [nodes_eq_of_alike hw hv hbody]
    | _ => cases h
  | stray shown =>
    cases v with
    | stray shown' => rw [of_decide_eq_true h]
    | _ => cases h

theorem Node.eq_of_alike {n k : Node} (hn : AllGenuine n.natives) (hk : AllGenuine k.natives)
    (h : n.alike k = true) : n = k := by
  cases n with
  | action w =>
    cases k with
    | action v => rw [Word.eq_of_alike hn hk h]
    | _ => cases h
  | conditional consequent alternative =>
    cases k with
    | conditional consequent' alternative' =>
      simp only [Node.alike, Bool.and_eq_true] at h
      obtain ⟨hconsequent, halternative⟩ := allGenuine_append.mp hn
      obtain ⟨hconsequent', halternative'⟩ := allGenuine_append.mp hk
      rw [nodes_eq_of_alike hconsequent hconsequent' h.1,
        nodes_eq_of_alike halternative halternative' h.2]
    | _ => cases h
  | counted body stepped =>
    cases k with
    | counted body' stepped' =>
      simp only [Node.alike, Bool.and_eq_true, decide_eq_true_eq] at h
      obtain ⟨rfl, hbody⟩ := h
      rw [nodes_eq_of_alike hn hk hbody]
    | _ => cases h
  | indefinite body =>
    cases k with
    | indefinite body' => rw [nodes_eq_of_alike hn hk h]
    | _ => cases h

theorem nodes_eq_of_alike {ns ks : List Node} (hns : AllGenuine (nativesOf ns))
    (hks : AllGenuine (nativesOf ks)) (h : nodesAlike ns ks = true) : ns = ks := by
  cases ns with
  | nil =>
    cases ks with
    | nil => rfl
    | cons k ks => cases h
  | cons n ns =>
    cases ks with
    | nil => cases h
    | cons k ks =>
      simp only [nodesAlike, Bool.and_eq_true] at h
      obtain ⟨hn, hns⟩ := allGenuine_append.mp hns
      obtain ⟨hk, hks⟩ := allGenuine_append.mp hks
      rw [Node.eq_of_alike hn hk h.1, nodes_eq_of_alike hns hks h.2]

end

namespace Session

def leadsTo (m : Machine) (name : String) (w : Word) : Bool :=
  match m.dictionary.lookup name with
  | .ok (some v) => v.alike w
  | _ => false

theorem lookup_of_leadsTo {fuel : Nat} {c : Config} {m : Machine}
    (h : Session.start fuel c = .ok m) {name : String} {w : Word} (hw : w.Authentic)
    (hleads : leadsTo m name w = true) : m.dictionary.lookup name = .ok (some w) := by
  unfold leadsTo at hleads
  split at hleads
  · rename_i v hlookup
    have hv := authentic_of_start h (Dictionary.knows_of_lookup hlookup)
    rw [hlookup, Word.eq_of_alike hv hw hleads]
  · cases hleads

end Session

end Forthline
