import FuzzyInference.FuzzySystem.Description
import FuzzyInference.Proofs.Registry.Stores

/-!
# Lookups in registries

What a registry knows about its variables: handles and names stand for the same variables, adding a
variable extends the registry by one slot at its end, and adding a list of variables succeeds
exactly when all of them are valid and their names are new and distinct.
-/

namespace FuzzyInference.Registry

variable {α : Type} [Scalar α]

/-- The entries of the slots are the variables with the numbers of their slots. -/
theorem mem_entries_iff {r : Registry α} {h : Handle} {v : Variable α} :
    (h, v) ∈ r.stores.entries ↔ r.members[h.slot]? = some v :=
  Slots.mem_entries_iff

/-- The variables are those of the entries, in order. -/
theorem members_eq_entries (r : Registry α) : r.members = r.stores.entries.map Prod.snd :=
  (Slots.map_snd_entries r.stores.slots).symm

/-- There are as many filled slots as variables. -/
theorem size_eq (r : Registry α) : r.size = r.members.length := rfl

/-- No two variables have one name. -/
theorem names_nodup (r : Registry α) : (r.members.map (·.name)).Nodup := by
  rw [members_eq_entries, List.map_map]
  exact r.inStep.nodup_names

/-- Every variable is valid. -/
theorem validate_eq_ok (r : Registry α) : ∀ v ∈ r.members, v.validate = .ok () := by
  rw [members_eq_entries]
  intro v hv
  obtain ⟨entry, hentry, rfl⟩ := List.mem_map.mp hv
  exact r.inStep.valid entry hentry

/-- The names of the variables are those in the index, in order. -/
theorem names_eq (r : Registry α) : r.stores.names.names = r.names := by
  rw [r.inStep.names_eq, names, members_eq_entries, List.map_map]
  rfl

/-- Registries with the same variables are the same. -/
theorem ext_members {r r' : Registry α} (h : r.members = r'.members) : r = r' := by
  obtain ⟨⟨slots, names⟩, hstep⟩ := r
  obtain ⟨⟨slots', names'⟩, hstep'⟩ := r'
  obtain rfl : slots = slots' := congrArg Slots.mk h
  obtain rfl : names = names' := Table.ext_entries (hstep.indexed.trans hstep'.indexed.symm)
  rfl

/-- A handle stands for the variable in its slot. -/
theorem get_eq_ok_iff {r : Registry α} {h : Handle} {v : Variable α} :
    r.get h = .ok v ↔ r.members[h.slot]? = some v :=
  Stores.get_eq_ok_iff

/-- Every variable that a handle stands for is registered. -/
theorem mem_of_get {r : Registry α} {h : Handle} {v : Variable α} (hv : r.get h = .ok v) :
    v ∈ r.members :=
  List.mem_of_getElem? (get_eq_ok_iff.mp hv)

/-- Every registered variable is the one of some handle. -/
theorem exists_get_of_mem {r : Registry α} {v : Variable α} (hv : v ∈ r.members) :
    ∃ h, r.get h = .ok v := by
  obtain ⟨i, hi⟩ := List.mem_iff_getElem?.mp hv
  exact ⟨⟨i⟩, get_eq_ok_iff.mpr hi⟩

/-- A name is that of one variable only. -/
theorem eq_of_name_eq {r : Registry α} {v w : Variable α} (hv : v ∈ r.members)
    (hw : w ∈ r.members) (hn : v.name = w.name) : v = w :=
  List.inj_on_of_nodup_map r.names_nodup hv hw hn

/-- A name is that of one handle only. -/
theorem handle_eq_of_name_eq {r : Registry α} {h k : Handle} {v w : Variable α}
    (hv : r.get h = .ok v) (hw : r.get k = .ok w) (hn : v.name = w.name) : h = k :=
  r.inStep.key_eq_of_name_eq hv hw hn

/-- Looking up a name finds the handle of the variable with that name. -/
theorem byName_eq_ok_iff {r : Registry α} {name : String} {h : Handle} :
    r.byName name = .ok h ↔ ∃ v, r.get h = .ok v ∧ v.name = name :=
  r.inStep.byName_eq_ok_iff

/-- The registry of valid variables with distinct names. -/
def ofMembers (vs : List (Variable α)) (hnames : (vs.map (·.name)).Nodup)
    (hvalid : ∀ v ∈ vs, v.validate = .ok ()) : Registry α where
  stores :=
    { slots := ⟨vs⟩
      names :=
        { entries := (Slots.entries ⟨vs⟩).map fun (h, v) ↦ (v.name, h)
          nodup := by
            rw [List.map_map]
            change ((Slots.entries ⟨vs⟩).map ((·.name) ∘ Prod.snd)).Nodup
            rwa [← List.map_map, Slots.map_snd_entries] } }
  inStep :=
    { filled := fun _ _ ↦ Slots.mem_entries_iff.symm
      indexed := rfl
      valid := fun entry hentry ↦ hvalid entry.2 <| by
        have hmem := List.mem_map_of_mem (f := Prod.snd) hentry
        rwa [show Stores.entries _ = Slots.entries ⟨vs⟩ from rfl, Slots.map_snd_entries] at hmem }

/-- A registry of given variables has these. -/
@[simp] theorem members_ofMembers {vs : List (Variable α)} {hnames : (vs.map (·.name)).Nodup}
    {hvalid : ∀ v ∈ vs, v.validate = .ok ()} : (ofMembers vs hnames hvalid).members = vs := rfl

/-- The set of a label is found through the variable of its handle. -/
theorem labelSet_of_get {r : Registry α} {h : Handle} {v : Variable α} (hv : r.get h = .ok v)
    (label : String) : r.labelSet h label = v.get label := by
  simp only [labelSet, hv]
  rfl

/-- Adding to a registry adds to its stores. -/
theorem add_eq_ok_iff_stores {r r' : Registry α} {v : Variable α} {h : Handle} :
    r.add v = .ok (r', h) ↔ r.stores.add v = .ok (r'.stores, h) := by
  unfold add
  split
  · next fault hf => simp [hf]
  · next stores k hok =>
    constructor
    · intro he
      cases he
      exact hok
    · intro hstores
      obtain ⟨rfl, rfl⟩ := Prod.mk.inj (Except.ok.inj (hok.symm.trans hstores))
      rfl

/-- A registry refuses what its stores refuse, for the same reason. -/
theorem add_eq_error_iff_stores {r : Registry α} {v : Variable α} {fault : Fault α} :
    r.add v = .error fault ↔ r.stores.add v = .error fault := by
  unfold add
  split
  · next hf => rw [hf, Except.error.injEq, Except.error.injEq]
  · next hok => simp [hok]

/-- What adding a variable asks for and does. -/
theorem add_eq_ok_iff {r r' : Registry α} {v : Variable α} {h : Handle} :
    r.add v = .ok (r', h) ↔
      v.validate = .ok () ∧ v.name ∉ r.names ∧ r'.members = r.members ++ [v] ∧ h = ⟨r.size⟩ := by
  rw [add_eq_ok_iff_stores, Stores.add_eq_ok_iff, Table.get?_eq_none_iff, names_eq]
  refine and_congr_right fun hvalid ↦ and_congr_right fun hnew ↦ and_congr_left fun _ ↦ ?_
  constructor
  · intro hstores
    rw [members, hstores]
    rfl
  · intro hmembers
    have hadd := Stores.add_of_new hvalid (r.names_eq ▸ hnew)
    have hsame : r' = ⟨_, Stores.inStep_add r.inStep hadd⟩ := ext_members hmembers
    rw [hsame]

/-- A valid variable whose name is taken is refused by that name. -/
theorem add_eq_duplicate {r : Registry α} {v : Variable α} (hv : v.validate = .ok ())
    (hn : v.name ∈ r.names) : r.add v = .error (.system (.duplicateVariable v.name)) :=
  add_eq_error_iff_stores.mpr (Stores.add_of_taken hv (r.names_eq ▸ hn))

/-- A valid variable with a new name is added. -/
theorem exists_add {r : Registry α} {v : Variable α} (hv : v.validate = .ok ())
    (hn : v.name ∉ r.names) :
    ∃ r', r.add v = .ok (r', ⟨r.size⟩) ∧ r'.members = r.members ++ [v] := by
  have hadd := Stores.add_of_new hv (r.names_eq ▸ hn)
  exact ⟨⟨_, Stores.inStep_add r.inStep hadd⟩, add_eq_ok_iff_stores.mpr hadd, rfl⟩

/-- The names of a registry that a variable was added to. -/
theorem names_of_members {r r' : Registry α} {vs : List (Variable α)}
    (hm : r'.members = r.members ++ vs) : r'.names = r.names ++ vs.map (·.name) := by
  simp only [names, hm, List.map_append]

/-- Added variables stand behind the old ones, under the handles of the next slots. -/
theorem of_addAll_eq_ok {r r' : Registry α} {vs : List (Variable α)} {hs : List Handle}
    (ha : r.addAll vs = .ok (r', hs)) :
    r'.members = r.members ++ vs ∧ hs = (List.range' r.size vs.length).map Handle.mk := by
  induction vs generalizing r hs with
  | nil =>
    cases Except.ok.inj ha
    exact ⟨(List.append_nil _).symm, rfl⟩
  | cons v vs ih =>
    simp only [addAll, bind, Except.bind] at ha
    split at ha
    · cases ha
    · next first hadd =>
      obtain ⟨_, _, hm, hh⟩ := add_eq_ok_iff.mp hadd
      split at ha
      · cases ha
      · next rest hrest =>
        cases Except.ok.inj ha
        obtain ⟨hms, hhs⟩ := ih hrest
        refine ⟨by rw [hms, hm, List.append_assoc, List.singleton_append], ?_⟩
        simp only [hhs, hh, size_eq, hm, List.length_append, List.length_cons, List.length_nil,
          Nat.zero_add, List.range'_succ, List.map_cons]

/-- Valid variables whose names are new and distinct are all added. -/
theorem exists_addAll {r : Registry α} {vs : List (Variable α)}
    (hv : ∀ v ∈ vs, v.validate = .ok ()) (hn : (r.names ++ vs.map (·.name)).Nodup) :
    ∃ r' hs, r.addAll vs = .ok (r', hs) := by
  induction vs generalizing r with
  | nil => exact ⟨r, [], rfl⟩
  | cons v vs ih =>
    have hfresh : v.name ∉ r.names := by
      intro hm
      exact (List.nodup_append.mp hn).2.2 _ hm v.name (by simp) rfl
    obtain ⟨r₁, hadd, hm⟩ := exists_add (hv v (by simp)) hfresh
    have hn₁ : (r₁.names ++ vs.map (·.name)).Nodup := by
      rw [names_of_members hm, List.append_assoc]
      simpa using hn
    obtain ⟨r₂, hs, hrest⟩ := ih (fun w hw ↦ hv w (by simp [hw])) hn₁
    refine ⟨r₂, ⟨r.size⟩ :: hs, ?_⟩
    simp only [addAll, bind, Except.bind, hadd, hrest, pure, Except.pure]

/-- Valid variables of which two share a name, or one has a name that is taken, are refused by such
a name. -/
theorem addAll_eq_duplicate {r : Registry α} {vs : List (Variable α)}
    (hv : ∀ v ∈ vs, v.validate = .ok ()) (hn : ¬ (r.names ++ vs.map (·.name)).Nodup) :
    ∃ v ∈ vs, r.addAll vs = .error (.system (.duplicateVariable v.name)) := by
  induction vs generalizing r with
  | nil => exact absurd (by simpa [names] using r.names_nodup) hn
  | cons v vs ih =>
    by_cases hm : v.name ∈ r.names
    · refine ⟨v, by simp, ?_⟩
      simp only [addAll, bind, Except.bind, add_eq_duplicate (hv v (by simp)) hm]
    · obtain ⟨r₁, hadd, hm₁⟩ := exists_add (hv v (by simp)) hm
      have hn₁ : ¬ (r₁.names ++ vs.map (·.name)).Nodup := by
        rw [names_of_members hm₁, List.append_assoc]
        simpa using hn
      obtain ⟨w, hw, hrest⟩ := ih (fun w hw ↦ hv w (by simp [hw])) hn₁
      refine ⟨w, by simp [hw], ?_⟩
      simp only [addAll, bind, Except.bind, hadd, hrest]

end FuzzyInference.Registry
