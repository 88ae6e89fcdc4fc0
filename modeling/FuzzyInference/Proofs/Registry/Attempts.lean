import FuzzyInference.Proofs.Fault.Result
import FuzzyInference.Proofs.Registry.Lookup
import FuzzyInference.Scalar.Machine

/-!
# Runs of additions

Variables are added one after another, and some are refused. A run is followed from the empty
stores, whatever lawful slot map they have: each attempt gives a key or a fault, and a refused
variable leaves the stores as they are. The stores stay in step along the run, and what they hold
after it, and what their lookups find, is said in terms of the variables that were accepted and the
keys that were given for them. A registry has stores of this kind and passes through the same run.
-/

namespace FuzzyInference.Stores

variable {α σ κ : Type} [Scalar α] [SlotMap σ κ (Variable α)]

/-! ### Attempts -/

/-- What adding a variable leads to: the stores afterwards, which stay as they were if the variable
is refused, and what the attempt gives. -/
def attempt (s : Stores σ κ) (v : Variable α) : Stores σ κ × Checked α κ :=
  match s.add v with
  | .ok (extended, key) => (extended, .ok key)
  | .error fault => (s, .error fault)

/-- The stores after attempts to add variables one after another. -/
def afterAttempts (s : Stores σ κ) (vs : List (Variable α)) : Stores σ κ :=
  vs.foldl (fun s v ↦ (s.attempt v).1) s

/-- What attempts to add variables one after another give. -/
def outcomes (s : Stores σ κ) : List (Variable α) → List (Checked α κ)
  | [] => []
  | v :: vs => (s.attempt v).2 :: outcomes (s.attempt v).1 vs

/-- The variables that attempts add, with the keys that they give. -/
def accepted (s : Stores σ κ) (vs : List (Variable α)) : List (κ × Variable α) :=
  (vs.zip (s.outcomes vs)).filterMap fun (v, outcome) ↦ outcome.toOption.map fun key ↦ (key, v)

variable {s : Stores σ κ} {v : Variable α} {vs ws : List (Variable α)}

/-- A valid variable of a new name goes to both stores, and any other leaves both as they are. -/
theorem attempt_cases (s : Stores σ κ) (v : Variable α) :
    ((v.validate = .ok () ∧ v.name ∉ s.names.names) ∧ ∃ t key, s.add v = .ok (t, key) ∧
      s.attempt v = (t, .ok key)) ∨
    (¬ (v.validate = .ok () ∧ v.name ∉ s.names.names) ∧
      ∃ fault, s.add v = .error fault ∧ s.attempt v = (s, .error fault)) := by
  cases hadd : s.add v with
  | ok added =>
    obtain ⟨t, key⟩ := added
    obtain ⟨hvalid, hnew, -⟩ := add_eq_ok_iff.mp hadd
    exact .inl ⟨⟨hvalid, Table.get?_eq_none_iff.mp hnew⟩, t, key, rfl, by rw [attempt, hadd]⟩
  | error fault =>
    refine .inr ⟨fun ⟨hvalid, hnew⟩ ↦ ?_, fault, rfl, by rw [attempt, hadd]⟩
    rw [add_of_new hvalid hnew] at hadd
    cases hadd

/-- An attempt succeeds exactly with a valid variable of a new name. -/
theorem isOk_attempt_iff :
    (s.attempt v).2.isOk = true ↔ v.validate = .ok () ∧ v.name ∉ s.names.names := by
  rcases attempt_cases s v with ⟨haccepted, _, _, -, hattempt⟩ | ⟨hrefused, _, -, hattempt⟩
  · rw [hattempt]
    exact iff_of_true rfl haccepted
  · rw [hattempt]
    exact iff_of_false (by simp [Except.isOk, Except.toBool]) hrefused

/-- A refused variable leaves the stores as they are. -/
theorem attempt_eq_of_error {fault : Fault α} (h : s.add v = .error fault) :
    s.attempt v = (s, .error fault) := by
  rw [attempt, h]

/-- Whatever comes of an attempt, the stores stay in step. -/
theorem InStep.attempt [LawfulSlotMap σ] (h : s.InStep) (v : Variable α) :
    (s.attempt v).1.InStep := by
  rcases attempt_cases s v with ⟨-, t, key, hadd, hattempt⟩ | ⟨-, _, -, hattempt⟩
  · rw [hattempt]
    exact inStep_add h hadd
  · rw [hattempt]
    exact h

/-! ### Runs -/

/-- A run goes on from where its first part has led. -/
theorem afterAttempts_append :
    s.afterAttempts (vs ++ ws) = (s.afterAttempts vs).afterAttempts ws :=
  List.foldl_append

/-- A run gives what its first part gives, and then what the rest gives from there. -/
theorem outcomes_append :
    s.outcomes (vs ++ ws) = s.outcomes vs ++ (s.afterAttempts vs).outcomes ws := by
  induction vs generalizing s with
  | nil => rfl
  | cons v vs ih => rw [List.cons_append, outcomes, outcomes, ih, List.cons_append]; rfl

/-- Stores that are in step stay so along every run. -/
theorem InStep.afterAttempts [LawfulSlotMap σ] (h : s.InStep) (vs : List (Variable α)) :
    (s.afterAttempts vs).InStep := by
  induction vs generalizing s with
  | nil => exact h
  | cons v vs ih => exact ih (h.attempt v)

private theorem accepted_cons :
    s.accepted (v :: vs) =
      ((s.attempt v).2.toOption.map fun key ↦ (key, v)).toList ++
        (s.attempt v).1.accepted vs := by
  cases h : (s.attempt v).2 <;> simp [accepted, outcomes, h, Except.toOption]

/-- A run puts the accepted variables with their keys behind the entries that were there, in
order. -/
theorem entries_afterAttempts [LawfulSlotMap σ] (s : Stores σ κ) (vs : List (Variable α)) :
    (s.afterAttempts vs).entries = s.entries ++ s.accepted vs := by
  induction vs generalizing s with
  | nil => exact (List.append_nil _).symm
  | cons v vs ih =>
    have hafter : s.afterAttempts (v :: vs) = (s.attempt v).1.afterAttempts vs := rfl
    rw [hafter, ih, accepted_cons, ← List.append_assoc]
    congr 1
    rcases attempt_cases s v with ⟨-, t, key, hadd, hattempt⟩ | ⟨-, _, -, hattempt⟩
    · obtain ⟨-, -, rfl, rfl⟩ := add_eq_ok_iff.mp hadd
      rw [hattempt]
      exact LawfulSlotMap.entries_insert s.slots v
    · rw [hattempt]
      exact (List.append_nil _).symm

/-- A run accepts as many variables as attempts succeed. -/
theorem length_accepted :
    (s.accepted vs).length = (s.outcomes vs).countP (·.isOk) := by
  induction vs generalizing s with
  | nil => rfl
  | cons v vs ih =>
    rw [accepted_cons, List.length_append, ih, outcomes, List.countP_cons]
    cases (s.attempt v).2 with
    | ok key => exact Nat.add_comm ..
    | error fault => exact Nat.zero_add _

/-- After a run from the empty stores, the entries are the accepted variables with their keys. -/
theorem entries_eq_accepted [LawfulSlotMap σ] (vs : List (Variable α)) :
    ((empty : Stores σ κ).afterAttempts vs).entries = (empty : Stores σ κ).accepted vs := by
  rw [entries_afterAttempts, entries, empty, LawfulSlotMap.entries_empty, List.nil_append]

/-! ### Main results -/

/-- Let a run of attempts start from the empty stores, on any lawful slot map. Then the slot map and
the index are in step, so that a name leads to a key exactly if that leads to a variable of the
name. There are as many variables as attempts succeeded, namely those that were accepted, in order,
each with the key that was given for it; and a key leads to a variable exactly if it was given for
that. The names are distinct and the variables valid. Another variable is refused exactly if it is
invalid or its name is taken, and then the stores are what they would have been without the attempt,
and so are the outcomes of all attempts behind it. -/
theorem attempts_observed [LawfulSlotMap σ] (vs : List (Variable α)) :
    let start : Stores σ κ := empty
    let s := start.afterAttempts vs
    s.InStep ∧
    s.size = (start.outcomes vs).countP (·.isOk) ∧
    s.entries = start.accepted vs ∧
    (s.entries.map (·.2.name)).Nodup ∧
    (∀ entry ∈ s.entries, entry.2.validate = .ok ()) ∧
    (∀ name key, s.byName name = .ok key ↔ ∃ v, s.get key = .ok v ∧ v.name = name) ∧
    (∀ key v, s.get key = .ok v ↔ (key, v) ∈ start.accepted vs) ∧
    (∀ v, (s.attempt v).2.isOk = true ↔
      v.validate = .ok () ∧ v.name ∉ s.entries.map (·.2.name)) ∧
    ∀ v fault, s.add v = .error fault → ∀ ws,
      start.afterAttempts (vs ++ v :: ws) = start.afterAttempts (vs ++ ws) ∧
      ∃ later, start.outcomes (vs ++ ws) = start.outcomes vs ++ later ∧
        start.outcomes (vs ++ v :: ws) = start.outcomes vs ++ .error fault :: later := by
  intro start s
  have hstep : s.InStep := inStep_empty.afterAttempts vs
  have hentries : s.entries = start.accepted vs := entries_eq_accepted vs
  refine ⟨hstep, ?_, hentries, hstep.nodup_names, hstep.valid, fun _ _ ↦ hstep.byName_eq_ok_iff,
    fun key v ↦ ?_, fun v ↦ ?_, fun v fault hrefused ws ↦ ⟨?_, ?_⟩⟩
  · rw [size, LawfulSlotMap.size_eq_length, ← length_accepted, ← hentries]
    rfl
  · rw [hstep.get_eq_ok_iff_mem, hentries]
  · rw [isOk_attempt_iff, hstep.names_eq]
  · rw [afterAttempts_append, afterAttempts_append, afterAttempts, List.foldl_cons,
      attempt_eq_of_error hrefused, ← afterAttempts]
  · refine ⟨s.outcomes ws, outcomes_append, ?_⟩
    rw [outcomes_append, outcomes, attempt_eq_of_error hrefused]

/-- A variable whose points are labels, with one label of a constant set. -/
private def labelled (name : String) (points : List String) (label : String) (degree : Float) :
    Variable Float :=
  ⟨name, .categorical ⟨name, points⟩, .ofList [(label, .constant degree)]⟩

/-- Two variables are added to numbered slots, and between them one without points is refused; then
the first name is tried again, in vain, and a third variable is added. -/
theorem attempts_observed_seasons :
    let start : Stores (Slots (Variable Float)) Handle := empty
    let season := labelled "season" ["winter", "summer"] "cold" 0.5
    let vs := [season, labelled "wind" [] "calm" 1, labelled "crop" ["rye"] "ripe" 0.25]
    let again := labelled "season" ["dry", "wet"] "mild" 1
    (start.afterAttempts vs).add again = .error (.system (.duplicateVariable "season")) ∧
      (start.afterAttempts vs).get ⟨0⟩ = .ok season ∧
      (start.afterAttempts vs).size = 2 ∧
      start.afterAttempts (vs ++ [again, labelled "soil" ["clay"] "wet" 0.75]) =
        start.afterAttempts (vs ++ [labelled "soil" ["clay"] "wet" 0.75]) := by
  intro start season vs again
  have hrefused : (start.afterAttempts vs).add again =
      .error (.system (.duplicateVariable "season")) := by rfl
  obtain ⟨-, hsize, -, -, -, -, hget, -, hlater⟩ :=
    attempts_observed (σ := Slots (Variable Float)) vs
  refine ⟨hrefused, (hget ⟨0⟩ season).mpr ?_, hsize.trans ?_,
    (hlater again _ hrefused [labelled "soil" ["clay"] "wet" 0.75]).1⟩
  · exact List.mem_cons_self
  · rfl

end FuzzyInference.Stores

namespace FuzzyInference.Registry

variable {α : Type} [Scalar α]

/-- Adding a variable to a registry, with or without success, is the attempt to add it to the
stores. -/
theorem attempt_stores (r : Registry α) (v : Variable α) :
    r.stores.attempt v =
      match r.add v with
      | .ok (extended, h) => (extended.stores, .ok h)
      | .error fault => (r.stores, .error fault) := by
  cases hadd : r.add v with
  | ok added => rw [Stores.attempt, add_eq_ok_iff_stores.mp hadd]
  | error fault => rw [Stores.attempt, add_eq_error_iff_stores.mp hadd]

/-- A registry to which variables are added one after another has the stores that the run of
attempts leads to. -/
theorem stores_of_addAll {r r' : Registry α} {vs : List (Variable α)} {hs : List Handle}
    (h : r.addAll vs = .ok (r', hs)) :
    r'.stores = r.stores.afterAttempts vs ∧ r.stores.outcomes vs = hs.map .ok := by
  induction vs generalizing r hs with
  | nil =>
    cases Except.ok.inj h
    exact ⟨rfl, rfl⟩
  | cons v vs ih =>
    obtain ⟨⟨first, handle⟩, hadd, h⟩ := Result.bind_eq_ok_iff.mp h
    obtain ⟨⟨last, handles⟩, hrest, h⟩ := Result.bind_eq_ok_iff.mp h
    cases Except.ok.inj h
    obtain ⟨hstores, houtcomes⟩ := ih hrest
    have hattempt := attempt_stores r v
    rw [hadd] at hattempt
    constructor
    · rw [hstores, Stores.afterAttempts, Stores.afterAttempts, List.foldl_cons, hattempt]
    · rw [Stores.outcomes, hattempt, houtcomes, List.map_cons]

end FuzzyInference.Registry
