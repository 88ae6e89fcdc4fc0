import FuzzyInference.Interchange.Variable
import FuzzyInference.Proofs.Interchange.FuzzySet

/-!
# Domains and variables are read back

A count is told from a size by how it is written, so a count is read back as a count and a size as a
size, whatever their values. The labels of a variable keep their order.
-/

namespace FuzzyInference

open Json

namespace Steps

variable {steps : Steps Float} {room : Nat}

/-- Counts and sizes are usable. -/
@[simp] theorem usable_toJson : steps.toJson.usable = true := by
  cases steps with
  | count n => rfl
  | size h => exact usable_ofFloat

/-- A count is read back as a count, and a finite size as a size. -/
theorem ofJson?_toJson (h : ∀ x ∈ steps.numbers, x.isFinite = true) :
    ofJson? steps.toJson = some steps := by
  cases steps with
  | count n =>
    rw [toJson, ofJson?, if_pos (Int.natCast_nonneg n), Int.toNat_natCast]
  | size step =>
    have hstep : step.isFinite = true := h step (List.mem_singleton_self step)
    rw [toJson, ofFloat, if_pos hstep]
    rfl

/-- Counts are printable, and so are the sizes that their digits identify. -/
theorem printable_toJson (h : ∀ x ∈ steps.numbers, PrintsBack x) : steps.toJson.Printable := by
  cases steps with
  | count n => trivial
  | size step => exact printable_ofFloat (h step (List.mem_singleton_self step))

/-- What is written for counts and sizes is no larger than what they were read from. -/
theorem fits_toJson_of_ofJson? {v : Json} (hf : v.fits room = true) (h : ofJson? v = some steps) :
    steps.toJson.fits room = true := by
  cases steps with
  | size step => exact fits_ofFloat
  | count n =>
    unfold ofJson? at h
    split at h
    · next m =>
      split at h
      · next hm =>
        cases h
        rwa [toJson, Int.toNat_of_nonneg hm]
      · obtain ⟨x, -, h⟩ := Option.map_eq_some_iff.mp h
        cases h
    · obtain ⟨x, -, h⟩ := Option.map_eq_some_iff.mp h
      cases h

end Steps

namespace Domain

variable {d : Domain Float} {room : Nat}

/-- A list of texts is usable. -/
@[simp] theorem usable_array_map_string {labels : List String} :
    (array (labels.map string)).usable = true := by
  rw [usable, usableItems_iff, List.forall_mem_map]
  intro _ _
  exact usable_string

/-- A domain of finite numbers is read back. -/
theorem ofJson?_toJson (h : ∀ x ∈ d.numbers, x.isFinite = true) : ofJson? d.toJson = some d := by
  cases d with
  | numeric d =>
    rw [numbers, List.forall_mem_cons, List.forall_mem_cons] at h
    obtain ⟨hlow, hhigh, hsteps⟩ := h
    rw [ofJson?, toJson, Fields.tagged?_variant (by simp) (by simp)]
    simp [Fields.string?, string?, Fields.float?, Fields.required?, Fields.optional?,
      float?_ofFloat hlow, float?_ofFloat hhigh, Steps.ofJson?_toJson hsteps]
  | categorical d =>
    have hlabels : (d.labels.map string).mapM string? = some d.labels := mapM_map_eq fun _ _ ↦ rfl
    rw [ofJson?, toJson, Fields.tagged?_variant (by simp) (by simp)]
    simp [Fields.string?, string?, Fields.items?, Json.items?, Fields.required?, Fields.optional?,
      hlabels]

/-- A domain whose numbers are identified by their digits is printable. -/
theorem printable_toJson (h : ∀ x ∈ d.numbers, PrintsBack x) : d.toJson.Printable := by
  cases d with
  | numeric d =>
    rw [numbers, List.forall_mem_cons, List.forall_mem_cons] at h
    obtain ⟨hlow, hhigh, hsteps⟩ := h
    simp [toJson, printable_variant_iff, printable_ofFloat hlow, printable_ofFloat hhigh,
      Steps.printable_toJson hsteps]
  | categorical d => simp [toJson, printable_variant_iff, Printable, printableItems_iff]

/-- What is written for a domain is no larger than what it was read from. -/
theorem fits_toJson_of_ofJson? {v : Json} (hf : v.fits room = true) (h : ofJson? v = some d) :
    d.toJson.fits room = true := by
  obtain ⟨⟨tag, fields⟩, htag, h⟩ := Option.bind_eq_some_iff.mp h
  obtain ⟨hroom, hf⟩ := Fields.fits_of_tagged? htag hf
  split at h
  · next hfields =>
    cases hfields
    simp only [Option.bind_eq_bind, Option.bind_eq_some_iff, Option.pure_def,
      Option.some.injEq] at h
    obtain ⟨name, -, low, -, high, -, v, hv, steps, hsteps, rfl⟩ := h
    have := Steps.fits_toJson_of_ofJson? (hf _ (Fields.mem_of_required? hv)) hsteps
    simp [toJson, fits_variant_iff, hroom, this]
  · next hfields =>
    cases hfields
    simp only [Option.bind_eq_bind, Option.bind_eq_some_iff, Option.pure_def,
      Option.some.injEq] at h
    obtain ⟨name, -, items, hi, labels, -, rfl⟩ := h
    obtain ⟨hroom', -⟩ := fits_array_iff.mp (hf _ (Fields.mem_of_items? hi))
    simp [toJson, fits_variant_iff, fits_array_iff, hroom, hroom']
  · cases h

end Domain

namespace Variable

variable {x : Variable Float} {room : Nat}

/-- A variable of finite numbers is read back, with its labels in their order. -/
theorem ofJson?_toJson (h : ∀ n ∈ x.numbers, n.isFinite = true) : ofJson? x.toJson = some x := by
  rw [numbers, List.forall_mem_append] at h
  have hlabels : table? FuzzySet.ofJson? (ofTable FuzzySet.toJson x.labels) = some x.labels :=
    table?_ofTable fun s hs ↦
      FuzzySet.read?_toJson fun n hn ↦ h.2 n (FuzzySet.mem_numbersAll_iff.mpr ⟨_, hs, hn⟩)
  simp [toJson, ofJson?, Fields.record?, Fields.string?, string?, Fields.required?,
    Fields.optional?, Domain.ofJson?_toJson h.1, hlabels]

/-- A variable whose numbers are identified by their digits is printable. -/
theorem printable_toJson (h : ∀ n ∈ x.numbers, PrintsBack n) : x.toJson.Printable := by
  rw [numbers, List.forall_mem_append] at h
  have hlabels : (ofTable FuzzySet.toJson x.labels).Printable := printable_ofTable fun s hs ↦
    FuzzySet.printable_toJson fun n hn ↦ h.2 n (FuzzySet.mem_numbersAll_iff.mpr ⟨_, hs, hn⟩)
  rw [toJson, Printable, printableFields_iff]
  simp [Domain.printable_toJson h.1, hlabels]

/-- What is written for a variable is no larger than what it was read from. -/
theorem fits_toJson_of_ofJson? {v : Json} (hf : v.fits room = true) (h : ofJson? v = some x) :
    x.toJson.fits room = true := by
  simp only [ofJson?, Option.bind_eq_bind, Option.bind_eq_some_iff, Option.pure_def,
    Option.some.injEq] at h
  obtain ⟨fields, hfields, name, -, dv, hdv, domain, hdomain, lv, hlv, labels, hlabels, rfl⟩ := h
  obtain ⟨hroom, hf⟩ := Fields.fits_of_record? hfields hf
  have hd := Domain.fits_toJson_of_ofJson? (hf _ (Fields.mem_of_required? hdv)) hdomain
  have hl : (ofTable FuzzySet.toJson labels).fits (room - 1) = true :=
    fits_ofTable_of_table? hlabels (hf _ (Fields.mem_of_required? hlv))
      fun _ _ hv hs ↦ FuzzySet.fits_toJson_of_read? hs hv
  simp [toJson, fits_object_iff, hroom, hd, hl]

end Variable

end FuzzyInference
