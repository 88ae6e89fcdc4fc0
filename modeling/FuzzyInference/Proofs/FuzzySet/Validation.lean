import FuzzyInference.Proofs.Fault.Result
import FuzzyInference.Proofs.Table
import FuzzyInference.Registry

/-!
# Valid sets

What the checks of sets and variables ask for. The sets behind the labels of a registered variable
are all valid, and so are the operands of a valid set.
-/

namespace FuzzyInference

open Result

variable {α : Type} [Scalar α]

namespace SetFault

/-- Parameters pass exactly when all of them are finite. -/
theorem requireFinite_eq_ok_iff {shape : String} {parameters : List α} :
    requireFinite shape parameters = .ok () ↔ ∀ p ∈ parameters, Scalar.isFinite p = true := by
  rw [requireFinite, ← List.all_eq_true]
  split <;> simp_all

/-- Knots pass exactly when they are finite and do not decrease. -/
theorem requireOrdered_eq_ok_iff {shape : String} {knots : List α} :
    requireOrdered shape knots = .ok () ↔
      (∀ p ∈ knots, Scalar.isFinite p = true) ∧ decreases knots = false := by
  rw [requireOrdered, check_bind_eq_ok_iff, requireFinite_eq_ok_iff]
  split <;> simp_all

end SetFault

namespace FuzzySet

/-- A valid scaled set has a valid operand. -/
theorem validate_of_scale {s : FuzzySet α} {k : α} (h : (scale s k).validate = .ok ()) :
    s.validate = .ok () :=
  (check_bind_eq_ok_iff.mp h).2

/-- A valid concluded set has a valid operand. -/
theorem validate_of_implication {op : Implication} {truth : α} {s : FuzzySet α}
    (h : (implication op truth s).validate = .ok ()) : s.validate = .ok () :=
  (check_bind_eq_ok_iff.mp h).2

/-- A valid union has operands, and all of them are valid. -/
theorem validate_or_eq_ok_iff {op? : Option Disjunction} {ss : List (FuzzySet α)} :
    (or op? ss).validate = .ok () ↔ ss ≠ [] ∧ validateAll ss = .ok () := by
  rw [validate]
  cases ss <;> simp

/-- A valid intersection has operands, and all of them are valid. -/
theorem validate_and_eq_ok_iff {op? : Option Conjunction} {ss : List (FuzzySet α)} :
    (and op? ss).validate = .ok () ↔ ss ≠ [] ∧ validateAll ss = .ok () := by
  rw [validate]
  cases ss <;> simp

/-- Sets are validated one by one. -/
theorem validateAll_eq_ok_iff {ss : List (FuzzySet α)} :
    validateAll ss = .ok () ↔ ∀ s ∈ ss, s.validate = .ok () := by
  induction ss with
  | nil => simp [validateAll]
  | cons s ss ih => rw [validateAll, check_bind_eq_ok_iff, ih, List.forall_mem_cons]

end FuzzySet

namespace Shape

/-- A valid polygon has points, and their coordinates are finite. -/
theorem of_validate_piecewise {points : List (α × α)}
    (h : (piecewise points).validate = .ok ()) :
    points ≠ [] ∧ (∀ p ∈ points, Scalar.isFinite p.1 = true) ∧
      (∀ p ∈ points, Scalar.isFinite p.2 = true) := by
  cases points with
  | nil => cases h
  | cons p points =>
    obtain ⟨hx, hy⟩ := check_bind_eq_ok_iff.mp h
    have hx := (SetFault.requireOrdered_eq_ok_iff.mp hx).1
    have hy := SetFault.requireFinite_eq_ok_iff.mp hy
    exact ⟨nofun, fun q hq ↦ hx _ (List.mem_map_of_mem hq),
      fun q hq ↦ hy _ (List.mem_map_of_mem hq)⟩

end Shape

namespace Variable

omit [Scalar α] in
/-- What a label stands for is one of the sets of the variable. -/
theorem mem_values_of_get {v : Variable α} {label : String} {set : FuzzySet α}
    (hs : v.get label = .ok set) : set ∈ v.labels.values := by
  unfold get at hs
  cases hg : v.labels.get? label with
  | none =>
    rw [hg] at hs
    cases hs
  | some found =>
    rw [hg] at hs
    cases hs
    exact List.mem_map_of_mem (Table.get?_eq_some_iff.mp hg)

/-- The sets behind the labels of a valid variable are valid. -/
theorem validate_of_get {v : Variable α} (hv : v.validate = .ok ()) {label : String}
    {set : FuzzySet α} (hs : v.get label = .ok set) : set.validate = .ok () := by
  obtain ⟨-, hsets⟩ := check_bind_eq_ok_iff.mp hv
  have hall := FuzzySet.validateAll_eq_ok_iff.mp (mapError_eq_ok_iff.mp hsets)
  exact hall _ (mem_values_of_get hs)

end Variable

end FuzzyInference
