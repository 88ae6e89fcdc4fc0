import FuzzyInference.Interchange.FuzzySet
import FuzzyInference.Proofs.FuzzySet.Validation
import FuzzyInference.Proofs.FuzzySystem.Description

/-!
# The numbers of a description

Every number that a description holds, and their finiteness: a description that a system is built
from holds finite numbers only.
-/

namespace FuzzyInference

open Result

variable {α : Type}

/-- The numbers of a shape: its parameters, or the coordinates of its points. -/
def Shape.numbers : Shape α → List α
  | piecewise points => points.map Prod.fst ++ points.map Prod.snd
  | curve => curve.parameters.map Prod.snd

namespace FuzzySet

mutual

/-- The numbers of a set. -/
def numbers : FuzzySet α → List α
  | singleton (.number x) => [x]
  | singleton (.label _) => []
  | discrete table => table.values
  | constant value => [value]
  | shape curve => curve.numbers
  | not set => numbers set
  | scale set factor => factor :: numbers set
  | implication _ truth set => truth :: numbers set
  | or _ sets => numbersAll sets
  | and _ sets => numbersAll sets

/-- The numbers of several sets. -/
def numbersAll : List (FuzzySet α) → List α
  | [] => []
  | set :: sets => numbers set ++ numbersAll sets

end

/-- The numbers of several sets are the numbers of each of them. -/
theorem mem_numbersAll_iff {x : α} {ss : List (FuzzySet α)} :
    x ∈ numbersAll ss ↔ ∃ s ∈ ss, x ∈ s.numbers := by
  induction ss with
  | nil => simp [numbersAll]
  | cons s ss ih => simp [numbersAll, ih]

end FuzzySet

/-- The number of a step size. -/
def Steps.numbers : Steps α → List α
  | count _ => []
  | size h => [h]

/-- The numbers of a domain: its bounds, and the step size if it has one. -/
def Domain.numbers : Domain α → List α
  | numeric d => d.low :: d.high :: d.steps.numbers
  | categorical _ => []

/-- The numbers of a variable: those of its domain and of its sets. -/
def Variable.numbers (v : Variable α) : List α :=
  v.domain.numbers ++ FuzzySet.numbersAll v.labels.values

/-- The numbers of a description: those of its variables, and the weights of its rules. -/
def SystemDescription.numbers (d : SystemDescription α) : List α :=
  (d.inputs ++ [d.target]).flatMap Variable.numbers ++ d.rules.rules.map (·.weight)

/-! ### Finite numbers -/

section Finite

variable [Scalar α]

/-- The numbers of a valid shape are finite. -/
theorem Shape.isFinite_of_validate {curve : Shape α} (h : curve.validate = .ok ()) :
    ∀ x ∈ curve.numbers, Scalar.isFinite x = true := by
  cases curve with
  | piecewise points =>
    obtain ⟨-, hx, hy⟩ := of_validate_piecewise h
    rw [numbers, List.forall_mem_append, List.forall_mem_map, List.forall_mem_map]
    exact ⟨hx, hy⟩
  | gaussian | bell =>
    exact SetFault.requireFinite_eq_ok_iff.mp (check_bind_eq_ok_iff.mp h).1
  | sigmoid | sigmoidProduct | sigmoidDifference => exact SetFault.requireFinite_eq_ok_iff.mp h
  | twoSidedGaussian width₁ center₁ width₂ center₂ =>
    obtain ⟨hw, h⟩ := check_bind_eq_ok_iff.mp h
    obtain ⟨-, h⟩ := check_bind_eq_ok_iff.mp h
    have hw := SetFault.requireFinite_eq_ok_iff.mp hw
    have hc := (SetFault.requireOrdered_eq_ok_iff.mp (check_bind_eq_ok_iff.mp h).2).1
    simp only [numbers, parameters, List.map_cons, List.map_nil, List.forall_mem_cons] at hw hc ⊢
    exact ⟨hw.1, hc.1, hw.2.1, hc.2.1, hc.2.2⟩
  | _ => exact (SetFault.requireOrdered_eq_ok_iff.mp h).1

namespace FuzzySet

mutual

/-- The numbers of a valid set are finite. -/
theorem isFinite_of_validate : {s : FuzzySet α} → s.validate = .ok () →
    ∀ x ∈ s.numbers, Scalar.isFinite x = true
  | singleton (.number _), h => SetFault.requireFinite_eq_ok_iff.mp h
  | singleton (.label _), _ => by simp [numbers]
  | discrete _, h => SetFault.requireFinite_eq_ok_iff.mp h
  | constant _, h => SetFault.requireFinite_eq_ok_iff.mp h
  | shape _, h => Shape.isFinite_of_validate h
  | not s, h => isFinite_of_validate (s := s) h
  | scale s k, h => by
    have hk := SetFault.requireFinite_eq_ok_iff.mp (check_bind_eq_ok_iff.mp h).1
    rw [numbers, List.forall_mem_cons]
    exact ⟨hk k (by simp), isFinite_of_validate (validate_of_scale h)⟩
  | implication _ truth s, h => by
    have ht := SetFault.requireFinite_eq_ok_iff.mp (check_bind_eq_ok_iff.mp h).1
    rw [numbers, List.forall_mem_cons]
    exact ⟨ht truth (by simp), isFinite_of_validate (validate_of_implication h)⟩
  | or _ ss, h => by
    have hss : validateAll ss = .ok () := (validate_or_eq_ok_iff.mp h).2
    exact isFinite_of_validateAll hss
  | and _ ss, h => by
    have hss : validateAll ss = .ok () := (validate_and_eq_ok_iff.mp h).2
    exact isFinite_of_validateAll hss

/-- The numbers of valid sets are finite. -/
theorem isFinite_of_validateAll : {ss : List (FuzzySet α)} → validateAll ss = .ok () →
    ∀ x ∈ numbersAll ss, Scalar.isFinite x = true
  | [], _ => by simp [numbersAll]
  | s :: ss, h => by
    obtain ⟨hs, hss⟩ := check_bind_eq_ok_iff.mp h
    rw [numbersAll, List.forall_mem_append]
    exact ⟨isFinite_of_validate hs, isFinite_of_validateAll hss⟩

end

end FuzzySet

/-- The numbers of a valid domain are finite. -/
theorem Domain.isFinite_of_validate {d : Domain α} (h : d.validate = .ok ()) :
    ∀ x ∈ d.numbers, Scalar.isFinite x = true := by
  cases d with
  | categorical d => simp [numbers]
  | numeric d =>
    have h : d.validate = .ok () := h
    rw [NumericDomain.validate] at h
    by_cases hbounds : (Scalar.isFinite d.low && Scalar.isFinite d.high && d.low < d.high) = true
    · rw [if_pos hbounds] at h
      simp only [Bool.and_eq_true] at hbounds
      rw [numbers, List.forall_mem_cons, List.forall_mem_cons]
      refine ⟨hbounds.1.1, hbounds.1.2, ?_⟩
      cases hsteps : d.steps with
      | count n => simp [Steps.numbers]
      | size step =>
        rw [hsteps] at h
        by_cases hstep : (Scalar.isFinite step && 0 < step) = true
        · rw [Bool.and_eq_true] at hstep
          simpa [Steps.numbers] using hstep.1
        · simp only [if_neg hstep] at h
          cases h
    · rw [if_neg hbounds] at h
      cases h

/-- The numbers of a valid variable are finite. -/
theorem Variable.isFinite_of_validate {v : Variable α} (h : v.validate = .ok ()) :
    ∀ x ∈ v.numbers, Scalar.isFinite x = true := by
  obtain ⟨hd, hs⟩ := check_bind_eq_ok_iff.mp h
  rw [numbers, List.forall_mem_append]
  exact ⟨Domain.isFinite_of_validate (mapError_eq_ok_iff.mp hd),
    FuzzySet.isFinite_of_validateAll (mapError_eq_ok_iff.mp hs)⟩

end Finite

/-- A machine number above zero and at most one is finite. -/
theorem isFinite_of_pos_of_le_one {w : Float} (hpos : 0 < w) (hle : w ≤ 1) :
    w.isFinite = true := by
  have hzero : (0 : Float).toModel.unpack = .zero .positive := by rfl
  have hlt : (0 : Float).toModel.unpack.lt w.toModel.unpack = true := of_decide_eq_true hpos
  have hle : w.toModel.unpack.le (1 : Float).toModel.unpack = true := of_decide_eq_true hle
  have hone : ∃ m e hm, (1 : Float).toModel.unpack = .finite .positive m e hm := ⟨_, _, _, rfl⟩
  obtain ⟨m, e, hm, hone⟩ := hone
  rw [hzero] at hlt
  rw [hone] at hle
  show w.toModel.unpack.isFinite = true
  cases hw : w.toModel.unpack with
  | zero sign => rfl
  | finite => rfl
  | notANumber =>
    rw [hw] at hlt
    cases hlt
  | infinity sign =>
    rw [hw] at hlt hle
    cases sign with
    | negative => cases hlt
    | positive => cases hle

/-- A description that a system is built from holds finite numbers only. -/
theorem SystemDescription.isFinite_of_build {d : SystemDescription Float} {g : FuzzySystem Float}
    (h : d.build = .ok g) : ∀ x ∈ d.numbers, x.isFinite = true := by
  obtain ⟨hreg, hr, -, -⟩ := build_eq_ok_iff.mp h
  have hr := RuleBaseStatement.resolve_eq_ok_iff.mp hr
  rw [numbers, List.forall_mem_append, List.forall_mem_map]
  constructor
  · intro x hx
    obtain ⟨v, hv, hx⟩ := List.mem_flatMap.mp hx
    rw [← hreg.members] at hv
    exact Variable.isFinite_of_validate (g.registry.validate_eq_ok v hv) x hx
  · intro statement hm
    obtain ⟨rule, -, hrule⟩ := exists_right_of_mem hr hm
    obtain ⟨-, -, ⟨hpos, hle⟩, -, -⟩ := RuleStatement.resolve_eq_ok_iff.mp hrule
    exact isFinite_of_pos_of_le_one hpos hle

end FuzzyInference
