import FuzzyInference.Proofs.FuzzySet.Degree

/-!
# Contexts that sets are sampled in

A set depends on the context in which it is sampled only through the unions and intersections that
name no operator: contexts that agree on what these leave open give the same degrees.
-/

namespace FuzzyInference.FuzzySet

variable {α : Type} {ctx ctx' : Context} {s t : FuzzySet α}

/-- Two contexts have the operators in common that a set leaves open. -/
structure AgreeOn (ctx ctx' : Context) (s : FuzzySet α) : Prop where
  /-- They disjoin alike if there is a union without an operator. -/
  disjunction : ∀ sets, or none sets ∈ s.nodes → ctx.disjunction = ctx'.disjunction
  /-- They conjoin alike if there is an intersection without an operator. -/
  conjunction : ∀ sets, and none sets ∈ s.nodes → ctx.conjunction = ctx'.conjunction

/-- What a set leaves open, a set in which it stands leaves open. -/
theorem AgreeOn.mono (h : s.AgreeOn ctx ctx') (ht : t.nodes ⊆ s.nodes) : t.AgreeOn ctx ctx' where
  disjunction sets hsets := h.disjunction sets (ht hsets)
  conjunction sets hsets := h.conjunction sets (ht hsets)

variable [Scalar α] {x : Point α}

mutual

/-- Contexts that agree on a set give the same degrees in it. -/
theorem AgreeOn.degree_eq : {s : FuzzySet α} → s.AgreeOn ctx ctx' →
    s.degree ctx x = s.degree ctx' x
  | singleton _, _ | discrete _, _ | constant _, _ | shape _, _ => by
    simp only [degree]
  | not s, h => by
    have hs : s.AgreeOn ctx ctx' := h.mono (by simp [nodes])
    rw [degree, degree, hs.degree_eq]
  | scale s factor, h => by
    have hs : s.AgreeOn ctx ctx' := h.mono (by simp [nodes])
    rw [degree, degree, hs.degree_eq]
  | implication op truth s, h => by
    have hs : s.AgreeOn ctx ctx' := h.mono (by simp [nodes])
    rw [degree, degree, hs.degree_eq]
  | or op? sets, h => by
    have hsets : ∀ s ∈ sets, s.AgreeOn ctx ctx' := fun s hs ↦
      h.mono fun t ht ↦ by simpa [nodes] using .inr (mem_nodesAll_iff.mpr ⟨s, hs, ht⟩)
    have hop : op?.getD ctx.disjunction = op?.getD ctx'.disjunction := by
      cases op? with
      | some op => rfl
      | none => exact h.disjunction sets (by simp [nodes])
    rw [degree, degree, hop, degrees_eq_of_agreeOn hsets]
  | and op? sets, h => by
    have hsets : ∀ s ∈ sets, s.AgreeOn ctx ctx' := fun s hs ↦
      h.mono fun t ht ↦ by simpa [nodes] using .inr (mem_nodesAll_iff.mpr ⟨s, hs, ht⟩)
    have hop : op?.getD ctx.conjunction = op?.getD ctx'.conjunction := by
      cases op? with
      | some op => rfl
      | none => exact h.conjunction sets (by simp [nodes])
    rw [degree, degree, hop, degrees_eq_of_agreeOn hsets]

/-- Contexts that agree on several sets give the same degrees in them. -/
theorem degrees_eq_of_agreeOn : {sets : List (FuzzySet α)} →
    (∀ s ∈ sets, s.AgreeOn ctx ctx') → degrees ctx x sets = degrees ctx' x sets
  | [], _ => rfl
  | s :: sets, h => by
    rw [List.forall_mem_cons] at h
    rw [degrees, degrees, h.1.degree_eq, degrees_eq_of_agreeOn h.2]

end

end FuzzyInference.FuzzySet
