import FuzzyInference.Proofs.FuzzySet.Shape

/-!
# Degrees in sets

What all leaves, factors and degrees in a tree of sets have and no operator loses, the degree of a
point in the tree has. In exact arithmetic, a sound set whose listed numbers are degrees therefore
gives every number and every label a degree, any sound set gives them a finite one, and no sound set
gives anything an infinite one.
-/

namespace FuzzyInference

open Scalar

variable {α : Type} [Scalar α]

/-- A point is a number proper or a label. -/
def Point.IsFinite (x : Point α) : Prop := ∀ y, x = .number y → isFinite y = true

namespace FuzzySet

/-! ### Trees -/

/-- What the degree of a point in a set is composed of has a property. -/
structure ComposedOf (P : α → Prop) (ctx : Context) (x : Point α) (s : FuzzySet α) : Prop where
  /-- The degrees in the leaves have it. -/
  leaves : ∀ t ∈ s.nodes, t.isLeaf = true → P (t.degree ctx x)
  /-- The factors have it. -/
  factors : ∀ t factor, scale t factor ∈ s.nodes → P factor
  /-- The degrees to which sets are concluded have it. -/
  truths : ∀ op truth t, implication op truth t ∈ s.nodes → P truth

variable {P : α → Prop} {ctx : Context} {x : Point α}

/-- What a set is composed of, a set that stands in it is composed of. -/
theorem ComposedOf.mono {s t : FuzzySet α} (h : s.ComposedOf P ctx x) (ht : t.nodes ⊆ s.nodes) :
    t.ComposedOf P ctx x where
  leaves u hu := h.leaves u (ht hu)
  factors u k hu := h.factors u k (ht hu)
  truths op d u hu := h.truths op d u (ht hu)

mutual

/-- What the degree of a point is composed of has a property that no operator loses, and so does
the degree. -/
theorem degree_kept (hP : Kept P) :
    {s : FuzzySet α} → s.ComposedOf P ctx x → P (s.degree ctx x)
  | singleton _, h => h.leaves _ (by simp [nodes]) rfl
  | discrete _, h => h.leaves _ (by simp [nodes]) rfl
  | constant _, h => h.leaves _ (by simp [nodes]) rfl
  | shape _, h => h.leaves _ (by simp [nodes]) rfl
  | not s, h => by
    have hs : s.ComposedOf P ctx x := h.mono (by simp [nodes])
    exact hP.complement (degree_kept hP hs)
  | scale s factor, h => by
    have hs : s.ComposedOf P ctx x := h.mono (by simp [nodes])
    exact hP.scale (h.factors s factor (by simp [nodes])) (degree_kept hP hs)
  | implication op truth s, h => by
    have hs : s.ComposedOf P ctx x := h.mono (by simp [nodes])
    exact hP.implication op (h.truths op truth s (by simp [nodes])) (degree_kept hP hs)
  | or _ sets, h => by
    have hsets : ∀ s ∈ sets, s.ComposedOf P ctx x := fun s hs ↦
      h.mono fun t ht ↦ by simpa [nodes] using .inr (mem_nodesAll_iff.mpr ⟨s, hs, ht⟩)
    exact hP.disjunction _ (degrees_kept hP hsets)
  | and _ sets, h => by
    have hsets : ∀ s ∈ sets, s.ComposedOf P ctx x := fun s hs ↦
      h.mono fun t ht ↦ by simpa [nodes] using .inr (mem_nodesAll_iff.mpr ⟨s, hs, ht⟩)
    exact hP.conjunction _ (degrees_kept hP hsets)

/-- The degrees of a point in several sets have the property that all they are composed of has. -/
theorem degrees_kept (hP : Kept P) : {sets : List (FuzzySet α)} →
    (∀ s ∈ sets, s.ComposedOf P ctx x) → ∀ d ∈ degrees ctx x sets, P d
  | [], _ => nofun
  | s :: sets, h => by
    rw [List.forall_mem_cons] at h
    rw [degrees, List.forall_mem_cons]
    exact ⟨degree_kept hP h.1, degrees_kept hP h.2⟩

end

/-- The degrees of a point in several sets are those in each of them. -/
theorem degrees_eq_map (sets : List (FuzzySet α)) :
    degrees ctx x sets = sets.map (degree ctx x) := by
  induction sets with
  | nil => rfl
  | cons s sets ih => rw [degrees, ih, List.map_cons]

/-- The degree that a table gives is one of its own, or zero. -/
theorem listedDegree_kept {table : Table α} (h0 : P 0) (h : ∀ d ∈ table.values, P d) :
    P (listedDegree x table) := by
  unfold listedDegree
  cases hfind : table.entries.find? fun entry ↦ x.matchesKey entry.1 with
  | none => exact h0
  | some entry => exact h entry.2 (List.mem_map_of_mem (List.mem_of_find?_eq_some hfind))

/-! ### Degrees -/

/-- A set in which everything that is listed is a degree. -/
@[mk_iff]
structure Graded (s : FuzzySet α) : Prop where
  /-- The constants are degrees. -/
  constants : ∀ d, constant d ∈ s.nodes → IsDegree d
  /-- The tables list degrees. -/
  tables : ∀ table, discrete table ∈ s.nodes → ∀ d ∈ table.values, IsDegree d
  /-- The polygons list degrees. -/
  polygons : ∀ points, shape (.piecewise points) ∈ s.nodes → ∀ p ∈ points, IsDegree p.2
  /-- The factors are degrees. -/
  factors : ∀ t factor, scale t factor ∈ s.nodes → IsDegree factor
  /-- Sets are concluded to degrees. -/
  truths : ∀ op truth t, implication op truth t ∈ s.nodes → IsDegree truth

/-- A sound set whose listed numbers are degrees gives numbers and labels degrees. -/
theorem Graded.isDegree_degree {s : FuzzySet Exact} {x : Point Exact} (hg : s.Graded)
    (hw : s.WellFormed) (hx : x.IsFinite) : IsDegree (s.degree ctx x) := by
  apply degree_kept Exact.kept_isDegree
  refine ⟨?_, hg.factors, hg.truths⟩
  intro t ht hleaf
  cases t with
  | singleton x₀ =>
    rw [degree]
    split_ifs
    · exact Exact.isDegree_one
    · exact Exact.isDegree_zero
  | discrete table => exact listedDegree_kept Exact.isDegree_zero (hg.tables table ht)
  | constant d => exact hg.constants d ht
  | shape curve =>
    cases x with
    | number y =>
      obtain ⟨y, rfl⟩ := Exact.isFinite_iff.mp (hx y rfl)
      apply Shape.isDegree_degree (hw.curves curve ht)
      rintro points rfl
      exact hg.polygons points ht
    | label => exact Exact.isDegree_zero
  | _ => cases hleaf

/-! ### Infinities -/

/-- No sound set gives anything an infinite degree. -/
theorem WellFormed.notInfinite_degree {s : FuzzySet Exact} {x : Point Exact} (hw : s.WellFormed) :
    Exact.NotInfinite (s.degree ctx x) := by
  have hnumber : ∀ t ∈ s.nodes, ∀ y ∈ t.numbers, Exact.NotInfinite y := by
    intro t ht y hy
    obtain ⟨y, rfl⟩ := Exact.isFinite_iff.mp (hw.finite y (numbers_subset_of_mem_nodes ht hy))
    exact Exact.notInfinite_number y
  apply degree_kept Exact.kept_notInfinite
  constructor
  · intro t ht hleaf
    cases t with
    | singleton x₀ =>
      rw [degree]
      split_ifs
      · exact Exact.notInfinite_number _
      · exact Exact.notInfinite_number _
    | discrete table => exact listedDegree_kept (Exact.notInfinite_number _) (hnumber _ ht)
    | constant d => exact hnumber _ ht d (by simp [numbers])
    | shape curve =>
      cases x with
      | number y => exact Shape.notInfinite_degree (hw.curves curve ht) y
      | label => exact Exact.notInfinite_number _
    | _ => cases hleaf
  · intro t factor ht
    exact hnumber _ ht factor (by simp [numbers])
  · intro op truth t ht
    exact hnumber _ ht truth (by simp [numbers])

/-! ### Finite degrees -/

/-- A number or a label has a finite degree in a sound set. -/
theorem WellFormed.isFinite_degree {s : FuzzySet Exact} {x : Point Exact} (hw : s.WellFormed)
    (hx : x.IsFinite) : isFinite (s.degree ctx x) = true := by
  have hnumber : ∀ t ∈ s.nodes, ∀ y ∈ t.numbers, isFinite y = true :=
    fun t ht y hy ↦ hw.finite y (numbers_subset_of_mem_nodes ht hy)
  apply degree_kept Exact.kept_isFinite
  constructor
  · intro t ht hleaf
    cases t with
    | singleton x₀ =>
      rw [degree]
      split_ifs <;> rfl
    | discrete table =>
      exact listedDegree_kept (P := fun a ↦ isFinite a = true) rfl (hnumber _ ht)
    | constant d => exact hnumber _ ht d (by simp [numbers])
    | shape curve =>
      cases x with
      | number y =>
        obtain ⟨y, rfl⟩ := Exact.isFinite_iff.mp (hx y rfl)
        exact Shape.isFinite_degree (hw.curves curve ht) y
      | label => rfl
    | _ => cases hleaf
  · exact fun t factor ht ↦ hnumber _ ht factor (by simp [numbers])
  · exact fun op truth t ht ↦ hnumber _ ht truth (by simp [numbers])

/-- The degrees of numbers in a sound set are the values of a function on the real numbers. -/
theorem WellFormed.exists_function {s : FuzzySet Exact} (hw : s.WellFormed) (ctx : Context) :
    ∃ f : ℝ → ℝ, ∀ x, s.degree ctx (.number (.number x)) = .number (f x) := by
  have hnumber (x : ℝ) : ∃ y, s.degree ctx (.number (.number x)) = .number y := by
    apply Exact.isFinite_iff.mp
    apply hw.isFinite_degree
    rintro y ⟨⟩
    rfl
  choose f hf using hnumber
  exact ⟨f, hf⟩

end FuzzySet

end FuzzyInference
