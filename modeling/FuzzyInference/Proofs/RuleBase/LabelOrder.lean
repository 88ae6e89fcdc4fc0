import FuzzyInference.Proofs.Defuzzify
import FuzzyInference.Proofs.FuzzySet.Degree
import FuzzyInference.Proofs.Mesh
import FuzzyInference.RuleBase.Pairing

/-!
# The order of labels

In exact arithmetic the centroid of a sound set is a number, unless the degrees on the mesh add up
to zero. The labels of a variable are put into the one order in which centroids ascend, what has no
centroid comes last, and what has the same one stays in the order in which it was given.
-/

namespace FuzzyInference

open Exact Result Scalar

/-! ### Centroids -/

/-- A set has a centroid, which is a number unless the degrees on the mesh add up to zero. -/
def Domain.HasNumericCentroid (d : Domain Exact) (set : FuzzySet Exact) : Prop :=
  ∃ c, d.centroid set = .ok (.number c) ∧ ((∃ x, c = number x) ∨ c = nan) ∧
    (c = nan ↔ Scalar.sum (d.degrees set {}) = 0)

/-- Sound sets have centroids on sound intervals. -/
theorem Domain.hasNumericCentroid {d : NumericDomain Exact} {set : FuzzySet Exact}
    (hd : (Domain.numeric d).WellFormed) (hs : set.WellFormed) :
    (Domain.numeric d).HasNumericCentroid set := by
  obtain ⟨low, high, xs, hsampled⟩ := NumericDomain.exists_sampledAt hd
  obtain ⟨f, hf⟩ := hs.exists_function {}
  obtain ⟨ms, hlength, hms⟩ : ∃ ms : List ℝ, xs.length = ms.length ∧
      d.degrees set {} = ms.map number :=
    ⟨xs.map f, (List.length_map f).symm, hsampled.degrees_eq hf⟩
  have htotal : Scalar.sum ((Domain.numeric d).degrees set {}) = number ms.sum := by
    have hdegrees : (Domain.numeric d).degrees set {} = d.degrees set {} := by
      rw [Domain.degrees, Domain.mesh, FuzzySet.sample, List.map_map]
      rfl
    rw [hdegrees, hms, sum_map_number]
  have hcentroid : d.defuzzify set .centroid {} =
      if ms.sum = 0 then nan else number (Defuzzification.weighted xs ms / ms.sum) := by
    rw [NumericDomain.defuzzify, hms, hsampled.mesh_eq, Defuzzification.reduce]
    cases xs with
    | nil =>
      obtain rfl : ms = [] := List.length_eq_zero_iff.mp hlength.symm
      simp
      rfl
    | cons x xs => exact Defuzzification.centroidOf_number hlength
  refine ⟨_, rfl, ?_⟩
  rw [hcentroid, htotal, zero_eq, number.injEq]
  split_ifs with hzero
  · exact ⟨.inr rfl, by simp [hzero]⟩
  · exact ⟨.inl ⟨_, rfl⟩, by simp [hzero]⟩

/-! ### The order of centroids -/

namespace Exact

/-- What is smaller comes before what is larger, and what is no number comes last. -/
def Before (a b : Exact) : Prop := a < b ∨ a ≠ nan ∧ b = nan

/-- Nothing comes before what comes before it. -/
theorem Before.asymm {a b : Exact} (h : Before a b) : ¬ Before b a := by
  rintro (hba | ⟨hb, rfl⟩)
  · rcases h with hab | ⟨-, rfl⟩
    · cases a with
      | number x =>
        cases b with
        | number y => exact lt_asymm (number_lt.mp hab) (number_lt.mp hba)
        | infinite t =>
          cases hab
          cases hba
        | nan => cases hab
      | infinite s =>
        cases b with
        | number y =>
          cases hab
          cases hba
        | infinite t =>
          obtain ⟨rfl, rfl⟩ := hab
          cases hba.1
        | nan => cases hab
      | nan => cases hab
    · cases hba
  · rcases h with hab | ⟨ha, -⟩
    · cases b <;> cases hab
    · exact ha rfl

/-- Of two scalars one is placed not behind the other. -/
theorem totalLE_total (a b : Exact) : (totalLE a b || totalLE b a) = true := by
  simp only [totalLE, Bool.or_eq_true, decide_eq_true_eq]
  cases a with
  | number x =>
    cases b with
    | number y => exact (le_total x y).imp .inr .inr
    | infinite t => cases t <;> simp [le]
    | nan => simp
  | infinite s =>
    cases b with
    | number y => cases s <;> simp [le]
    | infinite t => cases s <;> cases t <;> simp [le]
    | nan => simp
  | nan => simp

/-- What is placed not behind a second scalar is placed not behind a third one, if the second is. -/
theorem totalLE_trans (a b c : Exact) (hab : totalLE a b = true) (hbc : totalLE b c = true) :
    totalLE a c = true := by
  simp only [totalLE, decide_eq_true_eq] at *
  rcases hbc with rfl | hbc
  · exact .inl rfl
  · right
    cases a <;> cases b <;> cases c <;> simp_all [le]
    · exact hab.trans hbc
    · next r s t => cases s <;> simp_all

/-- What is placed not behind a scalar comes before it or is the same. -/
theorem before_or_eq_of_totalLE {a b : Exact} (h : totalLE a b = true) : Before a b ∨ a = b := by
  simp only [totalLE, decide_eq_true_eq] at h
  rcases h with rfl | h
  · by_cases ha : a = nan
    · exact .inr ha
    · exact .inl (.inr ⟨ha, rfl⟩)
  · cases a with
    | number x =>
      cases b with
      | number y => exact (lt_or_eq_of_le h).imp .inl (congrArg number)
      | infinite t => exact .inl (.inl h)
      | nan => cases h
    | infinite s =>
      cases b with
      | number y => exact .inl (.inl h)
      | infinite t =>
        cases s with
        | false =>
          cases h.resolve_left Bool.false_ne_true
          exact .inr rfl
        | true =>
          cases t with
          | false => exact .inl (.inl ⟨rfl, rfl⟩)
          | true => exact .inr rfl
      | nan => cases h
    | nan => cases h

/-- A scalar is placed not behind itself. -/
theorem totalLE_self (a : Exact) : totalLE a a = true := by
  simpa using totalLE_total a a

end Exact

/-! ### The order of labels -/

section Pairs

variable {β : Type} {xs : List β} {x y : β}

private theorem pair_sublist_or (hx : x ∈ xs) (hy : y ∈ xs) (hne : x ≠ y) :
    [x, y].Sublist xs ∨ [y, x].Sublist xs := by
  induction xs with
  | nil => cases hx
  | cons z xs ih =>
    rcases List.mem_cons.mp hx with rfl | hxs
    · have hys : y ∈ xs := (List.mem_cons.mp hy).resolve_left hne.symm
      exact .inl ((List.singleton_sublist.mpr hys).cons_cons x)
    · rcases List.mem_cons.mp hy with rfl | hys
      · exact .inr ((List.singleton_sublist.mpr hxs).cons_cons y)
      · exact (ih hxs hys).imp (·.cons z) (·.cons z)

private theorem eq_of_pair_sublist (hn : xs.Nodup) (hxy : [x, y].Sublist xs)
    (hyx : [y, x].Sublist xs) : x = y := by
  have hsame := (hn.perm_iff_eq_of_sublist hxy hyx).mp (List.Perm.swap y x [])
  exact (List.cons.inj hsame).1

end Pairs

namespace Variable

variable {v : Variable Exact}

/-- A label stands for a set with a centroid. -/
def HasCentroid (v : Variable Exact) (label : String) (c : Exact) : Prop :=
  ∃ set, (label, set) ∈ v.labels.entries ∧ v.domain.centroid set = .ok (.number c)

/-- A label goes before another one: its centroid does, or it has the same centroid and was given
first. -/
def Precedes (v : Variable Exact) (label other : String) : Prop :=
  ∃ c e, v.HasCentroid label c ∧ v.HasCentroid other e ∧
    (Before c e ∨ c = e ∧ [label, other].Sublist v.labels.names)

/-- The labels of a variable, by their centroids. -/
structure ByCentroid (v : Variable Exact) (labels : List String) : Prop where
  /-- They are the labels of the variable. -/
  perm : labels.Perm v.labels.names
  /-- Each goes before all that are behind it. -/
  pairwise : labels.Pairwise v.Precedes

private theorem HasCentroid.unique {label : String} {c e : Exact} (hc : v.HasCentroid label c)
    (he : v.HasCentroid label e) : c = e := by
  obtain ⟨s, hs, hc⟩ := hc
  obtain ⟨t, ht, he⟩ := he
  have hst : (label, s) = (label, t) := List.inj_on_of_nodup_map v.labels.nodup hs ht rfl
  cases hst
  rw [hc] at he
  cases he
  rfl

private theorem Precedes.eq_of_precedes {label other : String} (h : v.Precedes label other)
    (h' : v.Precedes other label) : label = other := by
  obtain ⟨c, e, hc, he, h⟩ := h
  obtain ⟨e', c', he', hc', h'⟩ := h'
  obtain rfl := hc.unique hc'
  obtain rfl := he.unique he'
  rcases h with h | ⟨rfl, h⟩
  · rcases h' with h' | ⟨rfl, -⟩
    · exact absurd h' h.asymm
    · exact absurd h h.asymm
  · rcases h' with h' | ⟨-, h'⟩
    · exact absurd h' h'.asymm
    · exact eq_of_pair_sublist v.labels.nodup h h'

/-- There is one order of labels by their centroids at most. -/
theorem ByCentroid.unique {labels others : List String} (h : v.ByCentroid labels)
    (h' : v.ByCentroid others) : labels = others :=
  (h.perm.trans h'.perm.symm).eq_of_pairwise
    (fun _ _ _ _ hab hba ↦ hab.eq_of_precedes hba) h.pairwise h'.pairwise

/-- No label occurs twice. -/
theorem ByCentroid.nodup {labels : List String} (h : v.ByCentroid labels) : labels.Nodup :=
  h.perm.nodup_iff.mpr v.labels.nodup

/-- There are as many labels as the variable has. -/
theorem ByCentroid.length_eq {labels : List String} (h : v.ByCentroid labels) :
    labels.length = v.labels.size := by
  rw [h.perm.length_eq, Table.names, List.length_map, Table.size]

/-- The labels of a variable on an interval are put into the order of their centroids. -/
theorem exists_orderedLabels {d : NumericDomain Exact} (hd : v.domain = .numeric d) :
    ∃ labels, v.orderedLabels = .ok labels ∧ v.ByCentroid labels := by
  obtain ⟨centroids, hcentroids⟩ : ∃ centroids, centroids =
      v.labels.entries.map fun entry ↦ (entry.1, d.defuzzify entry.2 .centroid {}) := ⟨_, rfl⟩
  have hnames : centroids.map Prod.fst = v.labels.names := by
    rw [hcentroids, List.map_map]
    rfl
  have hnodup : centroids.Nodup := .of_map Prod.fst (hnames ▸ v.labels.nodup)
  have hcentroid : ∀ p ∈ centroids, v.HasCentroid p.1 p.2 := by
    intro p hp
    rw [hcentroids] at hp
    obtain ⟨entry, hentry, rfl⟩ := List.mem_map.mp hp
    exact ⟨entry.2, hentry, by rw [hd]; rfl⟩
  let le (p q : String × Exact) : Bool := totalLE p.2 q.2
  have htrans : ∀ p q r, le p q = true → le q r = true → le p r = true :=
    fun p q r ↦ totalLE_trans p.2 q.2 r.2
  have htotal : ∀ p q, (le p q || le q p) = true := fun p q ↦ totalLE_total p.2 q.2
  have hperm := centroids.mergeSort_perm le
  refine ⟨(centroids.mergeSort le).map Prod.fst, ?_, hnames ▸ hperm.map Prod.fst, ?_⟩
  · have hmap : (v.labels.entries.mapM fun (label, set) => do
        let c ← v.labelCentroid set
        return (label, c)) = .ok centroids := by
      rw [mapM_eq_ok_iff, hcentroids, List.forall₂_map_right_iff, List.forall₂_same]
      intro entry _
      simp only [labelCentroid, hd]
      rfl
    rw [orderedLabels, hmap]
    rfl
  · rw [List.pairwise_map, List.pairwise_iff_forall_sublist]
    intro p q hpq
    have hp := hperm.mem_iff.mp (hpq.subset List.mem_cons_self)
    have hq := hperm.mem_iff.mp (hpq.subset (List.mem_cons_of_mem _ List.mem_cons_self))
    refine ⟨p.2, q.2, hcentroid p hp, hcentroid q hq, ?_⟩
    have hle : le p q = true :=
      List.pairwise_iff_forall_sublist.mp (List.pairwise_mergeSort htrans htotal centroids) hpq
    refine (before_or_eq_of_totalLE hle).imp_right fun heq ↦ ⟨heq, ?_⟩
    -- Were they given in the other order, they would have been left in it.
    have hne : p ≠ q := by
      rintro rfl
      exact (List.duplicate_iff_sublist.mpr hpq).not_nodup (hperm.nodup_iff.mpr hnodup)
    rcases pair_sublist_or hp hq hne with hgiven | hgiven
    · rw [← hnames]
      exact hgiven.map Prod.fst
    · have hle' : le q p = true := by
        show totalLE q.2 p.2 = true
        rw [heq]
        exact totalLE_self _
      have hsorted := List.pair_sublist_mergeSort htrans htotal hle' hgiven
      exact absurd (eq_of_pair_sublist (hperm.nodup_iff.mpr hnodup) hpq hsorted) hne

end Variable

end FuzzyInference
