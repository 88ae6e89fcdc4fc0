import FuzzyInference.Proofs.Defuzzify
import FuzzyInference.Proofs.FuzzySet.Degree
import FuzzyInference.Proofs.Mesh

/-!
# The maxima of memberships

In exact arithmetic the methods for maxima find the least, a median and the greatest of the points
of greatest membership. For the median it matters that the points ascend and that picking out some
of them keeps their order.
-/

namespace FuzzyInference

open Exact Scalar

/-! ### Medians -/

/-- The number in the middle of a finite set: an element, or the mean of two neighbours, with as
many elements below it as above. -/
structure IsMedian (s : Set ℝ) (m : ℝ) : Prop where
  /-- It is the mean of two elements that are equal or neighbours. -/
  middle : ∃ u ∈ s, ∃ v ∈ s, u ≤ v ∧ m = (u + v) / 2 ∧ ∀ x ∈ s, x ≤ u ∨ v ≤ x
  /-- There are as many elements below as above. -/
  balanced : {x ∈ s | x < m}.ncard = {x ∈ s | m < x}.ncard

/-- A median is between the least and the greatest element. -/
theorem IsMedian.between {s : Set ℝ} {least m greatest : ℝ} (h : IsMedian s m)
    (hleast : IsLeast s least) (hgreatest : IsGreatest s greatest) : least ≤ m ∧ m ≤ greatest := by
  obtain ⟨u, hu, v, hv, huv, rfl, -⟩ := h.middle
  have hlow := hleast.2 hu
  have hhigh := hgreatest.2 hv
  constructor <;> linarith

/-! ### Ascending points -/

section Ascending

variable {l : List ℝ} {i j : ℕ}

/-- Ascending points ascend as their indices do. -/
theorem getElem_lt_iff (hl : l.Pairwise (· < ·)) {hi : i < l.length} {hj : j < l.length} :
    l[i] < l[j] ↔ i < j := by
  have hmono := List.pairwise_iff_getElem.mp hl
  constructor
  · intro hlt
    by_contra hge
    obtain heq | hgt := (not_lt.mp hge).eq_or_lt
    · subst heq
      exact lt_irrefl _ hlt
    · exact (hmono j i hj hi hgt).not_gt hlt
  · exact hmono i j hi hj

/-- Ascending points do not ascend as their indices do not. -/
theorem getElem_le_iff (hl : l.Pairwise (· < ·)) {hi : i < l.length} {hj : j < l.length} :
    l[i] ≤ l[j] ↔ i ≤ j := by
  rw [← not_lt, getElem_lt_iff hl, not_lt]

/-- Ascending points are as many as there are elements among them. -/
theorem ncard_mem (hl : l.Pairwise (· < ·)) : {x | x ∈ l}.ncard = l.length := by
  have hnodup : l.Nodup := hl.imp fun h ↦ h.ne
  rw [← List.toFinset_card_of_nodup hnodup, ← Set.ncard_coe_finset, List.coe_toFinset]

/-- The points before an index that separates them from the others. -/
theorem ncard_lt {m : ℝ} (hl : l.Pairwise (· < ·)) (hj : j ≤ l.length)
    (hm : ∀ t (ht : t < l.length), l[t] < m ↔ t < j) : {x ∈ {x | x ∈ l} | x < m}.ncard = j := by
  have hset : {x ∈ {x | x ∈ l} | x < m} = {x | x ∈ l.take j} := by
    ext x
    rw [Set.mem_ofPred_eq, Set.mem_ofPred_eq, Set.mem_ofPred_eq, List.mem_take_iff_getElem]
    constructor
    · rintro ⟨hx, hlt⟩
      obtain ⟨t, ht, rfl⟩ := List.getElem_of_mem hx
      exact ⟨t, lt_min ((hm t ht).mp hlt) ht, rfl⟩
    · rintro ⟨t, ht, rfl⟩
      obtain ⟨htj, ht⟩ := lt_min_iff.mp ht
      exact ⟨List.getElem_mem ht, (hm t ht).mpr htj⟩
  rw [hset, ncard_mem (hl.sublist (List.take_sublist _ _)), List.length_take, min_eq_left hj]

/-- The points from an index on that separates them from the others. -/
theorem ncard_gt {m : ℝ} (hl : l.Pairwise (· < ·))
    (hm : ∀ t (ht : t < l.length), m < l[t] ↔ j ≤ t) :
    {x ∈ {x | x ∈ l} | m < x}.ncard = l.length - j := by
  have hset : {x ∈ {x | x ∈ l} | m < x} = {x | x ∈ l.drop j} := by
    ext x
    rw [Set.mem_ofPred_eq, Set.mem_ofPred_eq, Set.mem_ofPred_eq, List.mem_drop_iff_getElem]
    constructor
    · rintro ⟨hx, hlt⟩
      obtain ⟨t, ht, rfl⟩ := List.getElem_of_mem hx
      have hjt := (hm t ht).mp hlt
      refine ⟨t - j, by omega, ?_⟩
      congr 1
      omega
    · rintro ⟨t, ht, rfl⟩
      exact ⟨List.getElem_mem _, (hm (j + t) (by omega)).mpr (by omega)⟩
  rw [hset, ncard_mem (hl.sublist (List.drop_sublist _ _)), List.length_drop]

/-- The mean of two middle points, which are the same one or next to each other, is a median. -/
theorem isMedian_of_middle {u v : ℕ} (hl : l.Pairwise (· < ·)) (huv : u ≤ v) (hvu : v ≤ u + 1)
    (hlength : u + v + 1 = l.length) (hv : v < l.length) (hu : u < l.length) :
    IsMedian {x | x ∈ l} ((l[u] + l[v]) / 2) := by
  have hbelow : ∀ t (ht : t < l.length), l[t] < (l[u] + l[v]) / 2 ↔ t < v := by
    intro t ht
    constructor
    · intro hlt
      by_contra hge
      have hvt : l[v] ≤ l[t] := (getElem_le_iff hl).mpr (not_lt.mp hge)
      have hut : l[u] ≤ l[t] := (getElem_le_iff hl).mpr (by omega)
      linarith
    · intro htv
      have htu : l[t] ≤ l[u] := (getElem_le_iff hl).mpr (by omega)
      have htv : l[t] < l[v] := (getElem_lt_iff hl).mpr htv
      linarith
  have habove : ∀ t (ht : t < l.length), (l[u] + l[v]) / 2 < l[t] ↔ u + 1 ≤ t := by
    intro t ht
    constructor
    · intro hlt
      by_contra hge
      have htu : l[t] ≤ l[u] := (getElem_le_iff hl).mpr (by omega)
      have htv : l[t] ≤ l[v] := (getElem_le_iff hl).mpr (by omega)
      linarith
    · intro hut
      have hvt : l[v] ≤ l[t] := (getElem_le_iff hl).mpr (by omega)
      have hut : l[u] < l[t] := (getElem_lt_iff hl).mpr hut
      linarith
  constructor
  · refine ⟨l[u], List.getElem_mem _, l[v], List.getElem_mem _, (getElem_le_iff hl).mpr huv, rfl,
      fun x hx ↦ ?_⟩
    obtain ⟨t, ht, rfl⟩ := List.getElem_of_mem hx
    rw [getElem_le_iff hl, getElem_le_iff hl]
    omega
  · rw [ncard_lt hl (by omega) hbelow, ncard_gt hl habove]
    omega

/-- The median of ascending points is one of the set of them. -/
theorem median_ascending (hl : l.Pairwise (· < ·)) (hne : l ≠ []) :
    ∃ m, median (l.map number) = number m ∧ IsMedian {x | x ∈ l} m := by
  have hpos := List.length_pos_iff.mpr hne
  have hget {i : ℕ} (hi : i < l.length) : (l.map number).getD i Scalar.nan = number l[i] := by
    simp [List.getD_eq_getElem?_getD, hi]
  rw [median, List.length_map, if_neg hpos.ne']
  split_ifs with hodd
  · have hhalf : l.length / 2 < l.length := by omega
    have hmedian := isMedian_of_middle hl le_rfl (Nat.le_succ _) (by omega) hhalf hhalf
    rw [add_self_div_two] at hmedian
    exact ⟨_, hget hhalf, hmedian⟩
  · have hupper : l.length / 2 < l.length := by omega
    have hlower : l.length / 2 - 1 < l.length := by omega
    refine ⟨_, ?_, isMedian_of_middle hl (by omega) (by omega) (by omega) hupper hlower⟩
    rw [hget hlower, hget hupper, number_add, two_eq, number_div two_ne_zero]

end Ascending

/-! ### Methods for maxima -/

/-- The results of the methods for maxima are the least element of a set, a median and the greatest
element. -/
structure FindsPeaks (result : Defuzzification → Exact) (s : Set ℝ) : Prop where
  /-- There are elements. -/
  nonempty : s.Nonempty
  /-- The smallest of the maxima is the least element. -/
  smallest : ∃ least, result .smallestOfMaxima = number least ∧ IsLeast s least
  /-- The largest of the maxima is the greatest element. -/
  largest : ∃ greatest, result .largestOfMaxima = number greatest ∧ IsGreatest s greatest
  /-- The middle of the maxima is a median, and between the other two. -/
  middle : ∃ m, result .middleOfMaxima = number m ∧ IsMedian s m ∧
    result .smallestOfMaxima ≤ number m ∧ number m ≤ result .largestOfMaxima

namespace Defuzzification

variable {xs ms : List ℝ}

/-- The points of greatest membership. -/
def peaks (xs ms : List ℝ) : Set ℝ := {x | ∃ m, (x, m) ∈ xs.zip ms ∧ ∀ m' ∈ ms, m' ≤ m}

/-- The points of greatest membership are picked out in ascending order. -/
theorem exists_maxima_number (hxs : xs.Pairwise (· < ·)) (hlen : xs.length = ms.length)
    (hne : xs ≠ []) : ∃ l : List ℝ, maxima (xs.map number) (ms.map number) = l.map number ∧
      l ≠ [] ∧ l.Pairwise (· < ·) ∧ {x | x ∈ l} = peaks xs ms := by
  have hms : ms ≠ [] := List.ne_nil_of_length_pos (hlen ▸ List.length_pos_iff.mpr hne)
  obtain ⟨top, htop⟩ : ∃ top, ms.max? = some top :=
    Option.isSome_iff_exists.mp (List.isSome_max?_of_ne_nil hms)
  obtain ⟨hmem, hmax⟩ := List.max?_eq_some_iff.mp htop
  have hmaxima : maxima (xs.map number) (ms.map number) =
      (((xs.zip ms).filter fun p ↦ p.2 = top).map Prod.fst).map number := maxima_number htop
  refine ⟨_, hmaxima, ?_, ?_, ?_⟩
  · intro hnil
    rw [hnil] at hmaxima
    exact maxima_ne_nil hlen hne hmaxima
  · rw [← List.map_fst_zip hlen.le] at hxs
    exact List.Pairwise.sublist (List.filter_sublist.map Prod.fst) hxs
  · ext x
    simp only [Set.mem_ofPred_eq, List.mem_map, List.mem_filter, decide_eq_true_eq]
    constructor
    · rintro ⟨⟨x, m⟩, ⟨hzip, rfl⟩, rfl⟩
      exact ⟨m, hzip, hmax⟩
    · rintro ⟨m, hzip, hm⟩
      have hle := hmax m (List.of_mem_zip hzip).2
      exact ⟨(x, m), ⟨hzip, hle.antisymm (hm top hmem)⟩, rfl⟩

/-- On ascending points the methods for maxima find the peaks. -/
theorem findsPeaks (hxs : xs.Pairwise (· < ·)) (hlen : xs.length = ms.length) (hne : xs ≠ []) :
    FindsPeaks (fun method ↦ method.reduce (xs.map number) (ms.map number)) (peaks xs ms) := by
  obtain ⟨l, hmaxima, hlne, hl, hset⟩ := exists_maxima_number hxs hlen hne
  have hempty : (xs.map number).isEmpty = false := by simpa using hne
  obtain ⟨least, hleast⟩ := Option.isSome_iff_exists.mp (List.isSome_min?_of_ne_nil hlne)
  obtain ⟨greatest, hgreatest⟩ := Option.isSome_iff_exists.mp (List.isSome_max?_of_ne_nil hlne)
  have hsmallest : smallestOfMaxima.reduce (xs.map number) (ms.map number) = number least := by
    simp [reduce, hempty, hmaxima, minimum?_map_number, hleast]
  have hlargest : largestOfMaxima.reduce (xs.map number) (ms.map number) = number greatest := by
    simp [reduce, hempty, hmaxima, maximum?_map_number, hgreatest]
  have hisLeast : IsLeast {x | x ∈ l} least := List.min?_eq_some_iff.mp hleast
  have hisGreatest : IsGreatest {x | x ∈ l} greatest := List.max?_eq_some_iff.mp hgreatest
  obtain ⟨m, hm, hmedian⟩ := median_ascending hl hlne
  obtain ⟨hlow, hhigh⟩ := hmedian.between hisLeast hisGreatest
  rw [hset] at hisLeast hisGreatest hmedian
  refine ⟨hisLeast.nonempty, ⟨least, hsmallest, hisLeast⟩, ⟨greatest, hlargest, hisGreatest⟩,
    m, ?_, hmedian, ?_, ?_⟩
  · show middleOfMaxima.reduce (xs.map number) (ms.map number) = number m
    rw [reduce, hempty, ← hm, ← hmaxima]
    rfl
  · rw [hsmallest]
    exact hlow
  · rw [hlargest]
    exact hhigh

end Defuzzification

namespace NumericDomain

/-- The points of a mesh at which the degree in a set is greatest. -/
def peaks (d : NumericDomain Exact) (set : FuzzySet Exact) (ctx : Context) : Set ℝ :=
  {x | number x ∈ d.mesh ∧
    ∀ y ∈ d.mesh, set.degree ctx (.number y) ≤ set.degree ctx (.number (number x))}

/-- On a mesh that is not empty the methods for maxima find the peaks of a sound set. -/
theorem findsPeaks_of_wellFormed {d : NumericDomain Exact} {set : FuzzySet Exact} {ctx : Context}
    (hd : (Domain.numeric d).WellFormed) (hmesh : d.mesh ≠ []) (hset : set.WellFormed) :
    FindsPeaks (fun method ↦ d.defuzzify set method ctx) (d.peaks set ctx) := by
  obtain ⟨low, high, xs, hsampled⟩ := exists_sampledAt hd
  obtain ⟨f, hf⟩ := hset.exists_function ctx
  have hpeaks : d.peaks set ctx = Defuzzification.peaks xs (xs.map f) := by
    ext x
    have hpeak : (∀ y ∈ d.mesh, set.degree ctx (.number y) ≤ set.degree ctx (.number (number x))) ↔
        ∀ m ∈ xs.map f, m ≤ f x := by
      simp [hsampled.mesh_eq, hf]
    rw [peaks, Defuzzification.peaks, Set.mem_ofPred_eq, Set.mem_ofPred_eq, hpeak, hsampled.mesh_eq,
      ← List.map_prod_left_eq_zip]
    simp
  simp only [defuzzify, hsampled.degrees_eq hf, hsampled.mesh_eq, hpeaks]
  apply Defuzzification.findsPeaks (pairwise_lt_of_mesh hd hsampled.mesh_eq) (by simp)
  rintro rfl
  exact hmesh hsampled.mesh_eq

end NumericDomain

/-! ### Main result -/

open Defuzzification

/-- The smallest, the middle and the largest of the maxima are the least, a median and the greatest
of the points of greatest degree: of the points of a mesh that is not empty, for any valid set and
any context, and of any ascending points with as many memberships, whatever their signs are. -/
theorem maxima_find_peaks :
    (∀ (d : NumericDomain Exact) (set : FuzzySet Exact) (ctx : Context), d.validate = .ok () →
      d.mesh ≠ [] → set.validate = .ok () →
        FindsPeaks (fun method ↦ d.defuzzify set method ctx) (d.peaks set ctx)) ∧
    ∀ xs ms : List ℝ, xs.Pairwise (· < ·) → xs.length = ms.length → xs ≠ [] →
      FindsPeaks (fun method ↦ method.reduce (xs.map number) (ms.map number)) (peaks xs ms) :=
  ⟨fun _ _ _ hd hmesh hset ↦
    NumericDomain.findsPeaks_of_wellFormed (NumericDomain.validate_eq_ok_iff.mp hd) hmesh
      (FuzzySet.validate_eq_ok_iff.mp hset),
    fun _ _ hxs hlen hne ↦ findsPeaks hxs hlen hne⟩

/-- Three points of an interval at which a negative constant is greatest, and four points with two
separate maxima that are negative. -/
theorem maxima_find_peaks_negative :
    FindsPeaks (fun method ↦ (⟨"", 0, 2, .count 3⟩ : NumericDomain Exact).defuzzify
        (.constant (-1)) method {})
      ((⟨"", 0, 2, .count 3⟩ : NumericDomain Exact).peaks (.constant (-1)) {}) ∧
    smallestOfMaxima.reduce ([0, 1, 2, 3].map number) ([-1, -2, -1, -2].map number) = number 0 ∧
    largestOfMaxima.reduce ([0, 1, 2, 3].map number) ([-1, -2, -1, -2].map number) = number 2 := by
  obtain ⟨hdomain, hdirect⟩ := maxima_find_peaks
  have hpeaks : peaks [0, 1, 2, 3] [-1, -2, -1, -2] = {0, 2} := by
    ext x
    constructor
    · rintro ⟨m, hzip, hm⟩
      have hge : -1 ≤ m := hm (-1) (by simp)
      have hcases : x = 0 ∧ m = -1 ∨ x = 1 ∧ m = -2 ∨ x = 2 ∧ m = -1 ∨ x = 3 ∧ m = -2 := by
        simpa using hzip
      obtain ⟨rfl, -⟩ | ⟨-, rfl⟩ | ⟨rfl, -⟩ | ⟨-, rfl⟩ := hcases
      · exact .inl rfl
      · norm_num at hge
      · exact .inr rfl
      · norm_num at hge
    · rintro (rfl | rfl)
      · exact ⟨-1, by simp, by norm_num⟩
      · exact ⟨-1, by simp, by norm_num⟩
  obtain ⟨-, ⟨least, hsmallest, hleast⟩, ⟨greatest, hlargest, hgreatest⟩, -⟩ :=
    hdirect [0, 1, 2, 3] [-1, -2, -1, -2] (by norm_num) rfl (List.cons_ne_nil _ _)
  rw [hpeaks] at hleast hgreatest
  have hzero : least = 0 := by simpa using hleast.unique isLeast_pair
  have htwo : greatest = 2 := by simpa using hgreatest.unique isGreatest_pair
  refine ⟨hdomain _ _ _ ?_ ?_ ?_, hzero ▸ hsmallest, htwo ▸ hlargest⟩
  · rw [NumericDomain.validate_eq_ok_iff]
    simp [Domain.WellFormed, isFinite_iff]
  · simp [NumericDomain.mesh, Mesh.points, Mesh.counted_eq_map]
  · rw [FuzzySet.validate_eq_ok_iff]
    simp [FuzzySet.wellFormed_iff, FuzzySet.nodes, FuzzySet.numbers, isFinite_iff]

end FuzzyInference
