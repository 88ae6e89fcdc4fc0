import FuzzyInference.Domain
import FuzzyInference.Proofs.Scalar.Order

/-!
# The first of greatest degree

What a set on labels is reduced to: the first label of greatest degree, whatever the signs of the
degrees are and however often labels are listed. Running through the labels keeps, at every label,
the first of greatest degree among those that were passed.
-/

namespace FuzzyInference

open Scalar

namespace CategoricalDomain

variable {α : Type} [Scalar α] {degree : String → α} {labels passed more : List String}
  {best other label : String}

/-- Among labels, one is the first of greatest degree. -/
structure IsFirstMaximum (degree : String → α) (labels : List String) (best : String) : Prop where
  /-- No label has a greater degree. -/
  greatest : ∀ label ∈ labels, degree label ≤ degree best
  /-- It is among the labels, and those before its first occurrence have smaller degrees. -/
  first : ∃ before after, labels = before ++ best :: after ∧ best ∉ before ∧
    ∀ label ∈ before, degree label < degree best

/-- The first of greatest degree is one of the labels. -/
theorem IsFirstMaximum.mem (h : IsFirstMaximum degree labels best) : best ∈ labels := by
  obtain ⟨before, after, rfl, -⟩ := h.first
  exact List.mem_append_right before List.mem_cons_self

/-! ### Running through labels -/

/-- Labels behind others are run through after them. -/
theorem firstBest_append (best : String) (labels more : List String) :
    firstBest degree (best, degree best) (labels ++ more) =
      let found := firstBest degree (best, degree best) labels
      firstBest degree (found, degree found) more := by
  induction labels generalizing best with
  | nil => rfl
  | cons label labels ih =>
    simp only [List.cons_append, firstBest]
    split
    · exact ih label
    · exact ih best

/-- Labels of no greater degree do not replace the best one. -/
theorem firstBest_of_not_lt (h : ∀ label ∈ more, ¬ degree best < degree label) :
    firstBest degree (best, degree best) more = best := by
  induction more with
  | nil => rfl
  | cons label more ih =>
    rw [List.forall_mem_cons] at h
    rw [firstBest, if_neg h.1, ih h.2]

section Ordered

variable [OrderedNumbers α]

/-- One more label is the first of greatest degree if its degree is greater, and else the one before
remains it. -/
theorem IsFirstMaximum.concat (h : IsFirstMaximum degree passed best)
    (hnumbers : ∀ l ∈ passed ++ [label], isNan (degree l) = false) :
    IsFirstMaximum degree (passed ++ [label])
      (if degree best < degree label then label else best) := by
  rw [List.forall_mem_append, List.forall_mem_singleton] at hnumbers
  obtain ⟨hpassed, hlabel⟩ := hnumbers
  have hbest := hpassed best h.mem
  split
  · next hlt =>
    have hbelow : ∀ l ∈ passed, degree l < degree label := fun l hl ↦
      OrderedNumbers.lt_of_le_of_lt (hpassed l hl) hbest hlabel (h.greatest l hl) hlt
    refine ⟨?_, passed, [], rfl, ?_, hbelow⟩
    · intro l hl
      rcases List.mem_append.mp hl with hl | hl
      · exact OrderedNumbers.le_of_lt (hpassed l hl) hlabel (hbelow l hl)
      · rw [List.mem_singleton.mp hl]
        exact OrderedNumbers.le_refl hlabel
    · intro hmem
      exact (OrderedNumbers.le_iff_not_lt hlabel hbest).mp (h.greatest label hmem) hlt
  · next hlt =>
    obtain ⟨before, after, rfl, hfirst, hbelow⟩ := h.first
    refine ⟨?_, before, after ++ [label], by simp, hfirst, hbelow⟩
    intro l hl
    rcases List.mem_append.mp hl with hl | hl
    · exact h.greatest l hl
    · rw [List.mem_singleton.mp hl]
      exact (OrderedNumbers.le_iff_not_lt hlabel hbest).mpr hlt

/-- Running through further labels finds the first of greatest degree among all. -/
theorem IsFirstMaximum.firstBest (h : IsFirstMaximum degree passed best)
    (hnumbers : ∀ l ∈ passed ++ labels, isNan (degree l) = false) :
    IsFirstMaximum degree (passed ++ labels)
      (CategoricalDomain.firstBest degree (best, degree best) labels) := by
  induction labels generalizing passed best with
  | nil => rwa [List.append_nil]
  | cons label labels ih =>
    rw [List.append_cons] at hnumbers ⊢
    have hstep := h.concat (List.forall_mem_append.mp hnumbers).1
    have hbest : CategoricalDomain.firstBest degree (best, degree best) (label :: labels) =
        CategoricalDomain.firstBest degree (if degree best < degree label then label else best,
          degree (if degree best < degree label then label else best)) labels := by
      rw [CategoricalDomain.firstBest]
      split <;> rfl
    rw [hbest]
    exact ih hstep hnumbers

/-- There is only one first label of greatest degree. -/
theorem IsFirstMaximum.unique (hnumbers : ∀ l ∈ labels, isNan (degree l) = false)
    (h : IsFirstMaximum degree labels best) (h' : IsFirstMaximum degree labels other) :
    best = other := by
  have hnot : ¬ degree best < degree other :=
    (OrderedNumbers.le_iff_not_lt (hnumbers _ h'.mem) (hnumbers _ h.mem)).mp (h.greatest _ h'.mem)
  have hnot' : ¬ degree other < degree best :=
    (OrderedNumbers.le_iff_not_lt (hnumbers _ h.mem) (hnumbers _ h'.mem)).mp (h'.greatest _ h.mem)
  obtain ⟨before, after, rfl, -, hbelow⟩ := h.first
  obtain ⟨before', after', hsplit, -, hbelow'⟩ := h'.first
  -- Neither of the two can stand before the other one.
  rcases List.append_eq_append_iff.mp hsplit with ⟨rest, rfl, hrest⟩ | ⟨rest, rfl, hrest⟩
  · cases rest with
    | nil => exact (List.cons.inj hrest).1
    | cons l rest =>
      obtain ⟨rfl, -⟩ := List.cons.inj hrest
      exact absurd (hbelow' best (by simp)) hnot
  · cases rest with
    | nil => exact (List.cons.inj hrest).1.symm
    | cons l rest =>
      obtain ⟨rfl, -⟩ := List.cons.inj hrest
      exact absurd (hbelow other (by simp)) hnot'

end Ordered

/-! ### Main result -/

/-- A valid domain of labels has a centroid in every set, and it is the first label of greatest
degree: no label has a greater degree, and all labels before its first occurrence have smaller ones.
Of what sign the degrees are does not matter, as long as they are numbers. Labels of no greater
degree can be appended without changing the result. -/
theorem centroid_iff_firstMaximum [OrderedNumbers α] {d : CategoricalDomain}
    (hd : (d.validate : Except (DomainFault α) Unit) = .ok ()) {set : FuzzySet α} {ctx : Context}
    (hnumbers : ∀ label ∈ d.labels, isNan (set.degree ctx (.label label)) = false) :
    (∃ best, d.defuzzify set .centroid ctx = .ok best) ∧
    (∀ best, d.defuzzify set .centroid ctx = .ok best ↔
      IsFirstMaximum (fun label ↦ set.degree ctx (.label label)) d.labels best) ∧
    ∀ best more, d.defuzzify set .centroid ctx = .ok best →
      (∀ label ∈ more, ¬ set.degree ctx (.label best) < set.degree ctx (.label label)) →
        CategoricalDomain.defuzzify ⟨d.name, d.labels ++ more⟩ set .centroid ctx = .ok best := by
  obtain ⟨name, labels⟩ := d
  cases labels with
  | nil => cases hd
  | cons label labels =>
    have hfirst : IsFirstMaximum (fun l ↦ set.degree ctx (.label l)) [label] label :=
      ⟨List.forall_mem_singleton.mpr (OrderedNumbers.le_refl (hnumbers _ List.mem_cons_self)),
        [], [], rfl, nofun, nofun⟩
    have hfound := hfirst.firstBest hnumbers
    refine ⟨⟨_, rfl⟩, ?_, ?_⟩
    · intro best
      constructor
      · rintro ⟨⟩
        exact hfound
      · intro hbest
        exact congrArg Except.ok (hfound.unique hnumbers hbest)
    · rintro best more ⟨⟩ hmore
      exact congrArg Except.ok
        ((firstBest_append label labels more).trans (firstBest_of_not_lt hmore))

/-- Countries, one of which is listed twice. -/
def countries : CategoricalDomain := ⟨"country", ["spain", "france", "italy", "france"]⟩

/-- What is lost in each country, as a negative degree. -/
def losses : FuzzySet Float :=
  .discrete ⟨[("spain", -2), ("france", -1), ("italy", -1), ("peru", -1)], by decide⟩

/-- Among countries that all have negative degrees, the first of the two of greatest degree is
found, also if others of that degree follow. -/
theorem countries_centroid_iff_firstMaximum :
    (countries.validate : Except (DomainFault Float) Unit) = .ok () ∧
      (∀ label ∈ countries.labels, isNan (losses.degree {} (.label label)) = false) ∧
      IsFirstMaximum (fun label ↦ losses.degree {} (.label label)) countries.labels "france" ∧
      CategoricalDomain.defuzzify ⟨"country", countries.labels ++ ["peru", "france"]⟩ losses
        .centroid {} = .ok "france" := by
  have hnumbers : ∀ label ∈ countries.labels, isNan (losses.degree {} (.label label)) = false := by
    decide +kernel
  have hbest : firstBest (fun label ↦ losses.degree {} (.label label))
      ("spain", losses.degree {} (.label "spain")) ["france", "italy", "france"] = "france" := by
    decide +kernel
  have hfrance : countries.defuzzify losses .centroid {} = .ok "france" := congrArg Except.ok hbest
  obtain ⟨-, hfirst, happend⟩ := centroid_iff_firstMaximum rfl hnumbers
  exact ⟨rfl, hnumbers, (hfirst "france").mp hfrance, happend _ _ hfrance (by decide +kernel)⟩

end CategoricalDomain

end FuzzyInference
