import FuzzyInference.Proofs.FuzzySystem.WellFormed
import FuzzyInference.Proofs.RuleBase.LabelOrder

/-!
# Rules that pair labels

Which variables can be paired, and what the rules are: each label of the one variable but possibly a
middle one is the condition of one rule, and each label of the other one but possibly a middle one
the conclusion of one, in the order of centroids or in its reverse.
-/

namespace FuzzyInference

open Exact Result

/-! ### Cutting lists to one length -/

section Balance

variable {β γ : Type} {xs : List β} {ys : List γ}

/-- Two lists are cut to the same length: nothing is left out, or the middle element of the one that
is longer by that element. -/
inductive Balanced (xs : List β) (ys : List γ) : List β → List γ → Prop
  /-- Nothing is left out. -/
  | whole : xs.length = ys.length → Balanced xs ys xs ys
  /-- The middle element of the first list is left out. -/
  | left {front back : List β} {middle : β} : xs = front ++ middle :: back →
    front.length = back.length → (front ++ back).length = ys.length →
      Balanced xs ys (front ++ back) ys
  /-- The middle element of the second list is left out. -/
  | right {front back : List γ} {middle : γ} : ys = front ++ middle :: back →
    front.length = back.length → xs.length = (front ++ back).length →
      Balanced xs ys xs (front ++ back)

namespace Balanced

variable {xs' : List β} {ys' : List γ}

/-- The lists have the same length then. -/
theorem length_eq (h : Balanced xs ys xs' ys') : xs'.length = ys'.length := by
  cases h <;> assumption

/-- What is left of the first list stands in it. -/
theorem sublist_left (h : Balanced xs ys xs' ys') : xs'.Sublist xs := by
  cases h with
  | whole => exact .refl _
  | left hxs =>
    rw [hxs]
    exact (List.sublist_cons_self _ _).append_left _
  | right => exact .refl _

/-- What is left of the second list stands in it. -/
theorem sublist_right (h : Balanced xs ys xs' ys') : ys'.Sublist ys := by
  cases h with
  | whole => exact .refl _
  | left => exact .refl _
  | right hys =>
    rw [hys]
    exact (List.sublist_cons_self _ _).append_left _

/-- Nothing is left exactly if one of the lists was empty. -/
theorem left_eq_nil_iff (h : Balanced xs ys xs' ys') : xs' = [] ↔ xs = [] ∨ ys = [] := by
  have hnil : xs' = [] ↔ ys' = [] := by
    rw [← List.length_eq_zero_iff, ← List.length_eq_zero_iff, h.length_eq]
  cases h with
  | whole => rw [← hnil, or_self]
  | left hxs =>
    rw [hnil, hxs]
    simp
  | right hys =>
    rw [hys]
    simp

end Balanced

private theorem exists_middle (hodd : xs.length % 2 = 1) :
    ∃ front middle back, xs = front ++ middle :: back ∧ front.length = back.length ∧
      xs.eraseIdx (xs.length / 2) = front ++ back := by
  have hlt : xs.length / 2 < xs.length := by omega
  refine ⟨xs.take (xs.length / 2), xs[xs.length / 2], xs.drop (xs.length / 2 + 1), ?_, ?_, ?_⟩
  · rw [← List.drop_eq_getElem_cons hlt, List.take_append_drop]
  · rw [List.length_take, List.length_drop]
    omega
  · rw [List.eraseIdx_eq_take_drop_succ]

/-- Two lists can be cut to one length exactly if they have the same length or one of odd length has
exactly one element more. -/
theorem balance_spec (xs : List β) (ys : List γ) :
    ((balance xs ys).1.length = (balance xs ys).2.length ↔
      xs.length = ys.length ∨ xs.length = ys.length + 1 ∧ Odd xs.length ∨
        ys.length = xs.length + 1 ∧ Odd ys.length) ∧
    ((balance xs ys).1.length = (balance xs ys).2.length →
      Balanced xs ys (balance xs ys).1 (balance xs ys).2) := by
  simp only [balance, Nat.odd_iff]
  split_ifs with hleft hright
  · obtain ⟨front, middle, back, hxs, hmiddle, herase⟩ := exists_middle hleft.2
    have hlength : (front ++ back).length = ys.length := by
      have hcount := hleft.1
      rw [hxs, List.length_append, List.length_cons] at hcount
      rw [List.length_append]
      omega
    rw [herase]
    exact ⟨iff_of_true hlength (.inr (.inl hleft)), fun _ ↦ .left hxs hmiddle hlength⟩
  · obtain ⟨front, middle, back, hys, hmiddle, herase⟩ := exists_middle hright.2
    have hlength : xs.length = (front ++ back).length := by
      have hcount := hright.1
      rw [hys, List.length_append, List.length_cons] at hcount
      rw [List.length_append]
      omega
    rw [herase]
    exact ⟨iff_of_true hlength (.inr (.inr ⟨hright.1.symm, hright.2⟩)),
      fun _ ↦ .right hys hmiddle hlength⟩
  · refine ⟨⟨.inl, fun h ↦ ?_⟩, .whole⟩
    dsimp only
    omega

end Balance

/-! ### Rules of pairs -/

section Rules

variable {r : Registry Exact} {a c : Handle} {weight : Exact}

/-- The rule that pairs two labels. -/
def pairRule (a c : Handle) (weight : Exact) (x y : String) : Rule Exact :=
  ⟨.is a x, c, y, weight⟩

private theorem forall₂_build_iff {pairs : List (String × String)} {rules : List (Rule Exact)} :
    List.Forall₂ (fun pair rule ↦ Rule.build (.is a pair.1) (.is c pair.2) weight = .ok rule) pairs
        rules ↔
      (pairs = [] ∨ 0 < weight ∧ weight ≤ 1) ∧
        rules = pairs.map fun pair ↦ pairRule a c weight pair.1 pair.2 := by
  have hbuild : ∀ {pair : String × String} {rule : Rule Exact},
      Rule.build (.is a pair.1) (.is c pair.2) weight = .ok rule ↔
        (0 < weight ∧ weight ≤ 1) ∧ rule = pairRule a c weight pair.1 pair.2 := by
    intro pair rule
    cases rule
    simp only [Rule.build_eq_ok_iff, Rule.consequent, pairRule, Proposition.is.injEq, Rule.mk.injEq,
      and_assoc]
  simp only [hbuild]
  induction pairs generalizing rules with
  | nil => simp
  | cons pair pairs ih =>
    cases rules with
    | nil => simp
    | cons rule rules =>
      refine List.forall₂_cons.trans ((and_congr_right fun _ ↦ ih).trans ?_)
      rw [List.map_cons, List.cons.injEq]
      constructor
      · rintro ⟨⟨hweight, hrule⟩, -, hrules⟩
        exact ⟨.inr hweight, hrule, hrules⟩
      · rintro ⟨hweight, hrule, hrules⟩
        have hweight := hweight.resolve_left (List.cons_ne_nil _ _)
        exact ⟨⟨hweight, hrule⟩, .inr hweight, hrules⟩

private theorem paired_eq_ok_iff {v w : Variable Exact} {xs ys : List String} {reverse : Bool}
    (ha : r.get a = .ok v) (hc : r.get c = .ok w) (hxs : v.orderedLabels = .ok xs)
    (hys : w.orderedLabels = .ok ys) {base : RuleBase Exact} :
    RuleBase.paired r a c weight reverse = .ok base ↔
      (balance xs ys).1.length = (balance xs ys).2.length ∧
      ((balance xs ys).1 = [] ∨ 0 < weight ∧ weight ≤ 1) ∧
      base.rules = List.zipWith (pairRule a c weight) (balance xs ys).1
        (if reverse then (balance xs ys).2.reverse else (balance xs ys).2) := by
  obtain ⟨rules⟩ := base
  simp only [RuleBase.paired, ha, hc, mapError_ok, ok_bind, hxs, hys, error_bind, refuse_eq_ok_iff,
    not_not, bind_eq_ok_iff, mapM_eq_ok_iff, forall₂_build_iff, pure_eq_ok, Except.ok.injEq,
    RuleBase.mk.injEq, exists_eq_right]
  refine and_congr_right fun hlength ↦ and_congr (or_congr_left ?_) ?_
  · rw [← List.length_eq_zero_iff, ← List.length_eq_zero_iff, List.length_zip]
    split_ifs
    · rw [List.length_reverse, ← hlength, min_self]
    · rw [← hlength, min_self]
  · rw [← List.map_uncurry_zip_eq_zipWith]
    rfl

private theorem existsUnique_getElem? {β : Type} {xs : List β} (hn : xs.Nodup) {x : β}
    (hx : x ∈ xs) : ∃! i : Nat, xs[i]? = some x := by
  obtain ⟨i, hi⟩ := List.mem_iff_getElem?.mp hx
  refine ⟨i, hi, fun j hj ↦ ?_⟩
  obtain ⟨hlt, -⟩ := List.getElem?_eq_some_iff.mp hj
  exact (List.getElem?_inj hlt hn).mp (hj.trans hi.symm)

private theorem getElem?_pairs_iff {xs ys : List String} {i : Nat} {rule : Rule Exact} :
    (List.zipWith (pairRule a c weight) xs ys)[i]? = some rule ↔
      ∃ x y, xs[i]? = some x ∧ ys[i]? = some y ∧ rule = pairRule a c weight x y := by
  rw [List.getElem?_zipWith_eq_some]
  exact exists₂_congr fun x y ↦ and_congr_right' (and_congr_right' eq_comm)

private theorem existsUnique_antecedent {xs ys : List String} (hlength : xs.length = ys.length)
    (hn : xs.Nodup) {x : String} (hx : x ∈ xs) :
    ∃! i : Nat, ∃ rule, (List.zipWith (pairRule a c weight) xs ys)[i]? = some rule ∧
      rule.antecedent = .is a x := by
  obtain ⟨i, hi, hunique⟩ := existsUnique_getElem? hn hx
  obtain ⟨hlt, -⟩ := List.getElem?_eq_some_iff.mp hi
  refine ⟨i, ⟨_, getElem?_pairs_iff.mpr
    ⟨x, _, hi, List.getElem?_eq_getElem (hlength ▸ hlt), rfl⟩, rfl⟩, ?_⟩
  rintro j ⟨rule, hj, hrule⟩
  obtain ⟨x', y, hx', -, rfl⟩ := getElem?_pairs_iff.mp hj
  cases hrule
  exact hunique j hx'

private theorem existsUnique_consequent {xs ys : List String} (hlength : xs.length = ys.length)
    (hn : ys.Nodup) {y : String} (hy : y ∈ ys) :
    ∃! i : Nat, ∃ rule, (List.zipWith (pairRule a c weight) xs ys)[i]? = some rule ∧
      rule.consequent = .is c y := by
  obtain ⟨i, hi, hunique⟩ := existsUnique_getElem? hn hy
  obtain ⟨hlt, -⟩ := List.getElem?_eq_some_iff.mp hi
  refine ⟨i, ⟨_, getElem?_pairs_iff.mpr
    ⟨_, y, List.getElem?_eq_getElem (hlength ▸ hlt), hi, rfl⟩, rfl⟩, ?_⟩
  rintro j ⟨rule, hj, hrule⟩
  obtain ⟨x, y', -, hy', rfl⟩ := getElem?_pairs_iff.mp hj
  cases hrule
  exact hunique j hy'

private theorem validate_pairs {v w : Variable Exact} (ha : r.get a = .ok v) (hc : r.get c = .ok w)
    {xs ys : List String} (hxs : ∀ x ∈ xs, x ∈ v.labels.names) (hys : ∀ y ∈ ys, y ∈ w.labels.names)
    {rule : Rule Exact} (hrule : rule ∈ List.zipWith (pairRule a c weight) xs ys) :
    ∃ x y, rule = pairRule a c weight x y ∧ rule.validate r = .ok () := by
  obtain ⟨i, hi⟩ := List.mem_iff_getElem?.mp hrule
  obtain ⟨x, y, hx, hy, rfl⟩ := getElem?_pairs_iff.mp hi
  refine ⟨x, y, rfl, Rule.validate_eq_ok_iff.mpr ⟨?_, ?_⟩⟩
  · exact Proposition.validateLabel_eq_ok_iff_hasLabel.mpr
      ⟨v, ha, hxs x (List.mem_of_getElem? hx)⟩
  · exact Proposition.validateLabel_eq_ok_iff_hasLabel.mpr
      ⟨w, hc, hys y (List.mem_of_getElem? hy)⟩

private theorem build_pairs {v w : Variable Exact} (ha : r.get a = .ok v) (hc : r.get c = .ok w)
    (hne : a ≠ c) {base : RuleBase Exact}
    (hrules : ∀ rule ∈ base.rules,
      ∃ x y, rule = pairRule a c weight x y ∧ rule.validate r = .ok ()) :
    ∃ s, FuzzySystem.build r [a] base c = .ok s := by
  refine ⟨_, FuzzySystem.build_eq_ok_iff.mpr ⟨?_, ?_, fun rule hm ↦ ?_, rfl⟩⟩
  · exact List.forall_mem_cons.mpr ⟨⟨v, ha⟩, List.forall_mem_singleton.mpr ⟨w, hc⟩⟩
  · exact fun hm ↦ hne (List.mem_singleton.mp hm).symm
  · obtain ⟨x, y, rfl, hvalid⟩ := hrules rule hm
    refine ⟨hvalid, rfl, fun valuation hvaluation ↦ ?_⟩
    rw [List.mem_singleton.mp hvaluation]
    exact List.mem_singleton_self a

private theorem rules_of_balanced {v w : Variable Exact} (ha : r.get a = .ok v)
    (hc : r.get c = .ok w) {xs ys xs' ys' zs : List String} (hxs : v.ByCentroid xs)
    (hys : w.ByCentroid ys) (hb : Balanced xs ys xs' ys') (hzs : zs.Perm ys')
    {base : RuleBase Exact} (hrules : base.rules = List.zipWith (pairRule a c weight) xs' zs) :
    (∀ x ∈ xs', ∃! i : Nat, ∃ rule, base.rules[i]? = some rule ∧ rule.antecedent = .is a x) ∧
    (∀ y ∈ ys', ∃! i : Nat, ∃ rule, base.rules[i]? = some rule ∧ rule.consequent = .is c y) ∧
    (∀ rule ∈ base.rules, rule.validate r = .ok ()) ∧
    (a ≠ c → ∃ s, FuzzySystem.build r [a] base c = .ok s) := by
  have hlength : xs'.length = zs.length := hb.length_eq.trans hzs.length_eq.symm
  have hvalid : ∀ rule ∈ base.rules,
      ∃ x y, rule = pairRule a c weight x y ∧ rule.validate r = .ok () := by
    intro rule hm
    rw [hrules] at hm
    exact validate_pairs ha hc
      (fun x hx ↦ hxs.perm.mem_iff.mp (hb.sublist_left.subset hx))
      (fun y hy ↦ hys.perm.mem_iff.mp (hb.sublist_right.subset (hzs.mem_iff.mp hy))) hm
  refine ⟨fun x hx ↦ ?_, fun y hy ↦ ?_, fun rule hm ↦ ?_, fun hne ↦ build_pairs ha hc hne hvalid⟩
  · rw [hrules]
    exact existsUnique_antecedent hlength (hxs.nodup.sublist hb.sublist_left) hx
  · rw [hrules]
    exact existsUnique_consequent hlength
      (hzs.nodup_iff.mpr (hys.nodup.sublist hb.sublist_right)) (hzs.mem_iff.mpr hy)
  · obtain ⟨_, _, -, hrule⟩ := hvalid rule hm
    exact hrule

end Rules

/-! ### An example -/

/-- An interval that is sampled at its lower bound only. -/
private noncomputable def coarse : NumericDomain Exact := ⟨"coarse", 0, 10, .count 1⟩

/-- A level whose labels have the same centroid, but for the first one, which has none. -/
noncomputable def level : Variable Exact where
  name := "level"
  domain := .numeric coarse
  labels := ⟨[("none", .constant (number 0)), ("low", .constant (number 1)),
    ("high", .constant (number 1))], by simp⟩

/-- A valve, of whose labels the first one has no centroid. -/
noncomputable def valve : Variable Exact where
  name := "valve"
  domain := .numeric coarse
  labels := ⟨[("shut", .constant (number 0)), ("open", .constant (number 1))], by simp⟩

private theorem wellFormed_constant (x : ℝ) : (FuzzySet.constant (number x)).WellFormed := by
  simp [FuzzySet.wellFormed_iff, FuzzySet.nodes, FuzzySet.numbers, isFinite_iff]

private theorem coarse_wellFormed : (Domain.numeric coarse).WellFormed := by
  simp [coarse, Domain.WellFormed, isFinite_iff]

/-- The level and the valve are registered. -/
noncomputable def tank : Registry Exact :=
  .ofMembers [level, valve] (by simp [level, valve]) <| by
    simp only [List.forall_mem_cons, Variable.validate_eq_ok_iff]
    refine ⟨⟨coarse_wellFormed, ?_⟩, ⟨coarse_wellFormed, ?_⟩, fun _ h ↦ absurd h List.not_mem_nil⟩
    · simp [level, Table.values, wellFormed_constant]
    · simp [valve, Table.values, wellFormed_constant]

private theorem centroid_constant (x : ℝ) : (Domain.numeric coarse).centroid
    (.constant (number x)) = .ok (.number (if x = 0 then nan else number 0)) := by
  have hmesh : coarse.mesh = [number 0] := by
    have hpoint : Mesh.counted (number 0) (number 10) 1 = _ := Mesh.counted_number
    rw [List.range_one, List.map_singleton, List.map_singleton] at hpoint
    simpa [coarse, NumericDomain.mesh, Mesh.points] using hpoint
  have hcentroid : Defuzzification.centroidOf ([0].map number) ([x].map number) = _ :=
    Defuzzification.centroidOf_number rfl
  simp only [List.map_cons, List.map_nil, List.sum_cons, List.sum_nil, add_zero] at hcentroid
  show Except.ok (Point.number (Defuzzification.reduce .centroid coarse.mesh
    (coarse.mesh.map fun _ ↦ number x))) = _
  rw [hmesh]
  show Except.ok (Point.number (Defuzzification.centroidOf [number 0] [number x])) = _
  rw [hcentroid]
  simp [Defuzzification.weighted]

private theorem level_byCentroid : level.ByCentroid ["low", "high", "none"] where
  perm := by
    show List.Perm _ ["none", "low", "high"]
    decide
  pairwise := by
    have hnone : level.HasCentroid "none" nan :=
      ⟨_, by simp [level], (centroid_constant 0).trans (by rw [if_pos rfl])⟩
    have hlow : level.HasCentroid "low" (number 0) :=
      ⟨_, by simp [level], (centroid_constant 1).trans (by rw [if_neg one_ne_zero])⟩
    have hhigh : level.HasCentroid "high" (number 0) :=
      ⟨_, by simp [level], (centroid_constant 1).trans (by rw [if_neg one_ne_zero])⟩
    have hbefore : Before (number 0) nan := .inr ⟨nofun, rfl⟩
    have hgiven : ["low", "high"].Sublist level.labels.names := (List.Sublist.refl _).cons "none"
    simp only [List.pairwise_cons, List.forall_mem_cons, List.not_mem_nil, false_implies,
      implies_true, and_true, List.Pairwise.nil]
    exact ⟨⟨⟨_, _, hlow, hhigh, .inr ⟨rfl, hgiven⟩⟩, ⟨_, _, hlow, hnone, .inl hbefore⟩⟩,
      ⟨_, _, hhigh, hnone, .inl hbefore⟩⟩

private theorem valve_byCentroid : valve.ByCentroid ["open", "shut"] where
  perm := by
    show List.Perm _ ["shut", "open"]
    decide
  pairwise := by
    have hshut : valve.HasCentroid "shut" nan :=
      ⟨_, by simp [valve], (centroid_constant 0).trans (by rw [if_pos rfl])⟩
    have hopen : valve.HasCentroid "open" (number 0) :=
      ⟨_, by simp [valve], (centroid_constant 1).trans (by rw [if_neg one_ne_zero])⟩
    rw [List.pairwise_pair]
    exact ⟨_, _, hopen, hshut, .inl (.inr ⟨nofun, rfl⟩)⟩

/-! ### Main results -/

/-- The labels of a variable on an interval have one order by their centroids, which are numbers
unless the degrees on the mesh add up to zero.

Two variables are paired exactly if they have equally many labels, or one of them has one more and
an odd number of labels, and if there is nothing to pair or the weight is in `(0, 1]`. The rules
pair the labels in order, or against the order of the second ones, without the middle one of those
that are one more: every other label is the condition or the conclusion of exactly one rule. All
rules are valid, and if the variables are two, the rules make up a system that infers the second one
from the first. -/
theorem paired_by_centroids {r : Registry Exact} {a c : Handle} {v w : Variable Exact}
    {d e : NumericDomain Exact} (ha : r.get a = .ok v) (hc : r.get c = .ok w)
    (hv : v.domain = .numeric d) (hw : w.domain = .numeric e) (weight : Exact) (reverse : Bool) :
    (∀ set ∈ v.labels.values, v.domain.HasNumericCentroid set) ∧
    (∀ set ∈ w.labels.values, w.domain.HasNumericCentroid set) ∧
    ∃ xs ys, (∀ labels, v.ByCentroid labels ↔ labels = xs) ∧
      (∀ labels, w.ByCentroid labels ↔ labels = ys) ∧
      ((∃ base, RuleBase.paired r a c weight reverse = .ok base) ↔
        (v.labels.size = w.labels.size ∨
          v.labels.size = w.labels.size + 1 ∧ Odd v.labels.size ∨
          w.labels.size = v.labels.size + 1 ∧ Odd w.labels.size) ∧
        (v.labels.size = 0 ∨ w.labels.size = 0 ∨ 0 < weight ∧ weight ≤ 1)) ∧
      ∀ base, RuleBase.paired r a c weight reverse = .ok base →
        ∃ xs' ys', Balanced xs ys xs' ys' ∧
          base.rules = List.zipWith (pairRule a c weight) xs'
            (if reverse then ys'.reverse else ys') ∧
          (∀ x ∈ xs', ∃! i : Nat, ∃ rule, base.rules[i]? = some rule ∧ rule.antecedent = .is a x) ∧
          (∀ y ∈ ys', ∃! i : Nat, ∃ rule, base.rules[i]? = some rule ∧ rule.consequent = .is c y) ∧
          (∀ rule ∈ base.rules, rule.validate r = .ok ()) ∧
          (a ≠ c → ∃ s, FuzzySystem.build r [a] base c = .ok s) := by
  have hcentroid {u : Variable Exact} {f : NumericDomain Exact} (hu : u ∈ r.members)
      (hf : u.domain = .numeric f) : ∀ set ∈ u.labels.values, u.domain.HasNumericCentroid set := by
    intro set hset
    have hwell := FuzzySystem.wellFormed_of_mem u hu
    have hdomain := hwell.domain
    rw [hf] at hdomain ⊢
    exact Domain.hasNumericCentroid hdomain (hwell.sets set hset)
  obtain ⟨xs, hxs, hxsort⟩ := Variable.exists_orderedLabels hv
  obtain ⟨ys, hys, hysort⟩ := Variable.exists_orderedLabels hw
  have hsteps {base : RuleBase Exact} : RuleBase.paired r a c weight reverse = .ok base ↔ _ :=
    paired_eq_ok_iff ha hc hxs hys
  obtain ⟨hcount, hbalanced⟩ := balance_spec xs ys
  refine ⟨hcentroid (Registry.mem_of_get ha) hv, hcentroid (Registry.mem_of_get hc) hw, xs, ys,
    fun labels ↦ ⟨fun h ↦ h.unique hxsort, fun h ↦ h ▸ hxsort⟩,
    fun labels ↦ ⟨fun h ↦ h.unique hysort, fun h ↦ h ▸ hysort⟩, ?_, fun base hbase ↦ ?_⟩
  · rw [← hxsort.length_eq, ← hysort.length_eq, ← hcount]
    constructor
    · rintro ⟨base, hbase⟩
      obtain ⟨hlength, hweight, -⟩ := hsteps.mp hbase
      rw [(hbalanced hlength).left_eq_nil_iff, or_assoc] at hweight
      exact ⟨hlength, by simpa only [List.length_eq_zero_iff] using hweight⟩
    · rintro ⟨hlength, hweight⟩
      refine ⟨⟨_⟩, hsteps.mpr ⟨hlength, ?_, rfl⟩⟩
      rw [(hbalanced hlength).left_eq_nil_iff, or_assoc]
      simpa only [List.length_eq_zero_iff] using hweight
  · obtain ⟨hlength, -, hrules⟩ := hsteps.mp hbase
    have hperm : (if reverse then (balance xs ys).2.reverse else (balance xs ys).2).Perm
        (balance xs ys).2 := by
      split_ifs
      · exact List.reverse_perm _
      · exact .refl _
    exact ⟨_, _, hbalanced hlength, hrules,
      rules_of_balanced ha hc hxsort hysort (hbalanced hlength) hperm hrules⟩

/-- The level and the valve are paired without the middle level, and against the order of the valve
if that is asked for. With a weight above one they are not paired. -/
theorem tank_paired_by_centroids :
    tank.get ⟨0⟩ = .ok level ∧ tank.get ⟨1⟩ = .ok valve ∧
      RuleBase.paired tank ⟨0⟩ ⟨1⟩ 1 true = .ok ⟨[⟨.is ⟨0⟩ "low", ⟨1⟩, "shut", 1⟩,
        ⟨.is ⟨0⟩ "none", ⟨1⟩, "open", 1⟩]⟩ ∧
      ¬ ∃ base, RuleBase.paired tank ⟨0⟩ ⟨1⟩ 2 true = .ok base := by
  have hlevel : tank.get ⟨0⟩ = .ok level := rfl
  have hvalve : tank.get ⟨1⟩ = .ok valve := rfl
  obtain ⟨-, -, xs, ys, hxs, hys, hexists, hrules⟩ :=
    paired_by_centroids hlevel hvalve rfl rfl 1 true
  obtain ⟨-, -, _, _, -, -, hheavy, -⟩ := paired_by_centroids hlevel hvalve rfl rfl 2 true
  obtain rfl := (hxs _).mp level_byCentroid
  obtain rfl := (hys _).mp valve_byCentroid
  refine ⟨hlevel, hvalve, ?_, ?_⟩
  · obtain ⟨⟨rules⟩, hbase⟩ := hexists.mpr ⟨.inr (.inl ⟨rfl, by decide⟩), .inr (.inr (by simp))⟩
    obtain ⟨xs', ys', hbalanced, hpairs, -⟩ := hrules _ hbase
    cases hbalanced with
    | whole h => cases h
    | @left front back middle hsplit hmiddle =>
      obtain ⟨x, rfl⟩ : ∃ x, front = [x] := by
        rw [← List.length_eq_one_iff]
        have hcount := congrArg List.length hsplit
        simp only [List.length_append, List.length_cons, List.length_nil] at hcount
        omega
      cases hsplit
      rw [hbase, show rules = _ from hpairs]
      rfl
    | right hsplit hmiddle hlength =>
      have hcount := congrArg List.length hsplit
      simp only [List.length_append, List.length_cons, List.length_nil] at hcount hlength
      omega
  · rw [hheavy]
    rintro ⟨-, hweight⟩
    rcases hweight with h | h | ⟨-, h⟩
    · cases h
    · cases h
    · simp at h

end FuzzyInference
