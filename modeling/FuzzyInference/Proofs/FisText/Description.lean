import FuzzyInference.Proofs.FisText.Document
import FuzzyInference.Proofs.FuzzySystem.WellFormed
import FuzzyInference.Proofs.Registry.Lookup
import FuzzyInference.Proofs.Table

/-!
# Systems that documents describe

The variables, rules and methods that the parts of a document stand for, said without the text. What
a sound document describes is sound.
-/

namespace FuzzyInference.FisText

variable {α : Type}

/-! ### What documents describe -/

/-- The variable that a declaration stands for. -/
def Declaration.variable (steps : Steps α) (v : Declaration α) : Variable α where
  name := v.name
  domain := .numeric ⟨v.name, v.low, v.high, steps⟩
  labels := .ofList (v.labels.map fun (label, shape) ↦ (label, .shape shape))

/-- The combination that a connective stands for. -/
def Connective.join : Connective → List Proposition → Proposition
  | conjunction => .and
  | disjunction => .or

/-- Steps that a domain can have: a count, or a size that is finite and above zero. -/
def ValidSteps [Scalar α] (steps : Steps α) : Prop :=
  ∀ h, steps = .size h → Scalar.isFinite h = true ∧ 0 < h

/-- What an index says of a variable: nothing if it is zero, and else that the variable has the
quality of the numbered label, or has it not. -/
def valuation? (h : Handle) (v : Declaration α) (k : Int) : Option Proposition :=
  if k = 0 then none
  else v.labels[k.natAbs - 1]?.map fun (label, _) ↦ if 0 < k then .is h label else .isNot h label

/-- What the indices of a rule say of the inputs, which are in the slots from the given one on. -/
def valuations (slot : Nat) : List (Declaration α) → List Int → List Proposition
  | v :: vs, k :: ks => (valuation? ⟨slot⟩ v k).toList ++ valuations (slot + 1) vs ks
  | _, _ => []

/-- The handles of the inputs, in order. -/
def Document.handles (d : Document α) : List Handle :=
  (List.range d.inputs.length).map Handle.mk

/-- The handle of the output, which comes behind the inputs. -/
def Document.targetHandle (d : Document α) : Handle := ⟨d.inputs.length⟩

/-- A rule is what a line of a document says. -/
structure RuleLine.Describes (d : Document α) (r : RuleLine α) (rule : Rule α) : Prop where
  /-- The antecedent combines what the indices say of the inputs. -/
  antecedent : rule.antecedent = r.connective.join (valuations 0 d.inputs r.indices)
  /-- The rule concludes on the output. -/
  target : rule.target = d.targetHandle
  /-- It concludes the label that the output index numbers. -/
  label : (d.target.labels.map Prod.fst)[r.output.natAbs - 1]? = some rule.label
  /-- The weight is the one given. -/
  weight : rule.weight = r.weight

/-- The context that the methods of a document make up. -/
def Document.context (d : Document α) : Context where
  defuzzification := d.defuzzification.getD .centroid
  aggregation := (d.aggregation.map Prod.snd).getD .maximum
  implication := (d.implication.map Prod.snd).getD .minimum
  conjunction := (d.conjunction.map Prod.snd).getD .minimum
  disjunction := (d.disjunction.map Prod.snd).getD .maximum

/-- A registry holds the inputs and the output of a document, in order, with all domains sampled by
the given steps. -/
def Document.Registered [Scalar α] (d : Document α) (steps : Steps α) (r : Registry α) : Prop :=
  r.members = (d.inputs ++ [d.target]).map (·.variable steps)

/-- A system is what a document says, with all domains sampled by the given steps. -/
structure Document.Describes [Scalar α] (d : Document α) (steps : Steps α) (s : FuzzySystem α) :
    Prop where
  /-- The variables are the inputs and the output, in order. -/
  registered : d.Registered steps s.registry
  /-- The inputs are those declared, in order. -/
  inputs : s.inputs = d.handles
  /-- The target is the output. -/
  target : s.target = d.targetHandle
  /-- The rules are those listed, one by one. -/
  rules : List.Forall₂ (RuleLine.Describes d) d.rules s.rules.rules
  /-- The context is that of the methods. -/
  context : s.context = d.context

/-! ### Handles and variables -/

/-- The handle of an input is the number of that. -/
theorem mem_handles_iff {d : Document α} {h : Handle} :
    h ∈ d.handles ↔ h.slot < d.inputs.length := by
  rw [Document.handles, List.mem_map]
  constructor
  · rintro ⟨i, hi, rfl⟩
    exact List.mem_range.mp hi
  · exact fun hlt ↦ ⟨h.slot, List.mem_range.mpr hlt, rfl⟩

/-- The variables of a document are in the slots of a registry, in order. -/
theorem Document.Registered.get [Scalar α] {d : Document α} {steps : Steps α} {r : Registry α}
    (hr : d.Registered steps r) {i : Nat} {v : Declaration α}
    (hv : (d.inputs ++ [d.target])[i]? = some v) : r.get ⟨i⟩ = .ok (v.variable steps) := by
  rw [Registry.get_eq_ok_iff, hr, List.getElem?_map, hv]
  rfl

/-- The inputs are in front. -/
theorem Document.Registered.get_input [Scalar α] {d : Document α} {steps : Steps α}
    {r : Registry α} (hr : d.Registered steps r) {i : Nat} {v : Declaration α}
    (hv : d.inputs[i]? = some v) : r.get ⟨i⟩ = .ok (v.variable steps) := by
  obtain ⟨hlt, -⟩ := List.getElem?_eq_some_iff.mp hv
  exact hr.get (by rw [List.getElem?_append_left hlt, hv])

/-- The output is behind them. -/
theorem Document.Registered.get_target [Scalar α] {d : Document α} {steps : Steps α}
    {r : Registry α} (hr : d.Registered steps r) :
    r.get d.targetHandle = .ok (d.target.variable steps) :=
  hr.get (by simp)

section Variables

variable {steps : Steps α} {v : Declaration α}

/-- The labels of a variable are those declared, in order. -/
theorem names_variable (hn : (v.labels.map Prod.fst).Nodup) :
    (v.variable steps).labels.names = v.labels.map Prod.fst := by
  have hkeys : ((v.labels.map fun (label, shape) ↦ (label, FuzzySet.shape shape)).map
      Prod.fst).Nodup := by
    rw [List.map_map]
    exact hn
  rw [Declaration.variable, Table.names, Table.entries_ofList hkeys, List.map_map]
  rfl

/-- A sound declaration stands for a sound variable. -/
theorem wellFormed_variable [Scalar α] (hv : v.Sound) (hsteps : ValidSteps steps) :
    (v.variable steps).WellFormed := by
  refine ⟨⟨hv.low, hv.high, hv.ascending, hsteps⟩, fun set hset ↦ ?_⟩
  obtain ⟨entry, hentry, rfl⟩ := List.mem_map.mp hset
  obtain ⟨label, hlabel, rfl⟩ := List.mem_map.mp (Table.mem_of_mem_ofList hentry)
  exact FuzzySet.wellFormed_shape_iff.mpr (hv.shapes label hlabel)

end Variables

/-! ### Valuations -/

section Valuations

variable {v : Declaration α} {vs : List (Declaration α)} {ks : List Int} {slot : Nat}

/-- An index that is not zero and numbers a label says something. -/
theorem exists_valuation? {k : Int} (hk : k ≠ 0) (hle : k.natAbs ≤ v.labels.length) (h : Handle) :
    ∃ p, valuation? h v k = some p := by
  have hlt : k.natAbs - 1 < v.labels.length := by omega
  rw [valuation?, if_neg hk, List.getElem?_eq_getElem hlt]
  exact ⟨_, rfl⟩

/-- What is said of the inputs is about the variables in their slots, and names labels of these. -/
theorem exists_of_mem_valuations {p : Proposition} (hp : p ∈ valuations slot vs ks) :
    ∃ i v, vs[i]? = some v ∧ ∃ label ∈ v.labels.map Prod.fst,
      p = .is ⟨slot + i⟩ label ∨ p = .isNot ⟨slot + i⟩ label := by
  fun_induction valuations slot vs ks with
  | case1 slot v vs k ks ih =>
    rcases List.mem_append.mp hp with hp | hp
    · rw [Option.mem_toList, valuation?, Option.ite_none_left_eq_some] at hp
      obtain ⟨-, hp⟩ := hp
      obtain ⟨entry, hentry, hp⟩ := Option.map_eq_some_iff.mp hp
      refine ⟨0, v, rfl, entry.1, List.mem_map_of_mem (List.mem_of_getElem? hentry), ?_⟩
      dsimp only at hp
      split at hp
      · exact .inl hp.symm
      · exact .inr hp.symm
    · obtain ⟨i, w, hw, label, hlabel, hp⟩ := ih hp
      rw [show slot + 1 + i = slot + (i + 1) by omega] at hp
      exact ⟨i + 1, w, hw, label, hlabel, hp⟩
  | case2 => cases hp

/-- Something is said if some index is not zero. -/
theorem valuations_ne_nil (hks : List.Forall₂ (fun v k ↦ k.natAbs ≤ v.labels.length) vs ks)
    (hne : ∃ k ∈ ks, k ≠ 0) : valuations slot vs ks ≠ [] := by
  induction hks generalizing slot with
  | nil =>
    obtain ⟨_, hk, -⟩ := hne
    cases hk
  | @cons v k vs ks hle _ ih =>
    rw [valuations]
    by_cases hk : k = 0
    · obtain ⟨j, hj, hne⟩ := hne
      rcases List.mem_cons.mp hj with rfl | hj
      · exact absurd hk hne
      · exact List.append_ne_nil_of_right_ne_nil _ (ih ⟨j, hj, hne⟩)
    · obtain ⟨p, hp⟩ := exists_valuation? hk hle ⟨slot⟩
      rw [hp]
      exact List.append_ne_nil_of_left_ne_nil (List.cons_ne_nil _ _) _

end Valuations

end FuzzyInference.FisText
