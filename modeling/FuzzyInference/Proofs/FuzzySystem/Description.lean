import FuzzyInference.Proofs.FuzzySystem.Construction

/-!
# Systems and their descriptions

What building a system from a description asks for, and what a system is described by. A system that
was built from a description is described by it.
-/

namespace FuzzyInference

open Result

variable {α : Type} [Scalar α]

namespace RuleBaseStatement

/-- Rules are resolved one by one. -/
theorem resolve_eq_ok_iff {r : Registry α} {s : RuleBaseStatement α} {base : RuleBase α} :
    s.resolve r = .ok base ↔
      List.Forall₂ (fun statement rule ↦ statement.resolve r = .ok rule) s.rules base.rules := by
  cases base
  simp [resolve, bind_eq_ok_iff, pure_eq_ok, mapM_eq_ok_iff]

end RuleBaseStatement

namespace RuleBase

/-- Rules are described one by one. -/
theorem describe_eq_ok_iff {r : Registry α} {base : RuleBase α} {s : RuleBaseStatement α} :
    base.describe r = .ok s ↔
      List.Forall₂ (fun rule statement ↦ rule.describe r = .ok statement) base.rules s.rules := by
  cases s
  simp [describe, bind_eq_ok_iff, pure_eq_ok, mapM_eq_ok_iff]

end RuleBase

namespace FuzzySystem

/-- What a system is described by. -/
theorem describe_eq_ok_iff {s : FuzzySystem α} {d : SystemDescription α} :
    s.describe = .ok d ↔
      s.rules.describe s.registry = .ok d.rules ∧ s.targetVariable = .ok d.target ∧
        s.inputVariables = d.inputs ∧ s.context = d.context := by
  cases d
  simp only [describe, bind_eq_ok_iff, pure_eq_ok, Except.ok.injEq, SystemDescription.mk.injEq]
  constructor
  · rintro ⟨_, hr, _, ht, hi, rfl, rfl, hc⟩
    exact ⟨hr, ht, hi, hc⟩
  · rintro ⟨hr, ht, hi, hc⟩
    exact ⟨_, hr, _, ht, hi, rfl, rfl, hc⟩

/-- The input variables are those behind the handles, if all of these are registered. -/
theorem inputVariables_eq_iff {s : FuzzySystem α}
    (hr : ∀ h ∈ s.inputs, ∃ v, s.registry.get h = .ok v) {vs : List (Variable α)} :
    s.inputVariables = vs ↔ List.Forall₂ (fun h v ↦ s.registry.get h = .ok v) s.inputs vs := by
  unfold inputVariables
  generalize s.inputs = inputs at hr
  induction inputs generalizing vs with
  | nil => simp [eq_comm]
  | cons h inputs ih =>
    rw [List.forall_mem_cons] at hr
    obtain ⟨⟨v, hv⟩, hr⟩ := hr
    have hf : (h :: inputs).filterMap (fun h ↦ (s.registry.get h).toOption) =
        v :: inputs.filterMap (fun h ↦ (s.registry.get h).toOption) :=
      List.filterMap_cons_some (by rw [hv]; rfl)
    cases vs with
    | nil => simp [hf]
    | cons w vs => rw [hf, List.cons.injEq, ih hr, List.forall₂_cons, hv, Except.ok.injEq]

end FuzzySystem

namespace SystemDescription

/-- A registry holds the described inputs, in order, and the described target behind them. -/
structure Registered (d : SystemDescription α) (r : Registry α) (inputs : List Handle)
    (target : Handle) : Prop where
  /-- The variables. -/
  members : r.members = d.inputs ++ [d.target]
  /-- The inputs are in the first slots. -/
  inputs_eq : inputs = (List.range d.inputs.length).map Handle.mk
  /-- The target is in the last slot. -/
  target_eq : target = ⟨d.inputs.length⟩

namespace Registered

variable {d : SystemDescription α} {r : Registry α} {inputs : List Handle} {target : Handle}

/-- The handles of the inputs stand for the described inputs. -/
theorem get_inputs (h : Registered d r inputs target) :
    List.Forall₂ (fun k v ↦ r.get k = .ok v) inputs d.inputs := by
  rw [h.inputs_eq, List.forall₂_map_left_iff, List.forall₂_iff_get]
  refine ⟨by simp, fun i _ hi ↦ ?_⟩
  rw [Registry.get_eq_ok_iff, h.members]
  simp only [List.get_eq_getElem, List.getElem_range]
  rw [List.getElem?_append_left hi, List.getElem?_eq_getElem hi]

/-- The handle of the target stands for the described target. -/
theorem get_target (h : Registered d r inputs target) : r.get target = .ok d.target := by
  rw [h.target_eq, Registry.get_eq_ok_iff, h.members]
  simp

/-- The target is no input. -/
theorem target_not_mem (h : Registered d r inputs target) : target ∉ inputs := by
  rw [h.target_eq, h.inputs_eq]
  simp

/-- The inputs and the target are registered. -/
theorem exists_get (h : Registered d r inputs target) :
    ∀ k ∈ inputs ++ [target], ∃ v, r.get k = .ok v := by
  intro k hk
  rcases List.mem_append.mp hk with hi | ht
  · obtain ⟨v, -, hv⟩ := exists_right_of_mem h.get_inputs hi
    exact ⟨v, hv⟩
  · exact List.mem_singleton.mp ht ▸ ⟨_, h.get_target⟩

/-- A handle that stands for a described input is an input. -/
theorem mem_inputs (h : Registered d r inputs target) {k : Handle} {v : Variable α}
    (hk : r.get k = .ok v) (hv : v ∈ d.inputs) : k ∈ inputs := by
  obtain ⟨k', hm, hk'⟩ := exists_left_of_mem h.get_inputs hv
  exact Registry.handle_eq_of_name_eq hk hk' rfl ▸ hm

end Registered

/-- The variables of a description are registered exactly when they make a registry. -/
theorem registered_iff {d : SystemDescription α} {r : Registry α} {inputs : List Handle}
    {target : Handle} :
    (∃ r₁, Registry.empty.addAll d.inputs = .ok (r₁, inputs) ∧
        r₁.add d.target = .ok (r, target)) ↔ Registered d r inputs target := by
  constructor
  · rintro ⟨r₁, hi, ht⟩
    obtain ⟨hm₁, hs⟩ := Registry.of_addAll_eq_ok hi
    obtain ⟨_, _, hm, hh⟩ := Registry.add_eq_ok_iff.mp ht
    have hm₁ : r₁.members = d.inputs := hm₁
    refine ⟨by rw [hm, hm₁], ?_, by rw [hh, Registry.size_eq, hm₁]⟩
    rw [hs, List.range_eq_range']
    rfl
  · intro h
    have hv := h.members ▸ r.validate_eq_ok
    have hn : (d.inputs.map (·.name) ++ [d.target.name]).Nodup := by
      have hn := r.names_nodup
      rwa [h.members, List.map_append] at hn
    obtain ⟨hni, -, hnt⟩ := List.nodup_append.mp hn
    obtain ⟨r₁, hs, ha⟩ := Registry.exists_addAll (r := Registry.empty)
      (fun v hm ↦ hv v (List.mem_append_left _ hm)) hni
    obtain ⟨hm₁, hhs⟩ := Registry.of_addAll_eq_ok ha
    have hm₁ : r₁.members = d.inputs := hm₁
    obtain ⟨r₂, ha₂, hm₂⟩ := Registry.exists_add (r := r₁) (v := d.target)
      (hv _ (by simp)) (by
        rw [Registry.names, hm₁]
        exact fun hm ↦ hnt _ hm _ (List.mem_singleton_self _) rfl)
    have hr : r₂ = r := Registry.ext_members (by rw [hm₂, hm₁, h.members])
    have hsize : r₁.size = d.inputs.length := by rw [Registry.size_eq, hm₁]
    refine ⟨r₁, ?_, by rw [ha₂, hr, h.target_eq, hsize]⟩
    rw [ha, hhs, h.inputs_eq, List.range_eq_range']
    rfl

/-- What building a system from a description asks for and gives. -/
theorem build_eq_ok_iff {d : SystemDescription α} {g : FuzzySystem α} :
    d.build = .ok g ↔
      Registered d g.registry g.inputs g.target ∧ d.rules.resolve g.registry = .ok g.rules ∧
        (∀ rule ∈ g.rules.rules, FuzzySystem.Suits g.registry g.inputs g.target rule) ∧
          g.context = d.context := by
  simp only [build, bind_eq_ok_iff, Prod.exists, FuzzySystem.build_eq_ok_iff, pure_eq_ok,
    Except.ok.injEq]
  constructor
  · rintro ⟨r₁, inputs, hi, r, target, ht, rules, hr, s, ⟨_, _, hs, rfl⟩, rfl⟩
    exact ⟨registered_iff.mp ⟨r₁, hi, ht⟩, hr, hs, rfl⟩
  · rintro ⟨hreg, hr, hs, hc⟩
    obtain ⟨r₁, hi, ht⟩ := registered_iff.mpr hreg
    refine ⟨r₁, _, hi, _, _, ht, _, hr, _,
      ⟨hreg.exists_get, hreg.target_not_mem, hs, rfl⟩, ?_⟩
    rw [FuzzySystem.withContext, ← hc]

/-- A system that was built from a description is described by it. -/
theorem describe_of_build {d : SystemDescription α} {g : FuzzySystem α} (hg : d.build = .ok g) :
    g.describe = .ok d := by
  obtain ⟨hreg, hr, _, hc⟩ := build_eq_ok_iff.mp hg
  refine FuzzySystem.describe_eq_ok_iff.mpr ⟨?_, hreg.get_target, ?_, hc⟩
  · rw [RuleBase.describe_eq_ok_iff]
    exact (RuleBaseStatement.resolve_eq_ok_iff.mp hr).flip.imp
      fun _ _ h ↦ RuleStatement.describe_of_resolve h
  · exact (FuzzySystem.inputVariables_eq_iff
      (fun h hm ↦ hreg.exists_get h (List.mem_append_left _ hm))).mpr hreg.get_inputs

end SystemDescription

end FuzzyInference
