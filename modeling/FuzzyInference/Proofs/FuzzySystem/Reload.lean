import FuzzyInference.CSource.Unit
import FuzzyInference.Proofs.FuzzySystem.Description

/-!
# Reloaded systems

A system that is described and built again has a registry of its own, with the inputs and the target
only, and its rules refer to other slots. It is described alike, puts out the same under every
context and is rendered by the same source. An accepted system can be built again exactly when no
input is listed twice.
-/

namespace FuzzyInference

open Result

variable {α : Type} [Scalar α]

namespace FuzzySystem

/-- Two systems have the same inputs, target and context, and corresponding rules. -/
structure Agree (s g : FuzzySystem α) : Prop where
  /-- The rules correspond, and their handles stand for the same variables. -/
  rules : List.Forall₂ (Rule.Corresponds (s.registry.SameAt g.registry))
    s.rules.rules g.rules.rules
  /-- The targets are the same. -/
  target : g.targetVariable = s.targetVariable
  /-- The inputs are the same, in order. -/
  inputs : g.inputVariables = s.inputVariables
  /-- The contexts are the same. -/
  context : g.context = s.context

namespace Agree

variable {s g : FuzzySystem α}

/-- Agreeing systems put out the same set. -/
theorem output_eq (h : Agree s g) (inputs : Assignment α) (ctx : Context) :
    g.output inputs ctx = s.output inputs ctx := by
  have hm := mapM_eq_of_forall₂ (h.rules.imp fun _ _ hr ↦ (hr.output_eq inputs ctx).symm)
  simp only [output, RuleBase.output, hm]

/-- Agreeing systems put out the same point. -/
theorem crisp_eq (h : Agree s g) (inputs : Assignment α) (ctx : Context) :
    g.crisp inputs ctx = s.crisp inputs ctx := by
  simp only [crisp, h.output_eq, h.target]

/-- Agreeing systems are rendered by the same unit. -/
theorem unit_eq (h : Agree s g) (function : String) :
    CSource.SourceUnit.ofSystem g function = CSource.SourceUnit.ofSystem s function := by
  have hm (target : String) :=
    mapM_eq_of_forall₂ (h.rules.imp fun _ _ hr ↦ (hr.expression_eq s.context target).symm)
  simp only [CSource.SourceUnit.ofSystem, CSource.output, h.context, h.target, h.inputs, hm]

end Agree

/-- Systems of which one has no other variables agree if they are described alike. -/
theorem agree_of_describe {s g : FuzzySystem α} {d : SystemDescription α}
    (hsub : ∀ w ∈ g.registry.members, w ∈ s.registry.members)
    (hs : s.describe = .ok d) (hg : g.describe = .ok d) : Agree s g := by
  obtain ⟨hsr, hst, hsi, hsc⟩ := describe_eq_ok_iff.mp hs
  obtain ⟨hgr, hgt, hgi, hgc⟩ := describe_eq_ok_iff.mp hg
  refine ⟨?_, hgt.trans hst.symm, hgi.trans hsi.symm, hgc.trans hsc.symm⟩
  have hsr := RuleBase.describe_eq_ok_iff.mp hsr
  have hgr := RuleBase.describe_eq_ok_iff.mp hgr
  refine List.forall₂_iff_get.mpr ⟨hsr.length_eq.trans hgr.length_eq.symm, fun i hi hj ↦ ?_⟩
  have hk : i < d.rules.rules.length := hsr.length_eq ▸ hi
  exact (Rule.corresponds_of_describe ((List.forall₂_iff_get.mp hsr).2 i hi hk)
    ((List.forall₂_iff_get.mp hgr).2 i hj hk)).mono fun _ _ hn ↦ hn.sameAt hsub

/-- The variables of a description are those of the system. -/
theorem mem_members_of_describe {s : FuzzySystem α} {d : SystemDescription α}
    (hs : s.describe = .ok d) : ∀ v ∈ d.inputs ++ [d.target], v ∈ s.registry.members := by
  obtain ⟨-, ht, hi, -⟩ := describe_eq_ok_iff.mp hs
  intro v hv
  rcases List.mem_append.mp hv with hv | hv
  · rw [← hi] at hv
    obtain ⟨h, -, hh⟩ := List.mem_filterMap.mp hv
    cases hg : s.registry.get h with
    | error fault =>
      rw [hg] at hh
      cases hh
    | ok w =>
      rw [hg] at hh
      cases hh
      exact Registry.mem_of_get hg
  · exact List.mem_singleton.mp hv ▸ Registry.mem_of_get ht

/-- A reloaded system agrees with the one that was described. -/
theorem agree_of_reload {s g : FuzzySystem α} {d : SystemDescription α}
    (hs : s.describe = .ok d) (hg : d.build = .ok g) : Agree s g := by
  refine agree_of_describe ?_ hs (SystemDescription.describe_of_build hg)
  rw [(SystemDescription.build_eq_ok_iff.mp hg).1.members]
  exact mem_members_of_describe hs

/-! ### A small system

A fan that is slowed down by heat. The humidity is registered, but no rule reads it. -/

/-- A variable with a numeric domain and one label. -/
private def measured (name : String) (low high : Float) (label : String) (curve : Shape Float) :
    Variable Float :=
  ⟨name, .numeric ⟨name, low, high, .count 5⟩, .ofList [(label, .shape curve)]⟩

/-- A variable that no rule reads. -/
private def humidity : Variable Float := measured "humidity" 0 100 "wet" (.triangular 60 100 100)

/-- The input. -/
private def temperature : Variable Float :=
  measured "temperature" 0 40 "hot" (.triangular 20 40 40)

/-- The target. -/
private def fan : Variable Float := measured "fan" 0 1 "fast" (.triangular 0 1 1)

/-- The system as it was put together. -/
def cooling : FuzzySystem Float where
  registry := .ofMembers [humidity, temperature, fan] (by decide) <| by
    simp only [List.forall_mem_cons, List.not_mem_nil, false_implies, implies_true, and_true]
    exact ⟨rfl, rfl, rfl⟩
  inputs := [⟨1⟩]
  rules := ⟨[⟨.not (.is ⟨1⟩ "hot"), ⟨2⟩, "fast", 0.5⟩]⟩
  target := ⟨2⟩
  context := {}

/-- Its description. -/
def describedCooling : SystemDescription Float where
  inputs := [temperature]
  rules := ⟨[⟨.not [.is "temperature" "hot"], .is "fan" "fast", 0.5⟩]⟩
  target := fan
  context := {}

/-- The system as it is built from the description: the slots have moved. -/
def reloadedCooling : FuzzySystem Float where
  registry := .ofMembers [temperature, fan] (by decide) <| by
    simp only [List.forall_mem_cons, List.not_mem_nil, false_implies, implies_true, and_true]
    exact ⟨rfl, rfl⟩
  inputs := [⟨0⟩]
  rules := ⟨[⟨.not (.is ⟨0⟩ "hot"), ⟨1⟩, "fast", 0.5⟩]⟩
  target := ⟨1⟩
  context := {}

/-! ### Main results -/

/-- A reloaded system is described by what it was loaded from, puts out the same sets and points
under every context, faults included, and has the same source text. -/
theorem reloaded_behaves_alike {s g : FuzzySystem Float} {d : SystemDescription Float}
    (hs : s.describe = .ok d) (hg : d.build = .ok g) :
    g.describe = s.describe ∧
      (∀ (inputs : Assignment Float) (ctx : Context),
        g.output inputs ctx = s.output inputs ctx ∧ g.crisp inputs ctx = s.crisp inputs ctx) ∧
      ∀ function : String, CSource.ofSystem g function = CSource.ofSystem s function := by
  have h := agree_of_reload hs hg
  refine ⟨(SystemDescription.describe_of_build hg).trans hs.symm,
    fun inputs ctx ↦ ⟨h.output_eq inputs ctx, h.crisp_eq inputs ctx⟩, fun function ↦ ?_⟩
  simp only [CSource.ofSystem, h.unit_eq]

/-- The small system is reloaded with other slots and behaves alike. -/
theorem cooling_reloaded :
    cooling.describe = .ok describedCooling ∧ describedCooling.build = .ok reloadedCooling ∧
      reloadedCooling.describe = cooling.describe ∧
        (∀ (inputs : Assignment Float) (ctx : Context),
          reloadedCooling.output inputs ctx = cooling.output inputs ctx ∧
            reloadedCooling.crisp inputs ctx = cooling.crisp inputs ctx) ∧
        ∀ function : String,
          CSource.ofSystem reloadedCooling function = CSource.ofSystem cooling function := by
  have hs : cooling.describe = .ok describedCooling := by rfl
  have hg : describedCooling.build = .ok reloadedCooling := by rfl
  exact ⟨hs, hg, reloaded_behaves_alike hs hg⟩

section Accepted

variable {r : Registry α} {inputs : List Handle} {rules : RuleBase α} {target : Handle}
  {s : FuzzySystem α}

/-- The rules of a rule base can all be built. -/
def BuiltRules (rules : RuleBase α) : Prop :=
  ∀ rule ∈ rules.rules, ∃ antecedent consequent weight,
    Rule.build antecedent consequent weight = .ok rule

/-- An accepted system is described. -/
theorem exists_describe (hs : build r inputs rules target = .ok s) (ctx : Context) :
    ∃ d, (s.withContext ctx).describe = .ok d := by
  obtain ⟨hreg, -, hsuit, rfl⟩ := build_eq_ok_iff.mp hs
  have hd : ∀ rule ∈ rules.rules, ∃ statement, rule.describe r = .ok statement := by
    intro rule hm
    obtain ⟨ha, hc⟩ := Rule.validate_eq_ok_iff.mp (hsuit rule hm).valid
    obtain ⟨a, ha⟩ := Proposition.exists_states ha
    obtain ⟨c, hc⟩ := Proposition.exists_states (p := rule.consequent) hc
    exact ⟨⟨a, c, rule.weight⟩, Rule.describe_eq_ok_iff.mpr ⟨ha, hc, rfl⟩⟩
  obtain ⟨ds, hds⟩ := exists_mapM hd
  obtain ⟨t, ht⟩ := hreg target (by simp)
  exact ⟨⟨_, ⟨ds⟩, t, ctx⟩, describe_eq_ok_iff.mpr
    ⟨RuleBase.describe_eq_ok_iff.mpr (mapM_eq_ok_iff.mp hds), ht, rfl, rfl⟩⟩

/-- The described inputs of an accepted system are the variables of its inputs. -/
theorem get_inputs_of_describe (hs : build r inputs rules target = .ok s) {ctx : Context}
    {d : SystemDescription α} (hd : (s.withContext ctx).describe = .ok d) :
    List.Forall₂ (fun h v ↦ r.get h = .ok v) inputs d.inputs := by
  obtain ⟨hreg, -, -, rfl⟩ := build_eq_ok_iff.mp hs
  obtain ⟨-, -, hi, -⟩ := describe_eq_ok_iff.mp hd
  exact (inputVariables_eq_iff fun h hm ↦ hreg h (List.mem_append_left _ hm)).mp hi

/-- Different handles stand for variables of different names. -/
theorem nodup_names_iff {hs : List Handle} {vs : List (Variable α)}
    (h : List.Forall₂ (fun k v ↦ r.get k = .ok v) hs vs) :
    (vs.map (·.name)).Nodup ↔ hs.Nodup := by
  induction h with
  | nil => simp
  | @cons k v hs vs hk hrest ih =>
    rw [List.map_cons, List.nodup_cons, List.nodup_cons, ih, List.mem_map]
    apply and_congr_left
    intro _
    apply not_congr
    constructor
    · rintro ⟨w, hw, hn⟩
      obtain ⟨k', hm, hk'⟩ := exists_left_of_mem hrest hw
      exact Registry.handle_eq_of_name_eq hk' hk hn ▸ hm
    · intro hm
      obtain ⟨w, hw, hkw⟩ := exists_right_of_mem hrest hm
      exact ⟨w, hw, by rw [Except.ok.inj (hkw.symm.trans hk)]⟩

/-- The target of an accepted system has a name of its own. -/
theorem target_name_not_mem (hs : build r inputs rules target = .ok s) {ctx : Context}
    {d : SystemDescription α} (hd : (s.withContext ctx).describe = .ok d) :
    d.target.name ∉ d.inputs.map (·.name) := by
  have hi := get_inputs_of_describe hs hd
  obtain ⟨-, hni, -, rfl⟩ := build_eq_ok_iff.mp hs
  obtain ⟨-, ht, -, -⟩ := describe_eq_ok_iff.mp hd
  intro hm
  obtain ⟨v, hv, hn⟩ := List.mem_map.mp hm
  obtain ⟨k, hk, hkv⟩ := exists_left_of_mem hi hv
  have he : k = target := Registry.handle_eq_of_name_eq hkv ht hn
  exact hni (he ▸ hk)

/-- The statement of a rule that suits an accepted system makes a rule that suits the reloaded
one. -/
theorem exists_resolve_suits (hs : build r inputs rules target = .ok s) {ctx : Context}
    {d : SystemDescription α} (hd : (s.withContext ctx).describe = .ok d) {r' : Registry α}
    {inputs' : List Handle} {target' : Handle} (hreg : d.Registered r' inputs' target')
    {rule : Rule α} (hsuit : Suits r inputs target rule) (hw : 0 < rule.weight ∧ rule.weight ≤ 1)
    {statement : RuleStatement α} (hr : rule.describe r = .ok statement) :
    ∃ resolved, statement.resolve r' = .ok resolved ∧ Suits r' inputs' target' resolved := by
  have hi := get_inputs_of_describe hs hd
  obtain ⟨-, -, -, rfl⟩ := build_eq_ok_iff.mp hs
  obtain ⟨-, ht, -, -⟩ := describe_eq_ok_iff.mp hd
  have hsub : ∀ w ∈ r'.members, w ∈ r.members := by
    rw [hreg.members]
    exact mem_members_of_describe hd
  -- The variable of an input is one of the described inputs.
  have hmem : ∀ h ∈ inputs, ∀ v, r.get h = .ok v → v ∈ d.inputs := by
    intro h hm v hv
    obtain ⟨w, hw, hkw⟩ := exists_right_of_mem hi hm
    exact Except.ok.inj (hkw.symm.trans hv) ▸ hw
  obtain ⟨resolved, hres⟩ := RuleStatement.exists_resolve hsub hr hw hsuit.valid
    (fun a ha v hv ↦ hreg.members ▸ List.mem_append_left _ (hmem _ (hsuit.reads a ha) v hv))
    (fun v hv ↦ by
      rw [hsuit.target_eq, show r.get target = .ok d.target from ht] at hv
      cases hv
      simp [hreg.members])
  have hcorr := Rule.corresponds_of_describe hr (RuleStatement.describe_of_resolve hres)
  refine ⟨resolved, hres, (RuleStatement.resolve_eq_ok_iff.mp hres).2.2.2.2, ?_, ?_⟩
  · obtain ⟨v, w, hv, hw, hn⟩ := hcorr.target
    rw [hsuit.target_eq, show r.get target = .ok d.target from ht] at hv
    cases hv
    exact Registry.handle_eq_of_name_eq hw hreg.get_target hn.symm
  · intro b hb
    obtain ⟨a, ha, ⟨v, w, hv, hw, hn⟩, -⟩ :=
      exists_left_of_mem hcorr.antecedent.valuations hb
    have hvm := hmem _ (hsuit.reads a ha) v hv
    have he : v = w := Registry.eq_of_name_eq (Registry.mem_of_get hv)
      (hsub w (Registry.mem_of_get hw)) hn
    exact hreg.mem_inputs hw (he ▸ hvm)

/-- An accepted system whose inputs are distinct can be built again. -/
theorem exists_reload (hb : BuiltRules rules) (hs : build r inputs rules target = .ok s)
    {ctx : Context} {d : SystemDescription α} (hd : (s.withContext ctx).describe = .ok d)
    (hn : inputs.Nodup) : ∃ g, d.build = .ok g := by
  have hnames : ((d.inputs ++ [d.target]).map (·.name)).Nodup := by
    rw [List.map_append, List.map_singleton, ← List.concat_eq_append]
    exact ((nodup_names_iff (get_inputs_of_describe hs hd)).mpr hn).concat
      (target_name_not_mem hs hd)
  obtain ⟨-, -, hsuit, he⟩ := build_eq_ok_iff.mp hs
  have hmem := mem_members_of_describe hd
  rw [he] at hmem
  let r' : Registry α :=
    .ofMembers (d.inputs ++ [d.target]) hnames fun v hv ↦ r.validate_eq_ok v (hmem v hv)
  have hreg : d.Registered r' ((List.range d.inputs.length).map Handle.mk) ⟨d.inputs.length⟩ :=
    ⟨rfl, rfl, rfl⟩
  have hr := RuleBase.describe_eq_ok_iff.mp (describe_eq_ok_iff.mp hd).1
  rw [he] at hr
  -- Every described rule resolves to one that suits the new registry.
  have hres : ∀ statement ∈ d.rules.rules, ∃ resolved, statement.resolve r' = .ok resolved ∧
      Suits r' ((List.range d.inputs.length).map Handle.mk) ⟨d.inputs.length⟩ resolved := by
    intro statement hm
    obtain ⟨rule, hrule, hdesc⟩ := exists_left_of_mem hr hm
    obtain ⟨antecedent, consequent, weight, hbuilt⟩ := hb rule hrule
    obtain ⟨hw, -, -, rfl⟩ := Rule.build_eq_ok_iff.mp hbuilt
    exact exists_resolve_suits hs hd hreg (hsuit rule hrule) hw hdesc
  obtain ⟨resolved, hok⟩ := exists_mapM fun st hm ↦ (hres st hm).imp fun _ h ↦ h.1
  have hok := mapM_eq_ok_iff.mp hok
  refine ⟨⟨r', _, ⟨resolved⟩, _, d.context⟩, SystemDescription.build_eq_ok_iff.mpr
    ⟨hreg, RuleBaseStatement.resolve_eq_ok_iff.mpr hok, ?_, rfl⟩⟩
  intro rule hrule
  obtain ⟨statement, hm, hst⟩ := exists_left_of_mem hok hrule
  obtain ⟨other, hother, hsuits⟩ := hres statement hm
  exact Except.ok.inj (hother.symm.trans hst) ▸ hsuits

/-- A system with an input that is listed twice is refused by the name of such an input. -/
theorem build_eq_duplicate (hs : build r inputs rules target = .ok s) {ctx : Context}
    {d : SystemDescription α} (hd : (s.withContext ctx).describe = .ok d) (hn : ¬ inputs.Nodup) :
    ∃ v ∈ d.inputs, d.build = .error (.system (.duplicateVariable v.name)) := by
  have hnames := mt (nodup_names_iff (get_inputs_of_describe hs hd)).mp hn
  have hmem := mem_members_of_describe hd
  obtain ⟨v, hv, he⟩ := Registry.addAll_eq_duplicate (r := Registry.empty)
    (fun v hv ↦ Registry.validate_eq_ok _ v (hmem v (List.mem_append_left _ hv))) hnames
  exact ⟨v, hv, by simp only [SystemDescription.build, he, error_bind]⟩

/-- An accepted system is described under every context, and its description can be built again
exactly when no input is listed twice. One that is listed twice is named by the fault. -/
theorem reload_iff_nodup_inputs (hb : BuiltRules rules)
    (hs : build r inputs rules target = .ok s) (ctx : Context) :
    ∃ d, (s.withContext ctx).describe = .ok d ∧
      ((∃ g, d.build = .ok g) ↔ inputs.Nodup) ∧
      (¬ inputs.Nodup →
        ∃ v ∈ d.inputs, d.build = .error (.system (.duplicateVariable v.name))) := by
  obtain ⟨d, hd⟩ := exists_describe hs ctx
  refine ⟨d, hd, ⟨?_, exists_reload hb hs hd⟩, build_eq_duplicate hs hd⟩
  rintro ⟨g, hg⟩
  by_contra hn
  obtain ⟨v, -, he⟩ := build_eq_duplicate hs hd hn
  rw [hg] at he
  cases he

/-- The small system is accepted, and its single input makes it one that can be built again. -/
theorem cooling_reload_iff :
    BuiltRules cooling.rules ∧
      build cooling.registry cooling.inputs cooling.rules cooling.target = .ok cooling ∧
        ∃ d, (cooling.withContext {}).describe = .ok d ∧
          ((∃ g, d.build = .ok g) ↔ cooling.inputs.Nodup) ∧
          (¬ cooling.inputs.Nodup →
            ∃ v ∈ d.inputs, d.build = .error (.system (.duplicateVariable v.name))) := by
  have hb : BuiltRules cooling.rules := by
    intro rule hm
    rw [List.mem_singleton.mp hm]
    exact ⟨.not (.is ⟨1⟩ "hot"), .is ⟨2⟩ "fast", 0.5, by rfl⟩
  have hs : build cooling.registry cooling.inputs cooling.rules cooling.target = .ok cooling := by
    rfl
  exact ⟨hb, hs, reload_iff_nodup_inputs hb hs {}⟩

/-- The small system with its input listed twice is accepted and described, but not built again. -/
theorem cooling_listed_twice_not_reloaded :
    ∃ s d, build cooling.registry [⟨1⟩, ⟨1⟩] cooling.rules cooling.target = .ok s ∧
      s.describe = .ok d ∧ d.build = .error (.system (.duplicateVariable "temperature")) :=
  ⟨⟨cooling.registry, [⟨1⟩, ⟨1⟩], cooling.rules, cooling.target, {}⟩,
    { describedCooling with inputs := [temperature, temperature] }, by rfl, by rfl, by rfl⟩

end Accepted

end FuzzySystem

end FuzzyInference
