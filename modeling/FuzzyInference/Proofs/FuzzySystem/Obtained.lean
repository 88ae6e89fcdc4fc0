import FuzzyInference.Proofs.FisText.Reader
import FuzzyInference.Proofs.FuzzySystem.WellFormed
import FuzzyInference.Proofs.Interchange.FuzzySystem

/-!
# Systems that can be obtained

The ways to a system: putting it together from built rules, building it from a description or a
stored text, reading it from a `.fis` text, and changing its context. Whatever was given to them,
the system that they lead to is well-formed; and what is put together from registered variables and
built rules is accepted exactly when it is well-formed.
-/

namespace FuzzyInference

open Result

variable {α : Type} [Scalar α]

/-- The rules of a resolved rule base were built. -/
theorem RuleBaseStatement.builtRules_of_resolve {r : Registry α} {statements : RuleBaseStatement α}
    {rules : RuleBase α} (h : statements.resolve r = .ok rules) :
    FuzzySystem.BuiltRules rules := by
  rw [FuzzySystem.builtRules_iff]
  intro rule hrule
  obtain ⟨statement, -, hresolve⟩ := exists_left_of_mem (resolve_eq_ok_iff.mp h) hrule
  obtain ⟨-, -, hweight, heq, -⟩ := RuleStatement.resolve_eq_ok_iff.mp hresolve
  rw [heq]
  exact hweight

namespace FuzzySystem

/-- A system that some way leads to. -/
inductive Obtained : FuzzySystem α → Prop
  /-- It was put together from registered variables and built rules. -/
  | built {r : Registry α} {inputs : List Handle} {rules : RuleBase α} {target : Handle}
    {s : FuzzySystem α} :
    BuiltRules rules → build r inputs rules target = .ok s → Obtained s
  /-- It was built from a description. -/
  | described {d : SystemDescription α} {s : FuzzySystem α} : d.build = .ok s → Obtained s
  /-- It was read from a `.fis` text. -/
  | read {text : String} {steps : Steps α} {s : FuzzySystem α} :
    FisText.readSystem text steps = .ok s → Obtained s
  /-- It was given another context. -/
  | withContext {s : FuzzySystem α} (ctx : Context) : Obtained s → Obtained (s.withContext ctx)

section WellFormed

variable [Scalar.OrderedFinite α]

/-- What is put together from built rules is accepted exactly when it is well-formed. -/
theorem build_eq_ok_iff_wellFormed {r : Registry α} {inputs : List Handle} {rules : RuleBase α}
    {target : Handle} {s : FuzzySystem α} (hrules : BuiltRules rules) :
    build r inputs rules target = .ok s ↔ s = ⟨r, inputs, rules, target, {}⟩ ∧ s.WellFormed := by
  constructor
  · intro h
    obtain ⟨-, -, -, hs⟩ := build_eq_ok_iff.mp h
    rw [hs] at h ⊢
    exact ⟨rfl, wellFormed_iff_build.mpr ⟨hrules, h⟩⟩
  · rintro ⟨rfl, hs⟩
    exact (wellFormed_iff_build.mp hs).2

/-- Whatever way led to a system, it is well-formed. -/
theorem Obtained.wellFormed {s : FuzzySystem α} (h : s.Obtained) : s.WellFormed := by
  induction h with
  | built hrules hs => exact ((build_eq_ok_iff_wellFormed hrules).mp hs).2
  | @described d s hs =>
    obtain ⟨hregistered, hrules, hsuits, -⟩ := SystemDescription.build_eq_ok_iff.mp hs
    have hbuild := build_eq_ok_iff.mpr ⟨hregistered.exists_get, hregistered.target_not_mem,
      hsuits, rfl⟩
    exact wellFormed_iff_build.mpr
      ⟨RuleBaseStatement.builtRules_of_resolve hrules, hbuild⟩
  | read hs =>
    obtain ⟨_, _, _, _, _, ctx, hrules, hbuild, rfl⟩ := FisText.exists_build_of_readSystem hs
    exact ((build_eq_ok_iff_wellFormed hrules).mp hbuild).2.withContext ctx
  | withContext ctx _ ih => exact ih.withContext ctx

end WellFormed

/-- Variables are all registered exactly when their names are distinct and they are well-formed. -/
theorem exists_addAll_iff [Scalar.OrderedFinite α] {vs : List (Variable α)} :
    (∃ r hs, Registry.empty.addAll vs = .ok (r, hs)) ↔
      (vs.map (·.name)).Nodup ∧ ∀ v ∈ vs, v.WellFormed := by
  constructor
  · rintro ⟨r, hs, h⟩
    obtain ⟨hmembers, -⟩ := Registry.of_addAll_eq_ok h
    have hmembers : r.members = vs := hmembers
    rw [← hmembers]
    exact ⟨r.names_nodup, wellFormed_of_mem⟩
  · rintro ⟨hnames, hvs⟩
    exact Registry.exists_addAll (fun v hv ↦ Variable.validate_eq_ok_iff.mpr (hvs v hv)) hnames

/-- A stored text leads to a system by way of its description. -/
theorem obtained_of_ofText {text : String} {s : FuzzySystem Float} (h : ofText text = .ok s) :
    s.Obtained := by
  obtain ⟨_, -, hd⟩ := bind_eq_ok_iff.mp h
  exact .described hd

/-! ### Main results -/

/-- Registering accepts exactly lists of well-formed variables with distinct names. From registered
variables and built rules a system is put together exactly when it is well-formed. Every system
that is built from a description or a stored text or read from a `.fis` text is well-formed, and
remains so under every context. -/
theorem only_wellFormed :
    (∀ vs : List (Variable Float), (∃ r hs, Registry.empty.addAll vs = .ok (r, hs)) ↔
      (vs.map (·.name)).Nodup ∧ ∀ v ∈ vs, v.WellFormed) ∧
    (∀ (r : Registry Float) (inputs : List Handle) (rules : RuleBase Float) (target : Handle),
      BuiltRules rules → ∀ s, build r inputs rules target = .ok s ↔
        s = ⟨r, inputs, rules, target, {}⟩ ∧ s.WellFormed) ∧
    (∀ (d : SystemDescription Float) (s : FuzzySystem Float), d.build = .ok s → s.WellFormed) ∧
    (∀ (text : String) (s : FuzzySystem Float), ofText text = .ok s → s.WellFormed) ∧
    (∀ (text : String) (steps : Steps Float) (s : FuzzySystem Float),
      FisText.readSystem text steps = .ok s → s.WellFormed) ∧
    ∀ (s : FuzzySystem Float) (ctx : Context), s.WellFormed → (s.withContext ctx).WellFormed :=
  ⟨fun _ ↦ exists_addAll_iff,
    fun _ _ _ _ hrules _ ↦ build_eq_ok_iff_wellFormed hrules,
    fun _ _ h ↦ (Obtained.described h).wellFormed,
    fun _ _ h ↦ (obtained_of_ofText h).wellFormed,
    fun _ _ _ h ↦ (Obtained.read h).wellFormed,
    fun _ ctx h ↦ h.withContext ctx⟩

/-- A `.fis` text with one rule. -/
def heatText : String :=
  "[System]\nType=mamdani\nNumInputs=1\nNumOutputs=1\n" ++
    "[Input1]\nName=heat\nRange=0 9\nNumMFs=1\nMF1='hot':'smf',[2 5]\n" ++
    "[Output1]\nName=fan\nRange=0 1\nNumMFs=1\nMF1='fast':'zmf',[0 1]\n" ++
    "[Rules]\n-1, 1 (1) : 1\n"

/-- The small system is put together, built from its description and read from its stored text; the
text with one rule is read as well. All of them are well-formed, under another context too. -/
theorem cooling_and_heat_wellFormed :
    (build cooling.registry cooling.inputs cooling.rules cooling.target = .ok cooling ∧
      cooling.WellFormed) ∧
    (describedCooling.build = .ok reloadedCooling ∧ reloadedCooling.WellFormed) ∧
    (ofText describedCooling.toJson.indented = .ok reloadedCooling ∧
      reloadedCooling.WellFormed) ∧
    ∃ s : FuzzySystem Float, FisText.readSystem heatText (.count 5) = .ok s ∧ s.WellFormed ∧
      (s.withContext { disjunction := .boundedSum }).WellFormed := by
  obtain ⟨-, hbuild, hdescribed, hstored, hread, hcontext⟩ := only_wellFormed
  have hrules : BuiltRules cooling.rules := by
    intro rule hrule
    rw [List.mem_singleton.mp hrule]
    exact ⟨.not (.is ⟨1⟩ "hot"), .is ⟨2⟩ "fast", 0.5, by rfl⟩
  have hcooling : build cooling.registry cooling.inputs cooling.rules cooling.target =
      .ok cooling := by rfl
  have hreloaded : describedCooling.build = .ok reloadedCooling := by rfl
  have htext : ofText describedCooling.toJson.indented = .ok reloadedCooling := by
    rw [ofText, SystemDescription.readDescription_indented (d := describedCooling)
      (by decide +kernel) (by decide +kernel) (by decide +kernel)]
    rfl
  have hheat : (FisText.readSystem (α := Float) heatText (.count 5)).isOk = true := by
    decide +kernel
  obtain ⟨s, hs⟩ : ∃ s, FisText.readSystem (α := Float) heatText (.count 5) = .ok s := by
    cases h : FisText.readSystem (α := Float) heatText (.count 5) with
    | ok s => exact ⟨s, rfl⟩
    | error fault =>
      rw [h] at hheat
      cases hheat
  exact ⟨⟨hcooling, ((hbuild _ _ _ _ hrules _).mp hcooling).2⟩,
    ⟨hreloaded, hdescribed _ _ hreloaded⟩, ⟨htext, hstored _ _ htext⟩,
    s, hs, hread _ _ _ hs, hcontext _ _ (hread _ _ _ hs)⟩

end FuzzySystem

end FuzzyInference
