import FuzzyInference.Proofs.CSource.Printed
import FuzzyInference.Proofs.CSource.Unit
import FuzzyInference.Proofs.CSource.Vocabulary
import FuzzyInference.Proofs.CSource.WellFormed

/-!
# The text of generated units

The text of the unit of an accepted system is read as its functions, wherever the numbers in it are
read as what was written. What is read defines what the unit does.
-/

namespace FuzzyInference.CSource

open Expression

section Fixed

variable {α : Type} [Scalar α] {sp : Spelling α} {e : Expression α}

/-- The numbers that stand in every unit. -/
def smallNumbers : List α := [0, 1, 2]

/-- The numbers that stand in every unit are read back, and are written without a sign. -/
structure Spelling.Common (sp : Spelling α) : Prop where
  /-- They are read back. -/
  readsBack : ∀ x ∈ smallNumbers, sp.ReadsBack x
  /-- They have no sign. -/
  signed_eq : ∀ x ∈ smallNumbers, sp.signed x = false

/-- A word that needs nothing else to be read back. -/
def Token.IsFixed : Token α → Prop
  | .number x => x ∈ (smallNumbers : List α)
  | .name s => isPlainName s = true
  | _ => True

/-- Such an expression is read as it was written. -/
theorem spelled_of_isFixed (hsp : sp.Common) (he : ∀ w ∈ e, w.IsFixed) : e.spelled sp = e :=
  spelled_eq_self (fun x hx ↦ hsp.readsBack x (he _ hx)) fun x hx ↦ hsp.signed_eq x (he _ hx)

/-- An ordered expression of such words is sound. -/
theorem Expression.Sound.of_isFixed (hsp : sp.Common) (he : ∀ w ∈ e, w.IsFixed)
    (hordered : e.Ordered sp) : e.Sound sp where
  legible := ⟨fun x hx ↦ hsp.readsBack x (he _ hx), fun s hs ↦ he _ hs⟩
  ordered := hordered
  value_eq functions env := by rw [spelled_of_isFixed hsp he]

/-- A sound expression that is read as it was written. -/
structure Expression.Kept (sp : Spelling α) (e : Expression α) : Prop extends e.Sound sp where
  /-- It spells itself. -/
  spelled_eq : e.spelled sp = e

/-- An ordered expression of such words is read as it was written. -/
theorem Expression.Kept.of_isFixed (hsp : sp.Common) (he : ∀ w ∈ e, w.IsFixed)
    (hordered : e.Ordered sp) : e.Kept sp :=
  ⟨.of_isFixed hsp he hordered, spelled_of_isFixed hsp he⟩

/-- A function with plain names is sound if its body is. -/
theorem Function.Sound.of_body {f : Function α}
    (hnames : (f.name :: f.parameters).all isPlainName = true) (hne : f.parameters ≠ [])
    (hbody : BodySound sp f.body) : f.Sound sp := by
  rw [List.all_cons, Bool.and_eq_true, List.all_eq_true] at hnames
  exact ⟨hnames.1, hne, hnames.2, hbody⟩

/-- The functions of the prelude are sound. -/
theorem prelude_sound (hsp : sp.Common) : ∀ f ∈ (prelude : List (Function α)), f.Sound sp := by
  simp only [prelude, List.forall_mem_cons, List.not_mem_nil, false_implies, implies_true, and_true]
  refine ⟨?_, ?_, ?_, ?_, ?_, ?_, ?_, ?_⟩
  · refine .of_body (by simp +decide [lerpFunction]) (List.cons_ne_nil _ _)
      ⟨.of_isFixed hsp ?_ rfl, trivial⟩
    simp +decide [choice, grouped, Token.IsFixed]
  · refine .of_body (by simp +decide [triangularFunction]) (List.cons_ne_nil _ _)
      ⟨⟨.of_isFixed hsp ?_ rfl, .of_isFixed hsp ?_ rfl⟩, ⟨.of_isFixed hsp ?_ rfl,
        .of_isFixed hsp ?_ rfl⟩, .of_isFixed hsp ?_ rfl, trivial⟩
    all_goals simp +decide [edge, choice, grouped, Token.IsFixed, smallNumbers]
  · refine .of_body (by simp +decide [trapezoidalFunction]) (List.cons_ne_nil _ _)
      ⟨⟨.of_isFixed hsp ?_ rfl, .of_isFixed hsp ?_ rfl⟩, ⟨.of_isFixed hsp ?_ rfl,
        .of_isFixed hsp ?_ rfl⟩, ⟨.of_isFixed hsp ?_ rfl, .of_isFixed hsp ?_ rfl⟩,
        .of_isFixed hsp ?_ rfl, trivial⟩
    all_goals simp +decide [edge, choice, grouped, Token.IsFixed, smallNumbers]
  · refine .of_body (by simp +decide [gaussianFunction]) (List.cons_ne_nil _ _)
      ⟨.of_isFixed hsp ?_ rfl, trivial⟩
    simp +decide [call, joined, grouped, Token.IsFixed, smallNumbers]
  · refine .of_body (by simp +decide [twoSidedGaussianFunction]) (List.cons_ne_nil _ _)
      ⟨⟨.of_isFixed hsp ?_ rfl, .of_isFixed hsp ?_ rfl⟩, ⟨.of_isFixed hsp ?_ rfl,
        .of_isFixed hsp ?_ rfl⟩, .of_isFixed hsp ?_ rfl, trivial⟩
    all_goals simp +decide [call, joined, grouped, Token.IsFixed, smallNumbers]
  · refine .of_body (by simp +decide [bellFunction]) (List.cons_ne_nil _ _)
      ⟨.of_isFixed hsp ?_ rfl, trivial⟩
    simp +decide [call, joined, grouped, Token.IsFixed, smallNumbers]
  · refine .of_body (by simp +decide [sigmoidFunction]) (List.cons_ne_nil _ _)
      ⟨.of_isFixed hsp ?_ rfl, trivial⟩
    simp +decide [call, joined, grouped, Token.IsFixed, smallNumbers]
  · refine .of_body (by simp +decide [sShapedFunction]) (List.cons_ne_nil _ _)
      ⟨⟨.of_isFixed hsp ?_ rfl, .of_isFixed hsp ?_ rfl⟩, ⟨.of_isFixed hsp ?_ rfl,
        .of_isFixed hsp ?_ rfl⟩, ⟨.of_isFixed hsp ?_ rfl, .of_isFixed hsp ?_ rfl⟩,
        .of_isFixed hsp ?_ rfl, trivial⟩
    all_goals simp +decide [call, joined, grouped, Token.IsFixed, smallNumbers]

omit [Scalar α] in
private theorem readAll_names {names : List String} (hne : names ≠ []) :
    ReadAll (α := α) (names.map fun s ↦ [.name s]) (names.map .variable) := by
  induction names with
  | nil => exact absurd rfl hne
  | cons name names ih =>
    have hname : Reads (α := α) 8 [.name name] (.variable name) :=
      (Reads.variable name).of_le (by decide)
    cases names with
    | nil => exact .one hname
    | cons other names => exact .more hname (ih (List.cons_ne_nil _ _))

private theorem kept_call_names (hsp : sp.Common) {function : String} (names : List String)
    (hne : names ≠ []) (hfunction : isPlainName function = true)
    (hnames : ∀ s ∈ names, isPlainName s = true) :
    Expression.Kept sp (call function (names.map fun s ↦ [.name s])) := by
  have hword {w : Token α} (hw : w ∈ joined .comma (names.map fun s ↦ [.name s])) :
      w = .comma ∨ ∃ s ∈ names, w = .name s := by
    simpa using mem_joined hw
  refine .of_isFixed hsp ?_ ((Reads.call (readAll_names hne)).walk (fun hm ↦ ?_) 0)
  · simp only [call, grouped, List.forall_mem_cons, List.forall_mem_append]
    refine ⟨hfunction, ⟨trivial, fun w hw ↦ ?_⟩, trivial, List.forall_mem_nil _⟩
    obtain rfl | ⟨s, hs, rfl⟩ := hword hw
    · trivial
    · exact hnames s hs
  · simp only [call, grouped, List.mem_cons, List.mem_append, reduceCtorEq, List.not_mem_nil,
      false_or, or_false] at hm
    obtain h | ⟨s, -, h⟩ := hword hm <;> cases h

/-- The name of the function for the centroid is plain. -/
theorem isPlainName_crispName {function : String} (h : isUsable function = true) :
    isPlainName (crispName function) = true := by
  have hidentifier := isIdentifier_crispName (isUsable_eq_true_iff.mp h).identifier
  obtain ⟨-, -, -, hnot⟩ := crispName_not_mem function
  exact isPlainName_of_not_mem (isIdentifier_iff.mpr hidentifier) hnot (by decide)

variable {s : FuzzySystem α} {function : String} {u : SourceUnit α}

/-- The names in a unit are usable. -/
theorem SourceUnit.isUsable_names (hu : SourceUnit.ofSystem s function = .ok u) :
    ∀ name ∈ u.function :: u.target :: u.inputs, isUsable name = true := by
  obtain ⟨husable, v, _, -, hp, hi, -, hfunction, ht, hin, -⟩ := SourceUnit.of_ofSystem hu
  rw [hfunction, ht, hin, List.forall_mem_cons, List.forall_mem_cons, List.forall_mem_map]
  exact ⟨husable, (requireParameter_eq_ok_iff.mp hp).2, isUsable_of_requireInputs hi⟩

/-- The function for the centroid of a unit is sound, and is read as it was written, but for the
blank lines. -/
theorem SourceUnit.crispFunction_asRead (hu : SourceUnit.ofSystem s function = .ok u)
    (hsp : sp.Common) :
    u.crispFunction.Sound sp ∧ u.crispFunction.asRead sp = u.crispFunction.withoutGaps := by
  have husable := isUsable_names hu
  rw [List.forall_mem_cons, List.forall_mem_cons] at husable
  obtain ⟨hfunction, -, hinputs⟩ := husable
  have hinputs : ∀ name ∈ u.inputs, isPlainName name = true :=
    fun name hname ↦ isPlainName_of_isUsable (hinputs name hname)
  obtain ⟨-, -, steps, -, -, -, -, -, -, -, hmesh⟩ := SourceUnit.of_ofSystem hu
  have hmeshes : u.mesh.count.Kept sp ∧ u.mesh.step.Kept sp ∧ u.mesh.point.Kept sp := by
    rw [hmesh]
    cases steps <;>
      refine ⟨.of_isFixed hsp ?_ rfl, .of_isFixed hsp ?_ rfl, .of_isFixed hsp ?_ rfl⟩ <;>
      simp +decide [MeshLoop.ofSteps, choice, grouped, call, joined, Token.IsFixed, literal,
        smallNumbers]
  obtain ⟨hcount, hstep, hpoint⟩ := hmeshes
  have hcall := kept_call_names hsp ("x" :: u.inputs) (List.cons_ne_nil _ _)
    (isPlainName_of_isUsable hfunction) (List.forall_mem_cons.mpr ⟨by decide, hinputs⟩)
  have hzero : Expression.Kept sp (literal 0) :=
    .of_isFixed hsp (by simp [literal, Token.IsFixed, smallNumbers]) rfl
  have hweighted : Expression.Kept sp [.name "x", .times, .name "mu"] :=
    .of_isFixed hsp (by simp +decide [Token.IsFixed]) rfl
  have hdegree : Expression.Kept sp [.name "mu"] :=
    .of_isFixed hsp (by simp +decide [Token.IsFixed]) rfl
  have hquotient : Expression.Kept sp [.name "num", .slash, .name "den"] :=
    .of_isFixed hsp (by simp +decide [Token.IsFixed]) rfl
  have hnames : (crispName u.function :: "min_val" :: "max_val" :: "steps" :: u.inputs).all
      isPlainName = true := by
    have hinputs : u.inputs.all isPlainName = true := List.all_eq_true.mpr hinputs
    simp only [List.all_cons, isPlainName_crispName hfunction, hinputs]
    decide
  have hfloating {name : String} {e : Expression α} (hname : isPlainName name = true)
      (he : e.Kept sp) : (Statement.floating [(name, e)]).Sound sp :=
    ⟨List.cons_ne_nil _ _, List.forall_mem_singleton.mpr ⟨hname, he.toSound⟩⟩
  have hsums : (Statement.floating [("num", literal (0 : α)), ("den", literal 0)]).Sound sp :=
    ⟨List.cons_ne_nil _ _, by simp +decide [hzero.toSound]⟩
  constructor
  · exact .of_body hnames (List.cons_ne_nil _ _) ⟨⟨by decide, hcount.toSound⟩,
      hfloating (by decide) hstep, hsums, (by decide : isPlainName "i" = true), trivial,
      ⟨by decide, by decide, hfloating (by decide) hpoint, hfloating (by decide) hcall,
        ⟨by decide, hweighted.toSound⟩, ⟨by decide, hdegree.toSound⟩, trivial⟩,
      trivial, hquotient.toSound, trivial⟩
  · simpa [crispFunction, Function.asRead, Function.withoutGaps, Statement.isGap, bodyAsRead,
      Statement.asRead, hcount.spelled_eq, hstep.spelled_eq, hpoint.spelled_eq, hzero.spelled_eq,
      hweighted.spelled_eq, hdegree.spelled_eq, hquotient.spelled_eq] using hcall.spelled_eq

end Fixed

/-! ### Accepted systems -/

/-- All of some variables are given zero. -/
noncomputable def allZero (names : List String) : Assignment Exact where
  values.entries := names.dedup.map fun s ↦ (s, .number (.number 0))
  values.nodup := by
    rw [List.map_map]
    exact (List.map_id _).symm ▸ names.nodup_dedup

private theorem givenRow_allZero (vs : List (Variable Exact)) :
    GivenRow (allZero (vs.map (·.name))) vs (vs.map fun _ ↦ 0) := by
  rw [GivenRow, List.forall₂_map_right_iff, List.forall₂_same]
  intro v hv
  have hentry : (v.name, Point.number (Exact.number 0)) ∈
      (allZero (vs.map (·.name))).values.entries :=
    List.mem_map_of_mem (List.mem_dedup.mpr (List.mem_map_of_mem hv))
  rw [Assignment.get, Table.get?_eq_some_iff.mpr hentry]

section Accepted

variable {r : Registry Exact} {ctx : Context} {handles : List Handle} {rules : RuleBase Exact}
  {target : Handle} {s : FuzzySystem Exact} {function : String} {u : SourceUnit Exact}
  {sp : Spelling Exact}

/-- The expression for the degree is one of the grammar. -/
theorem SourceUnit.exists_reads_degree (hb : FuzzySystem.build r handles rules target = .ok s)
    (hu : SourceUnit.ofSystem (s.withContext ctx) function = .ok u) :
    ∃ t, Reads 8 u.degree t := by
  obtain ⟨_, _, t, ht, -⟩ := degree_means hb hu (givenRow_allZero s.inputVariables) 0
  exact ⟨t, ht.of_le (by decide)⟩

/-- The names in the expression for the degree are those of the target and of the inputs. -/
theorem SourceUnit.isFrom_degree (hb : FuzzySystem.build r handles rules target = .ok s)
    (hu : SourceUnit.ofSystem (s.withContext ctx) function = .ok u) :
    u.degree.IsFrom (u.target :: u.inputs) := by
  have hreads : ∀ rule ∈ rules.rules, ∀ a ∈ rule.antecedent.valuations, ∀ w, r.get a.1 = .ok w →
      w ∈ s.inputVariables :=
    fun _ hrule _ ha _ hw ↦ (mem_inputVariables_of_reads hb hrule ha hw).1
  obtain ⟨-, -, -, rfl⟩ := FuzzySystem.build_eq_ok_iff.mp hb
  obtain ⟨-, v, _, _, _, _, ho, -, ht, hin, -⟩ := SourceUnit.of_ofSystem hu
  refine isFrom_output (ht ▸ List.mem_cons_self) (fun rule hrule a ha w hw ↦ ?_) ho
  rw [hin]
  exact List.mem_cons_of_mem _ (List.mem_map_of_mem (hreads rule hrule a ha w hw))

/-- The numbers of a unit are read back, those of its own and those that stand in every unit. -/
structure SourceUnit.ReadsBack (sp : Spelling Exact) (u : SourceUnit Exact) : Prop where
  /-- The numbers in the expression for the degree are read back. -/
  degree : u.degree.Writes sp.ReadsBack
  /-- The numbers that stand in every unit are read back, and have no sign. -/
  common : sp.Common

/-- The functions of the unit of an accepted system are sound. -/
theorem SourceUnit.functions_sound (hb : FuzzySystem.build r handles rules target = .ok s)
    (hu : SourceUnit.ofSystem (s.withContext ctx) function = .ok u) (hsp : u.ReadsBack sp) :
    ∀ f ∈ u.functions, f.Sound sp := by
  have hnames := isUsable_names hu
  rw [List.forall_mem_cons] at hnames
  obtain ⟨t, ht⟩ := exists_reads_degree hb hu
  have hnumber : ∀ x, .number x ∈ u.degree → sp.ReadsBack x :=
    fun x hx ↦ hsp.degree x (mem_numbers_iff.mpr hx)
  have hfrom := isFrom_degree hb hu
  have hdegree : u.degree.Sound sp :=
    ⟨hfrom.legible hnames.2 hnumber, ht.walk (fun hm ↦ hfrom _ hm) 0,
      valueOf_spelled (Nat.le_refl 8) ht hnumber⟩
  have hplain : (u.function :: u.target :: u.inputs).all isPlainName = true :=
    List.all_eq_true.mpr (List.forall_mem_cons.mpr ⟨isPlainName_of_isUsable hnames.1,
      fun name hname ↦ isPlainName_of_isUsable (hnames.2 name hname)⟩)
  rw [functions, List.forall_mem_append, List.forall_mem_cons, List.forall_mem_singleton]
  exact ⟨prelude_sound hsp.common, .of_body hplain (List.cons_ne_nil _ _) ⟨hdegree, trivial⟩,
    (crispFunction_asRead hu hsp.common).1⟩

end Accepted

end FuzzyInference.CSource
