import FuzzyInference.Proofs.CSource.Acceptance
import FuzzyInference.Proofs.CSource.Literal
import FuzzyInference.Proofs.CSource.Numbers
import FuzzyInference.Proofs.FuzzySystem.Obtained
import FuzzyInference.Proofs.Scalar.Count

/-!
# Well-formed units

What makes a generated unit well-formed as far as its names and literals go, and which units are.
The names that are refused are fewer than the keywords of the language, an input that is listed
twice becomes two parameters, and a table may have a key that is read as no finite number; wherever
a system comes from, its unit is well-formed exactly if none of the three is the case.
-/

namespace FuzzyInference

open Result

namespace CSource

/-! ### Names -/

/-- The keywords of the language. -/
def keywords : List String :=
  ["auto", "break", "case", "char", "const", "continue", "default", "do", "double", "else", "enum",
    "extern", "float", "for", "goto", "if", "inline", "int", "long", "register", "restrict",
    "return", "short", "signed", "sizeof", "static", "struct", "switch", "typedef", "union",
    "unsigned", "void", "volatile", "while", "_Bool", "_Complex", "_Imaginary"]

/-- The functions of the language's library that are called. -/
def libraryFunctions : List String := ["exp", "pow", "fabs", "fmin", "fmax", "ceil"]

/-- A letter or an underscore. -/
def IsNondigit (c : Char) : Prop := ('a' ≤ c ∧ c ≤ 'z') ∨ ('A' ≤ c ∧ c ≤ 'Z') ∨ c = '_'

instance : DecidablePred IsNondigit := fun _ ↦ inferInstanceAs (Decidable (_ ∨ _ ∨ _))

/-- A name that begins with a letter or an underscore and goes on with these and digits. -/
def IsIdentifier (name : String) : Prop :=
  ∃ c cs, name.toList = c :: cs ∧ IsNondigit c ∧ ∀ d ∈ cs, IsNondigit d ∨ ('0' ≤ d ∧ d ≤ '9')

variable {α : Type}

mutual

/-- The local variables that a statement declares. -/
def Statement.locals : Statement α → List String
  | .result _ | .resultIf _ _ | .increase _ _ | .gap => []
  | .index name => [name]
  | .whole name _ => [name]
  | .floating locals => locals.map Prod.fst
  | .loop _ _ body => bodyLocals body

/-- The local variables that a body declares. -/
def bodyLocals : List (Statement α) → List String
  | [] => []
  | statement :: rest => statement.locals ++ bodyLocals rest

end

mutual

/-- The expressions in a statement. -/
def Statement.expressions : Statement α → List (Expression α)
  | .result value => [value]
  | .resultIf condition value => [condition, value]
  | .index _ => []
  | .whole _ value => [value]
  | .floating locals => locals.map Prod.snd
  | .increase _ value => [value]
  | .loop _ _ body => bodyExpressions body
  | .gap => []

/-- The expressions in a body. -/
def bodyExpressions : List (Statement α) → List (Expression α)
  | [] => []
  | statement :: rest => statement.expressions ++ bodyExpressions rest

end

namespace Function

/-- The local variables of a function. -/
def locals (f : Function α) : List String := bodyLocals f.body

/-- The names that a function declares: its parameters and its local variables. -/
def declared (f : Function α) : List String := f.parameters ++ f.locals

/-- The numbers that a function has literals of. -/
def numbers (f : Function α) : List α := (bodyExpressions f.body).flatMap Expression.numbers

end Function

/-- A unit whose names and literals are sound. -/
structure SourceUnit.WellFormed (u : SourceUnit Float) : Prop where
  /-- The names of functions and variables are identifiers. -/
  identifiers : ∀ f ∈ u.functions, ∀ name ∈ f.name :: f.declared, IsIdentifier name
  /-- None of them is a keyword. -/
  not_keywords : ∀ f ∈ u.functions, ∀ name ∈ f.name :: f.declared, name ∉ keywords
  /-- No two functions have one name, be they defined in the unit or called from the library. -/
  functions_nodup : (u.functions.map (·.name) ++ libraryFunctions).Nodup
  /-- The parameters and local variables of a function are distinct. -/
  declared_nodup : ∀ f ∈ u.functions, f.declared.Nodup
  /-- No variable of a generated function has the name of a function. -/
  unshadowed : ∀ f ∈ [u.degreeFunction, u.crispFunction], ∀ name ∈ f.declared,
    name ∉ u.functions.map (·.name) ++ libraryFunctions
  /-- Every literal is that of a finite number. -/
  literals : ∀ f ∈ u.functions, ∀ x ∈ f.numbers, IsNumericLiteral (Layout.literal.render x)

/-! ### Usable names -/

/-- The characters that names may begin with. -/
theorem startsName_iff {c : Char} : startsName c = true ↔ IsNondigit c := by
  rw [startsName, IsNondigit, Char.isAlpha, Char.isUpper, Char.isLower]
  simp only [Bool.or_eq_true, Bool.and_eq_true, decide_eq_true_eq]
  tauto

/-- The names that are formed like identifiers. -/
theorem isIdentifier_iff {name : String} : isIdentifier name.toList = true ↔ IsIdentifier name := by
  rw [IsIdentifier]
  cases name.toList with
  | nil => simp [isIdentifier]
  | cons c cs =>
    simp only [isIdentifier, Bool.and_eq_true, List.all_eq_true, Bool.or_eq_true, startsName_iff,
      List.cons.injEq, ↓existsAndEq, true_and, and_congr_right_iff]
    intro _
    refine forall₂_congr fun d _ ↦ or_congr_right ?_
    rw [Char.isDigit, Bool.and_eq_true, decide_eq_true_eq, decide_eq_true_eq]
    exact Iff.rfl

/-- What is known of a usable name. -/
structure UsableName (name : String) : Prop where
  /-- The name is an identifier. -/
  identifier : IsIdentifier name
  /-- The name is not reserved. -/
  not_reserved : name ∉ reservedNames
  /-- The name does not begin like those of the prelude. -/
  not_prelude : ¬ "fz_".toList <+: name.toList

/-- A name passes exactly when this is known of it. -/
theorem isUsable_eq_true_iff {name : String} : isUsable name = true ↔ UsableName name := by
  rw [isUsable, Bool.and_eq_true, Bool.and_eq_true, isIdentifier_iff, Bool.not_eq_true',
    Bool.not_eq_true', List.contains_eq_mem, decide_eq_false_iff_not, ← Bool.not_eq_true,
    List.isPrefixOf_iff_prefix]
  exact ⟨fun ⟨⟨hi, hr⟩, hp⟩ ↦ ⟨hi, hr, hp⟩, fun h ↦ ⟨⟨h.identifier, h.not_reserved⟩, h.not_prelude⟩⟩

/-- The names of the functions of the prelude. -/
def preludeNames : List String := (prelude : List (Function Float)).map (·.name)

/-- The parameters of the generated functions that are no inputs, and their local variables. -/
def fixedNames : List String :=
  ["min_val", "max_val", "steps", "n", "step", "num", "den", "i", "x", "mu"]

/-- A usable name is none that the generated functions use otherwise. -/
theorem UsableName.not_mem_fixed {name : String} (h : UsableName name) :
    name ∉ fixedNames ∧ name ∉ preludeNames ∧ name ∉ libraryFunctions := by
  refine ⟨fun hm ↦ h.not_reserved ?_, fun hm ↦ h.not_prelude ?_, fun hm ↦ h.not_reserved ?_⟩
  · exact (show fixedNames ⊆ reservedNames by decide) hm
  · exact (show ∀ name ∈ preludeNames, "fz_".toList <+: name.toList by decide) name hm
  · exact (show libraryFunctions ⊆ reservedNames by decide) hm

/-- The name of the function for the centroid is none that anything else has. -/
theorem crispName_not_mem (function : String) :
    crispName function ∉ fixedNames ∧ crispName function ∉ preludeNames ∧
      crispName function ∉ libraryFunctions ∧ crispName function ∉ keywords := by
  have hsuffix : "_crisp".toList <:+ (crispName function).toList := by
    rw [crispName, String.toList_append]
    exact List.suffix_append _ _
  have hall : ∀ name ∈ fixedNames ++ preludeNames ++ libraryFunctions ++ keywords,
      ¬ "_crisp".toList <:+ name.toList := by decide
  have hnot : crispName function ∉ fixedNames ++ preludeNames ++ libraryFunctions ++ keywords :=
    fun hm ↦ hall _ hm hsuffix
  simpa [and_assoc] using hnot

/-- The name of the function for the centroid is an identifier if that of the other function is. -/
theorem isIdentifier_crispName {function : String} (h : IsIdentifier function) :
    IsIdentifier (crispName function) := by
  obtain ⟨c, cs, hcs, hc, hall⟩ := h
  refine ⟨c, cs ++ "_crisp".toList, by rw [crispName, String.toList_append, hcs]; rfl, hc, ?_⟩
  have hsuffix : "_crisp".toList.all startsName = true := by decide
  rw [List.forall_mem_append]
  exact ⟨hall, fun d hd ↦ .inl (startsName_iff.mp (List.all_eq_true.mp hsuffix d hd))⟩

/-! ### Units -/

namespace SourceUnit

/-- What is known of the names of a unit that was generated. -/
structure Named (u : SourceUnit Float) : Prop where
  /-- The function for the degree has a usable name. -/
  function : UsableName u.function
  /-- The parameters have usable names, which are not those of the generated functions. -/
  parameters : ∀ name ∈ u.target :: u.inputs,
    UsableName name ∧ name ≠ u.function ∧ name ≠ crispName u.function
  /-- The target is no input. -/
  target_not_mem : u.target ∉ u.inputs

variable {u : SourceUnit Float}

/-- The names of the functions of a unit. -/
theorem map_name_functions (u : SourceUnit Float) :
    u.functions.map (·.name) = preludeNames ++ [u.function, crispName u.function] := by
  simp [functions, preludeNames, degreeFunction, crispFunction]

/-- The names that the function for the degree declares. -/
theorem declared_degreeFunction (u : SourceUnit Float) :
    u.degreeFunction.declared = u.target :: u.inputs := by
  simp [Function.declared, Function.locals, degreeFunction, bodyLocals, Statement.locals]

/-- The names that the function for the centroid declares. -/
theorem declared_crispFunction (u : SourceUnit Float) :
    u.crispFunction.declared = ["min_val", "max_val", "steps"] ++ u.inputs ++
      ["n", "step", "num", "den", "i", "x", "mu"] := by
  simp [Function.declared, Function.locals, crispFunction, bodyLocals, Statement.locals]

/-- A property of all functions of a unit is one of the prelude and of the two that are
generated. -/
theorem forall_mem_functions {Q : Function Float → Prop} :
    (∀ f ∈ u.functions, Q f) ↔ (∀ f ∈ (prelude : List (Function Float)), Q f) ∧
      Q u.degreeFunction ∧ Q u.crispFunction := by
  simp [functions, or_imp, forall_and]

private theorem prelude_names : ∀ f ∈ (prelude : List (Function Float)),
    (∀ name ∈ f.name :: f.declared, isIdentifier name.toList = true ∧ name ∉ keywords) ∧
      f.declared.Nodup := by
  decide

private theorem prelude_numbers : ∀ f ∈ (prelude : List (Function Float)),
    ∀ x ∈ f.numbers, x.isFinite = true := by
  decide +kernel

private theorem numbers_degreeFunction :
    (∀ x ∈ u.degreeFunction.numbers, x.isFinite = true) ↔ u.degree.Writes (·.isFinite = true) := by
  simp [Function.numbers, degreeFunction, bodyExpressions, Statement.expressions, Expression.Writes]

private theorem numbers_crispFunction {steps : Steps Float} (hmesh : u.mesh = .ofSteps steps) :
    ∀ x ∈ u.crispFunction.numbers, x.isFinite = true := by
  have hzero : Float.isFinite (0 : Float) = true := isFinite_ofNat (n := 0) (by decide)
  have hwrites : ∀ e ∈ bodyExpressions u.crispFunction.body, e.Writes (·.isFinite = true) := by
    cases steps <;>
      simp [crispFunction, bodyExpressions, Statement.expressions, hmesh, MeshLoop.ofSteps,
        Token.number?, hzero]
  intro x hx
  obtain ⟨e, he, hx⟩ := List.mem_flatMap.mp hx
  exact hwrites e he x hx

private theorem forall_names {Q : String → Prop}
    (hprelude : ∀ f ∈ (prelude : List (Function Float)), ∀ name ∈ f.name :: f.declared, Q name)
    (hfixed : ∀ name ∈ fixedNames, Q name)
    (hgiven : ∀ name ∈ u.function :: u.target :: u.inputs, Q name)
    (hcrisp : Q (crispName u.function)) :
    ∀ f ∈ u.functions, ∀ name ∈ f.name :: f.declared, Q name := by
  refine forall_mem_functions.mpr ⟨hprelude, ?_, ?_⟩
  · rw [declared_degreeFunction]
    exact hgiven
  · have hinputs : ∀ name ∈ u.inputs, Q name :=
      fun name hn ↦ hgiven name (List.mem_cons_of_mem _ (List.mem_cons_of_mem _ hn))
    rw [declared_crispFunction, List.forall_mem_cons, List.forall_mem_append,
      List.forall_mem_append]
    exact ⟨hcrisp, ⟨fun name hn ↦ hfixed name ((show _ ⊆ fixedNames by decide) hn), hinputs⟩,
      fun name hn ↦ hfixed name ((show _ ⊆ fixedNames by decide) hn)⟩

private theorem Named.functions_nodup (h : u.Named) :
    (u.functions.map (·.name) ++ libraryFunctions).Nodup := by
  obtain ⟨-, hprelude, hlibrary⟩ := h.function.not_mem_fixed
  obtain ⟨-, hcprelude, hclibrary, -⟩ := crispName_not_mem u.function
  have hne : u.function ≠ crispName u.function := by
    intro he
    have hlength := congrArg String.length he
    rw [crispName, String.length_append, show "_crisp".length = 6 from rfl] at hlength
    omega
  have hfixed : preludeNames.Nodup ∧ libraryFunctions.Nodup ∧
      ∀ a ∈ preludeNames, ∀ b ∈ libraryFunctions, a ≠ b := by decide
  rw [map_name_functions, List.nodup_append, List.nodup_append]
  refine ⟨⟨hfixed.1, by simpa using hne, ?_⟩, hfixed.2.1, ?_⟩
  · rintro a ha b hb rfl
    rcases List.mem_cons.mp hb with rfl | hb
    · exact hprelude ha
    · exact hcprelude (List.mem_singleton.mp hb ▸ ha)
  · rintro a ha b hb rfl
    rcases List.mem_append.mp ha with ha | ha
    · exact hfixed.2.2 a ha a hb rfl
    · rcases List.mem_cons.mp ha with rfl | ha
      · exact hlibrary hb
      · exact hclibrary (List.mem_singleton.mp ha ▸ hb)

private theorem not_mem_functions {name : String} (hprelude : name ∉ preludeNames)
    (hlibrary : name ∉ libraryFunctions) (hfunction : name ≠ u.function)
    (hcrisp : name ≠ crispName u.function) :
    name ∉ u.functions.map (·.name) ++ libraryFunctions := by
  simp [map_name_functions, hprelude, hlibrary, hfunction, hcrisp]

private theorem Named.unshadowed (h : u.Named) :
    ∀ f ∈ [u.degreeFunction, u.crispFunction], ∀ name ∈ f.declared,
      name ∉ u.functions.map (·.name) ++ libraryFunctions := by
  have hparameters : ∀ name ∈ u.target :: u.inputs,
      name ∉ u.functions.map (·.name) ++ libraryFunctions := by
    intro name hn
    obtain ⟨husable, hne, hne'⟩ := h.parameters name hn
    obtain ⟨-, hprelude, hlibrary⟩ := husable.not_mem_fixed
    exact not_mem_functions hprelude hlibrary hne hne'
  have hfixed : ∀ name ∈ fixedNames, name ∉ u.functions.map (·.name) ++ libraryFunctions := by
    intro name hn
    have hdisjoint : ∀ name ∈ fixedNames, name ∉ preludeNames ∧ name ∉ libraryFunctions := by decide
    obtain ⟨hprelude, hlibrary⟩ := hdisjoint name hn
    exact not_mem_functions hprelude hlibrary
      (fun he ↦ h.function.not_mem_fixed.1 (he ▸ hn))
      fun he ↦ (crispName_not_mem u.function).1 (he ▸ hn)
  rw [List.forall_mem_cons, List.forall_mem_singleton, declared_degreeFunction,
    declared_crispFunction, List.forall_mem_append, List.forall_mem_append]
  refine ⟨hparameters, ⟨?_, fun name hn ↦ hparameters name (List.mem_cons_of_mem _ hn)⟩, ?_⟩
  · exact fun name hn ↦ hfixed name ((show _ ⊆ fixedNames by decide) hn)
  · exact fun name hn ↦ hfixed name ((show _ ⊆ fixedNames by decide) hn)

private theorem Named.declared_nodup (h : u.Named) (hinputs : u.inputs.Nodup) :
    ∀ f ∈ u.functions, f.declared.Nodup := by
  refine forall_mem_functions.mpr ⟨fun f hf ↦ (prelude_names f hf).2, ?_, ?_⟩
  · rw [declared_degreeFunction]
    exact List.nodup_cons.mpr ⟨h.target_not_mem, hinputs⟩
  · have hfixed : ∀ name ∈ u.inputs, name ∉ fixedNames := fun name hn ↦
      (h.parameters name (List.mem_cons_of_mem _ hn)).1.not_mem_fixed.1
    rw [declared_crispFunction, List.nodup_append, List.nodup_append]
    refine ⟨⟨by decide, hinputs, ?_⟩, by decide, ?_⟩
    · rintro a ha b hb rfl
      exact hfixed a hb ((show _ ⊆ fixedNames by decide) ha)
    · rintro a ha b hb rfl
      rcases List.mem_append.mp ha with ha | ha
      · exact (show ∀ a ∈ ["min_val", "max_val", "steps"],
          a ∉ ["n", "step", "num", "den", "i", "x", "mu"] by decide) a ha hb
      · exact hfixed a ha ((show _ ⊆ fixedNames by decide) hb)

/-- A unit whose names are those of accepted variables is well-formed exactly when none of them is a
keyword, the inputs are distinct and the numbers of the degree are finite. -/
theorem Named.wellFormed_iff (h : u.Named) {steps : Steps Float} (hmesh : u.mesh = .ofSteps steps) :
    u.WellFormed ↔ (∀ name ∈ u.function :: u.target :: u.inputs, name ∉ keywords) ∧
      u.inputs.Nodup ∧ u.degree.Writes (·.isFinite = true) := by
  constructor
  · intro hu
    have hnodup := (forall_mem_functions.mp hu.declared_nodup).2.1
    have hkeywords := (forall_mem_functions.mp hu.not_keywords).2.1
    rw [declared_degreeFunction] at hnodup hkeywords
    refine ⟨hkeywords, hnodup.of_cons, ?_⟩
    rw [← numbers_degreeFunction]
    exact fun x hx ↦ isNumericLiteral_render_iff.mp
      ((forall_mem_functions.mp hu.literals).2.1 x hx)
  · rintro ⟨hkeywords, hnodup, hwrites⟩
    have hfixed : ∀ name ∈ fixedNames, isIdentifier name.toList = true ∧ name ∉ keywords := by
      decide
    have hgiven : ∀ name ∈ u.function :: u.target :: u.inputs, IsIdentifier name :=
      List.forall_mem_cons.mpr
        ⟨h.function.identifier, fun name hn ↦ (h.parameters name hn).1.identifier⟩
    exact {
      identifiers := forall_names
        (fun f hf name hn ↦ isIdentifier_iff.mp ((prelude_names f hf).1 name hn).1)
        (fun name hn ↦ isIdentifier_iff.mp (hfixed name hn).1) hgiven
        (isIdentifier_crispName h.function.identifier)
      not_keywords := forall_names (fun f hf name hn ↦ ((prelude_names f hf).1 name hn).2)
        (fun name hn ↦ (hfixed name hn).2) hkeywords (crispName_not_mem u.function).2.2.2
      functions_nodup := h.functions_nodup
      declared_nodup := h.declared_nodup hnodup
      unshadowed := h.unshadowed
      literals := by
        have hfinite := forall_mem_functions.mpr
          ⟨prelude_numbers, numbers_degreeFunction.mpr hwrites, numbers_crispFunction hmesh⟩
        exact fun f hf x hx ↦ isNumericLiteral_render_iff.mpr (hfinite f hf x hx) }

end SourceUnit

end CSource

namespace FuzzySystem

/-- The operands of every intersection and conjunction of a system are counted by a machine word. -/
structure CountsOperands {α : Type} [Scalar α] (s : FuzzySystem α) : Prop where
  /-- Those of the intersections in the sets of its variables. -/
  sets : ∀ v ∈ s.registry.members, ∀ set ∈ v.labels.values, ∀ op? ss,
    FuzzySet.and op? ss ∈ set.nodes → ss.length < 2 ^ 64
  /-- Those of the conjunctions in its antecedents. -/
  antecedents : ∀ rule ∈ s.rules.rules, ∀ ps,
    Proposition.and ps ∈ rule.antecedent.nodes → ps.length < 2 ^ 64

variable {s : FuzzySystem Float}

private theorem isFinite_count {n : Nat} (hn : n < 2 ^ 64) :
    Scalar.isFinite (Scalar.ofNat (n - 1) : Float) = true :=
  isFinite_ofNat (Nat.lt_of_le_of_lt (Nat.sub_le n 1) hn)

/-- The sets of a well-formed system supply finite numbers and counts. -/
theorem WellFormed.registrySupplies (hs : s.WellFormed) (hcounts : s.CountsOperands) :
    CSource.RegistrySupplies (fun x : Float ↦ Scalar.isFinite x = true) s.registry :=
  fun v hv set hset ↦ ⟨((hs.members v hv).sets set hset).finite,
    fun op? ss hm ↦ isFinite_count (hcounts.sets v hv set hset op? ss hm)⟩

/-- The antecedents supply finite counts. -/
theorem CountsOperands.countsSupplied (hcounts : s.CountsOperands) {rule : Rule Float}
    (hrule : rule ∈ s.rules.rules) :
    CSource.CountsSupplied (fun x : Float ↦ Scalar.isFinite x = true) rule.antecedent :=
  fun ps hm ↦ isFinite_count (hcounts.antecedents rule hrule ps hm)

/-- The handles of the inputs of a well-formed system stand for its input variables. -/
theorem WellFormed.get_inputs (hs : s.WellFormed) :
    List.Forall₂ (fun h v ↦ s.registry.get h = .ok v) s.inputs s.inputVariables :=
  (inputVariables_eq_iff hs.inputs).mp rfl

end FuzzySystem

namespace CSource

variable {s : FuzzySystem Float} {function : String} {u : SourceUnit Float}

/-- The names of a unit for a well-formed system are those of accepted variables. -/
theorem SourceUnit.named_of_ofSystem (hs : s.WellFormed)
    (hu : SourceUnit.ofSystem s function = .ok u) : u.Named := by
  obtain ⟨hfunction, v, -, hv, hp, hi, -, hf, ht, hin, -⟩ := SourceUnit.of_ofSystem hu
  have hparameter {name : String} (h : requireParameter (α := Float) function name = .ok ()) :
      UsableName name ∧ name ≠ u.function ∧ name ≠ crispName u.function := by
    obtain ⟨⟨hne, hne'⟩, husable⟩ := requireParameter_eq_ok_iff.mp h
    rw [hf]
    exact ⟨isUsable_eq_true_iff.mp husable, hne, hne'⟩
  refine ⟨hf ▸ isUsable_eq_true_iff.mp hfunction, ?_, ?_⟩
  · rw [ht, hin, List.forall_mem_cons, List.forall_mem_map]
    exact ⟨hparameter hp, fun w hw ↦ hparameter (requireInputs_eq_ok_iff.mp hi w hw).2⟩
  · rw [ht, hin]
    intro hm
    obtain ⟨w, hw, hn⟩ := List.mem_map.mp hm
    obtain ⟨k, hk, hkw⟩ := exists_left_of_mem hs.get_inputs hw
    have he : k = s.target := Registry.handle_eq_of_name_eq hkw hv hn
    exact hs.target_not_mem (he ▸ hk)

/-! ### The unit of the small system -/

open FuzzySystem (cooling)

/-- Whether a set is a curve. -/
private def isCurve : FuzzySet Float → Bool
  | .shape _ => true
  | _ => false

private theorem exists_curve_cooling {v : Variable Float} (hv : v ∈ cooling.registry.members)
    {s : FuzzySet Float} (hs : s ∈ v.labels.values) : ∃ curve, s = .shape curve := by
  have hall : (cooling.registry.members.all (·.labels.values.all isCurve)) = true := by rfl
  have hs : isCurve s = true := List.all_eq_true.mp (List.all_eq_true.mp hall v hv) s hs
  cases s with
  | shape curve => exact ⟨curve, rfl⟩
  | _ => cases hs

private theorem exists_unit_cooling (function : String)
    (hfunction : requireUsable (α := Float) function = .ok ())
    (hfan : requireParameter (α := Float) function "fan" = .ok ())
    (htemperature : requireParameter (α := Float) function "temperature" = .ok ()) :
    ∃ u, SourceUnit.ofSystem cooling function = .ok u ∧ u.function = function ∧
      u.target = "fan" ∧ u.inputs = ["temperature"] := by
  have hset (x : String) (a b c : Float) : ∃ e, set {} x (.shape (.triangular a b c)) = .ok e := by
    simp only [set, setBody]
    exact ⟨_, rfl⟩
  obtain ⟨hot, hhot⟩ := hset "temperature" 20 40 40
  obtain ⟨fast, hfast⟩ := hset "fan" 0 1 1
  have hvaluation : valuation cooling.registry {} ⟨1⟩ "hot" = .ok hot := hhot
  have hlabel : cooling.registry.labelSet ⟨2⟩ "fast" = .ok (.shape (.triangular 0 1 1)) := rfl
  have hrule : ∃ e, rule cooling.registry {} "fan" ⟨.not (.is ⟨1⟩ "hot"), ⟨2⟩, "fast", 0.5⟩ =
      .ok e := by
    simp only [rule, proposition, hvaluation, hlabel, hfast, mapError_ok, ok_bind, pure_eq_ok]
    exact ⟨_, rfl⟩
  obtain ⟨e, he⟩ := hrule
  have hout : output cooling.registry {} "fan" cooling.rules.rules =
      .ok (disjunction .maximum [e]) := by
    rw [output, show cooling.rules.rules = [_] from rfl, List.mapM_cons, he]
    rfl
  refine ⟨⟨function, "fan", ["temperature"], disjunction .maximum [e], .ofSteps (.count 5)⟩, ?_,
    rfl, rfl, rfl⟩
  rw [SourceUnit.ofSystem, hfunction]
  show (requireParameter (α := Float) function "fan" >>= _) = _
  rw [hfan, ok_bind]
  show ((requireParameter (α := Float) function "temperature" >>= fun _ ↦ .ok ()) >>= _) = _
  rw [htemperature, ok_bind, ok_bind]
  show (output cooling.registry {} "fan" cooling.rules.rules >>= _) = _
  rw [hout]
  rfl

/-! ### Main results -/

/-- Whatever way led to a system, the unit that is generated for it is well-formed exactly when
neither its function nor its target nor an input has a keyword for a name, no input is listed twice,
and the keys of the tables that its rules refer to are read as finite numbers. -/
theorem generated_wellFormed_iff (hs : s.Obtained) (hcounts : s.CountsOperands) {text : String}
    (htext : CSource.ofSystem s function = .ok text) :
    ∃ u, SourceUnit.ofSystem s function = .ok u ∧ text = u.text Layout.literal.render ∧
      (u.WellFormed ↔ (∀ name ∈ u.function :: u.target :: u.inputs, name ∉ keywords) ∧
        s.inputs.Nodup ∧
        ∀ rule ∈ s.rules.rules, ∀ a ∈ (rule.target, rule.label) :: rule.antecedent.valuations,
          LabelKeysRead (·.isFinite = true) s.registry a) := by
  obtain ⟨u, hu, htext⟩ := bind_eq_ok_iff.mp htext
  have hs := hs.wellFormed
  obtain ⟨-, v, steps, -, -, -, ho, -, -, hin, hmesh⟩ := SourceUnit.of_ofSystem hu
  refine ⟨u, hu, (Except.ok.inj htext).symm, ?_⟩
  have hzero : Scalar.isFinite (0 : Float) = true := isFinite_ofNat (n := 0) (by decide)
  have hone : Scalar.isFinite (1 : Float) = true := isFinite_ofNat (n := 1) (by decide)
  have hweights : ∀ rule ∈ s.rules.rules, Scalar.isFinite rule.weight = true := fun rule hrule ↦
    isFinite_of_pos_of_le_one (hs.rules rule hrule).weight.1 (hs.rules rule hrule).weight.2
  have hwrites := writes_output_iff (P := (Scalar.isFinite · = true)) hzero hone
    (hs.registrySupplies hcounts) (fun rule hrule ↦ hcounts.countsSupplied hrule) hweights ho
  rw [(SourceUnit.named_of_ofSystem hs hu).wellFormed_iff hmesh, hin,
    FuzzySystem.nodup_names_iff hs.get_inputs]
  exact and_congr_right fun _ ↦ and_congr_right fun _ ↦ hwrites

/-- The unit of the small system is well-formed under the name that it is given here. -/
theorem cooling_generated_wellFormed :
    cooling.Obtained ∧ cooling.CountsOperands ∧ ∃ (u : SourceUnit Float) (text : String),
      CSource.ofSystem cooling "speed" = .ok text ∧ text = u.text Layout.literal.render ∧
        u.WellFormed := by
  have hobtained : cooling.Obtained := by
    have hbuilt : FuzzySystem.build cooling.registry cooling.inputs cooling.rules cooling.target =
        .ok cooling := by rfl
    refine .built (fun rule hrule ↦ ?_) hbuilt
    rw [List.mem_singleton.mp hrule]
    exact ⟨.not (.is ⟨1⟩ "hot"), .is ⟨2⟩ "fast", 0.5, by rfl⟩
  have hcounts : cooling.CountsOperands := by
    constructor
    · intro v hv set hset op? ss hm
      obtain ⟨curve, rfl⟩ := exists_curve_cooling hv hset
      simp [FuzzySet.nodes] at hm
    · intro rule hrule ps hm
      rw [List.mem_singleton.mp hrule] at hm
      simp [Proposition.nodes] at hm
  obtain ⟨u, hu, hf, ht, hin⟩ := exists_unit_cooling "speed" (by rfl) (by rfl) (by rfl)
  have htext : CSource.ofSystem cooling "speed" = .ok (u.text Layout.literal.render) := by
    rw [CSource.ofSystem, hu]
    rfl
  obtain ⟨u', hu', htext', hiff⟩ := generated_wellFormed_iff hobtained hcounts htext
  obtain rfl : u = u' := Except.ok.inj (hu.symm.trans hu')
  refine ⟨hobtained, hcounts, u, u.text Layout.literal.render, htext, rfl,
    hiff.mpr ⟨?_, by decide, ?_⟩⟩
  · rw [hf, ht, hin]
    decide
  · rintro rule - a - s hs table hm
    obtain ⟨v, hv, hs⟩ := bind_eq_ok_iff.mp hs
    obtain ⟨curve, rfl⟩ :=
      exists_curve_cooling (Registry.mem_of_get hv) (Variable.mem_values_of_get hs)
    simp [FuzzySet.nodes] at hm

/-- It is not if the function is called like a type. -/
theorem cooling_generated_not_wellFormed :
    ∃ (u : SourceUnit Float) (text : String), CSource.ofSystem cooling "float" = .ok text ∧
      text = u.text Layout.literal.render ∧ ¬ u.WellFormed := by
  obtain ⟨u, hu, hf, -, -⟩ := exists_unit_cooling "float" (by rfl) (by rfl) (by rfl)
  refine ⟨u, u.text Layout.literal.render, by rw [CSource.ofSystem, hu]; rfl, rfl, fun h ↦ ?_⟩
  have hkeyword := h.not_keywords u.degreeFunction (by simp [SourceUnit.functions]) u.function
    List.mem_cons_self
  rw [hf] at hkeyword
  exact hkeyword (by decide)

end CSource

end FuzzyInference
