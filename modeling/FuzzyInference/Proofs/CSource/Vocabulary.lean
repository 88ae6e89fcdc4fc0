import FuzzyInference.Proofs.CSource.Numbers
import FuzzyInference.Proofs.CSource.ReadBack

/-!
# The words of generated expressions

The expressions for sets, propositions and rules consist of numbers, marks and names: those of the
functions that they call, and those of variables. No sign is written in front of an operand.
-/

namespace FuzzyInference.CSource

open Expression Result

variable {α : Type} {names : List String}

/-- The functions that expressions call. -/
def calledNames : List String :=
  ["fmin", "fmax", "fz_lerp", "fz_triangular", "fz_trapezoidal", "fz_gaussian", "fz_gaussian2",
    "fz_bell", "fz_sigmoid", "fz_s_shaped"]

/-- A word that is no sign, and no name but the given ones and those of functions. -/
def Token.IsFrom (names : List String) : Token α → Prop
  | .negative => False
  | .name s => s ∈ calledNames ∨ s ∈ names
  | _ => True

/-- An expression consists of such words. -/
def Expression.IsFrom (names : List String) (e : Expression α) : Prop :=
  ∀ w ∈ e, w.IsFrom names

/-- A list of expressions of such words. -/
def AllFrom (names : List String) (es : List (Expression α)) : Prop :=
  ∀ e ∈ es, e.IsFrom names

/-! ### Forms of expressions -/

@[simp] theorem isFrom_nil : IsFrom (α := α) names [] := nofun

@[simp] theorem isFrom_cons {w : Token α} {e : Expression α} :
    IsFrom names (w :: e) ↔ w.IsFrom names ∧ IsFrom names e :=
  List.forall_mem_cons

@[simp] theorem isFrom_append {l r : Expression α} :
    IsFrom names (l ++ r) ↔ IsFrom names l ∧ IsFrom names r :=
  List.forall_mem_append

@[simp] theorem isFrom_grouped {e : Expression α} : IsFrom names (grouped e) ↔ IsFrom names e := by
  simp [grouped, Token.IsFrom]

@[simp] theorem isFrom_literal {x : α} : IsFrom names (literal x) := by
  simp [literal, Token.IsFrom]

@[simp] theorem isFrom_choice {condition yes no : Expression α} :
    IsFrom names (choice condition yes no) ↔
      IsFrom names condition ∧ IsFrom names yes ∧ IsFrom names no := by
  simp [choice, Token.IsFrom]

/-- The words of a chain are those of its operands, and the word between them. -/
theorem mem_joined {separator w : Token α} {es : List (Expression α)}
    (h : w ∈ joined separator es) : w = separator ∨ ∃ e ∈ es, w ∈ e := by
  induction es with
  | nil => cases h
  | cons e es ih =>
    cases es with
    | nil => exact .inr ⟨e, List.mem_cons_self, h⟩
    | cons e' es =>
      rcases List.mem_append.mp h with hw | hw
      · exact .inr ⟨e, List.mem_cons_self, hw⟩
      · rcases List.mem_cons.mp hw with rfl | hw
        · exact .inl rfl
        · obtain hs | ⟨e'', he'', hw⟩ := ih hw
          · exact .inl hs
          · exact .inr ⟨e'', List.mem_cons_of_mem _ he'', hw⟩

/-- A chain consists of such words if its operands do, and the word between them is one. -/
theorem isFrom_joined (separator : Token α) (hs : separator.IsFrom names)
    {es : List (Expression α)} (h : AllFrom names es) : IsFrom names (joined separator es) := by
  intro w hw
  rcases mem_joined hw with rfl | ⟨e, he, hw⟩
  · exact hs
  · exact h e he w hw

/-- A call of a function consists of such words if its arguments do. -/
theorem isFrom_call {function : String} (hf : function ∈ calledNames) {es : List (Expression α)}
    (h : AllFrom names es) : IsFrom names (call function es) := by
  simp [call, Token.IsFrom, hf, isFrom_joined .comma trivial h]

/-- Nested calls of a function consist of such words if their operands do. -/
theorem isFrom_nested {function : String} (hf : function ∈ calledNames)
    {es : List (Expression α)} (h : AllFrom names es) : IsFrom names (nested function es) := by
  cases es with
  | nil => exact isFrom_nil
  | cons e es =>
    rw [AllFrom, List.forall_mem_cons] at h
    rw [nested]
    induction es generalizing e with
    | nil => exact h.1
    | cons e' es ih =>
      have hes := List.forall_mem_cons.mp h.2
      exact ih _ ⟨isFrom_call hf (by simp [AllFrom, h.1, hes.1]), hes.2⟩

/-! ### Sets -/

/-- A call of a curve consists of such words if its variable is one. -/
theorem isFrom_shapeCall (function : String) {x : String} (hf : function ∈ calledNames)
    (hx : x ∈ names) (parameters : List α) : IsFrom names (shapeCall function x parameters) :=
  isFrom_call hf (by simp [AllFrom, Token.IsFrom, hx])

/-- The segments of a polygon consist of such words. -/
theorem isFrom_segments {x : String} (hx : x ∈ names) (points : List (α × α)) :
    IsFrom names (segments x points) := by
  induction points with
  | nil => exact isFrom_nil
  | cons p points ih =>
    cases points with
    | nil => exact isFrom_literal
    | cons q points =>
      simp [segments, Token.IsFrom, hx, ih, isFrom_shapeCall "fz_lerp" (by decide) hx]

variable [Scalar α] {ctx : Context} {x : String}

/-- A disjunction consists of such words if its operands do. -/
theorem isFrom_disjunction (op : Disjunction) {es : List (Expression α)} (h : AllFrom names es) :
    IsFrom names (disjunction op es) := by
  cases op with
  | maximum => exact isFrom_nested (by decide) h
  | probabilisticSum =>
    have hjoined : IsFrom names
        (joined .times (es.map fun e ↦ grouped (literal 1 ++ .minus :: e))) :=
      isFrom_joined .times trivial
        (List.forall_mem_map.mpr fun e he ↦ by simp [Token.IsFrom, h e he])
    simp [disjunction, Token.IsFrom, hjoined]
  | boundedSum =>
    exact isFrom_call (by decide) (by simp [AllFrom, isFrom_joined .plus trivial h])

/-- A conjunction consists of such words if its operands do. -/
theorem isFrom_conjunction (op : Conjunction) {es : List (Expression α)} (h : AllFrom names es) :
    IsFrom names (conjunction op es) := by
  cases op with
  | minimum => exact isFrom_nested (by decide) h
  | product =>
    exact isFrom_joined .times trivial
      (List.forall_mem_map.mpr fun e he ↦ isFrom_grouped.mpr (h e he))
  | lukasiewicz =>
    have hjoined : IsFrom names (joined .plus es) := isFrom_joined .plus trivial h
    exact isFrom_call (by decide) (by simp [AllFrom, Token.IsFrom, hjoined])

/-- A shape consists of such words. -/
theorem isFrom_shape (hx : x ∈ names) {curve : Shape α} {e : Expression α}
    (he : shape x curve = .ok e) : IsFrom names e := by
  have hsigmoid (parameters : List α) : IsFrom names (shapeCall "fz_sigmoid" x parameters) :=
    isFrom_shapeCall _ (by decide) hx _
  have hspline (parameters : List α) : IsFrom names (shapeCall "fz_s_shaped" x parameters) :=
    isFrom_shapeCall _ (by decide) hx _
  cases curve with
  | piecewise points =>
    cases points with
    | nil => cases he
    | cons p points =>
      cases he
      simp [Token.IsFrom, hx, isFrom_segments hx]
  | sigmoidProduct _ _ _ _ | zShaped _ _ | piShaped _ _ _ _ =>
    cases he
    simp [Token.IsFrom, hsigmoid, hspline]
  | sigmoidDifference _ _ _ _ =>
    cases he
    refine isFrom_call (by decide)
      (List.forall_mem_cons.mpr ⟨isFrom_literal, List.forall_mem_singleton.mpr ?_⟩)
    exact isFrom_call (by decide) (by simp [AllFrom, Token.IsFrom, hsigmoid])
  | _ =>
    cases he
    exact isFrom_shapeCall _ (by decide) hx _

/-- A table consists of such words. -/
theorem isFrom_listed (hx : x ∈ names) {entries : List (String × α)} {e : Expression α}
    (he : listed x entries = .ok e) : IsFrom names e := by
  induction entries generalizing e with
  | nil =>
    cases he
    exact isFrom_literal
  | cons entry entries ih =>
    obtain ⟨key, degree⟩ := entry
    obtain ⟨others, hothers, he⟩ := bind_eq_ok_iff.mp he
    cases hk : Scalar.ofText? (α := α) (Text.trim key.toList) with
    | none =>
      rw [hk] at he
      cases he
    | some k =>
      rw [hk] at he
      cases he
      simp [Token.IsFrom, hx, ih hothers]

mutual

/-- What is written for a set consists of such words. -/
theorem isFrom_setBody (hx : x ∈ names) : (s : FuzzySet α) → {e : Expression α} →
    setBody ctx x s = .ok e → IsFrom names e
  | .singleton (.number _), e, he => by
    rw [setBody] at he
    cases he
    simp [Token.IsFrom, hx]
  | .singleton (.label _), e, he => by
    rw [setBody] at he
    cases he
  | .discrete _, e, he => by
    rw [setBody] at he
    exact isFrom_listed hx he
  | .constant _, e, he => by
    rw [setBody] at he
    cases he
    exact isFrom_literal
  | .shape _, e, he => by
    rw [setBody] at he
    exact isFrom_shape hx he
  | .not s, e, he => by
    rw [setBody] at he
    obtain ⟨inner, hi, ⟨⟩⟩ := bind_eq_ok_iff.mp he
    simp [Token.IsFrom, isFrom_set hx s hi]
  | .scale s _, e, he => by
    rw [setBody] at he
    obtain ⟨inner, hi, ⟨⟩⟩ := bind_eq_ok_iff.mp he
    simp [Token.IsFrom, isFrom_set hx s hi]
  | .implication op _ s, e, he => by
    rw [setBody] at he
    obtain ⟨inner, hi, he⟩ := bind_eq_ok_iff.mp he
    have hi := isFrom_set hx s hi
    cases op with
    | minimum =>
      cases he
      exact isFrom_call (by decide) (by simp [AllFrom, hi])
    | product =>
      cases he
      simp [Token.IsFrom, hi]
  | .or _ ss, e, he => by
    rw [setBody] at he
    obtain ⟨es, hes, ⟨⟩⟩ := bind_eq_ok_iff.mp he
    exact isFrom_disjunction _ (allFrom_sets hx ss hes)
  | .and _ ss, e, he => by
    rw [setBody] at he
    obtain ⟨es, hes, ⟨⟩⟩ := bind_eq_ok_iff.mp he
    exact isFrom_conjunction _ (allFrom_sets hx ss hes)

/-- The expression for a set consists of such words. -/
theorem isFrom_set (hx : x ∈ names) : (s : FuzzySet α) → {e : Expression α} →
    set ctx x s = .ok e → IsFrom names e
  | s, e, he => by
    obtain ⟨body, hbody, rfl⟩ := set_eq_ok_iff.mp he
    exact isFrom_grouped.mpr (isFrom_setBody hx s hbody)

/-- The expressions for several sets consist of such words. -/
theorem allFrom_sets (hx : x ∈ names) : (ss : List (FuzzySet α)) → {es : List (Expression α)} →
    sets ctx x ss = .ok es → AllFrom names es
  | [], es, hes => by
    rw [sets] at hes
    cases hes
    exact nofun
  | s :: ss, es, hes => by
    rw [sets] at hes
    obtain ⟨e, he, hes⟩ := bind_eq_ok_iff.mp hes
    obtain ⟨rest, hrest, ⟨⟩⟩ := bind_eq_ok_iff.mp hes
    exact List.forall_mem_cons.mpr ⟨isFrom_set hx s he, allFrom_sets hx ss hrest⟩

end

/-! ### Propositions and rules -/

variable {r : Registry α}

/-- A variable that a handle stands for has one of the given names. -/
def NamedAmong (r : Registry α) (names : List String) (h : Handle) : Prop :=
  ∀ v, r.get h = .ok v → v.name ∈ names

/-- A valuation consists of such words. -/
theorem isFrom_valuation {h : Handle} (hname : NamedAmong r names h) {label : String}
    {e : Expression α} (he : valuation r ctx h label = .ok e) : IsFrom names e := by
  obtain ⟨v, s, hv, -, he⟩ := valuation_eq_ok_iff.mp he
  exact isFrom_set (hname v hv) s he

mutual

/-- A proposition consists of such words. -/
theorem isFrom_proposition : (p : Proposition) →
    (∀ a ∈ p.valuations, NamedAmong r names a.1) → {e : Expression α} →
      proposition r ctx p = .ok e → IsFrom names e
  | .is h label, hp, e, he => by
    rw [proposition] at he
    exact isFrom_valuation (hp (h, label) List.mem_cons_self) he
  | .isNot h label, hp, e, he => by
    rw [proposition] at he
    obtain ⟨inner, hi, ⟨⟩⟩ := bind_eq_ok_iff.mp he
    simp [Token.IsFrom, isFrom_valuation (hp (h, label) List.mem_cons_self) hi]
  | .not p, hp, e, he => by
    rw [proposition] at he
    obtain ⟨inner, hi, ⟨⟩⟩ := bind_eq_ok_iff.mp he
    simp [Token.IsFrom, isFrom_proposition p hp hi]
  | .and ps, hp, e, he => by
    rw [proposition] at he
    obtain ⟨es, hes, ⟨⟩⟩ := bind_eq_ok_iff.mp he
    exact isFrom_conjunction _ (allFrom_propositions ps hp hes)
  | .or ps, hp, e, he => by
    rw [proposition] at he
    obtain ⟨es, hes, ⟨⟩⟩ := bind_eq_ok_iff.mp he
    exact isFrom_disjunction _ (allFrom_propositions ps hp hes)

/-- Several propositions consist of such words. -/
theorem allFrom_propositions : (ps : List Proposition) →
    (∀ a ∈ Proposition.valuationsAll ps, NamedAmong r names a.1) → {es : List (Expression α)} →
      propositions r ctx ps = .ok es → AllFrom names es
  | [], _, es, hes => by
    rw [propositions] at hes
    cases hes
    exact nofun
  | p :: ps, hp, es, hes => by
    rw [propositions] at hes
    obtain ⟨e, he, hes⟩ := bind_eq_ok_iff.mp hes
    obtain ⟨rest, hrest, ⟨⟩⟩ := bind_eq_ok_iff.mp hes
    rw [Proposition.valuationsAll, List.forall_mem_append] at hp
    exact List.forall_mem_cons.mpr
      ⟨isFrom_proposition p hp.1 he, allFrom_propositions ps hp.2 hrest⟩

end

private theorem isFrom_weighted {weight : α} {implied : Expression α} (h : IsFrom names implied) :
    IsFrom names (if weight == 1 then implied
      else literal weight ++ .times :: grouped implied) := by
  split
  · exact h
  · simp only [isFrom_append, isFrom_cons, isFrom_grouped]
    exact ⟨isFrom_literal, trivial, h⟩

/-- A rule consists of such words if its antecedent's variables and the target have such names. -/
theorem isFrom_rule {target : String} (htarget : target ∈ names) {rule : Rule α}
    (hrule : ∀ a ∈ rule.antecedent.valuations, NamedAmong r names a.1) {e : Expression α}
    (he : CSource.rule r ctx target rule = .ok e) : IsFrom names e := by
  obtain ⟨degree, hdegree, he⟩ := bind_eq_ok_iff.mp he
  obtain ⟨s, -, he⟩ := bind_eq_ok_iff.mp he
  obtain ⟨conclusion, hconclusion, ⟨⟩⟩ := bind_eq_ok_iff.mp he
  have hdegree := isFrom_proposition _ hrule hdegree
  have hconclusion := isFrom_set htarget s hconclusion
  apply isFrom_weighted
  cases ctx.implication with
  | minimum => exact isFrom_call (by decide) (by simp [AllFrom, hdegree, hconclusion])
  | product => simp [Token.IsFrom, hdegree, hconclusion]

/-- The expression for an output consists of such words. -/
theorem isFrom_output {target : String} (htarget : target ∈ names) {rules : List (Rule α)}
    (hrules : ∀ rule ∈ rules, ∀ a ∈ rule.antecedent.valuations, NamedAmong r names a.1)
    {e : Expression α} (he : output r ctx target rules = .ok e) : IsFrom names e := by
  obtain ⟨es, hes, ⟨⟩⟩ := bind_eq_ok_iff.mp he
  have hall : AllFrom names es := by
    rw [mapM_eq_ok_iff] at hes
    clear he
    induction hes with
    | nil => exact nofun
    | cons hrule _ ih =>
      rw [List.forall_mem_cons] at hrules
      exact List.forall_mem_cons.mpr ⟨isFrom_rule htarget hrules.1 hrule, ih hrules.2⟩
  split
  · exact isFrom_literal
  · exact isFrom_disjunction _ hall

/-! ### Reading them back -/

section ReadBack

variable {sp : Spelling α} {e : Expression α}

/-- An identifier is plain if it is none of some names with the keywords among them. -/
theorem isPlainName_of_not_mem {name : String} {reserved : List String}
    (hidentifier : isIdentifier name.toList = true) (hname : name ∉ reserved)
    (hkeywords : ∀ entry ∈ keywordTable, String.ofList entry.1 ∈ reserved) :
    isPlainName name = true := by
  rw [isPlainName, hidentifier, Bool.true_and, List.all_eq_true]
  intro entry hentry
  rw [bne_iff_ne]
  intro he
  have hmem := hkeywords entry hentry
  rw [he, String.ofList_toList] at hmem
  exact hname hmem

/-- A usable name is plain. -/
theorem isPlainName_of_isUsable {name : String} (h : isUsable name = true) :
    isPlainName name = true := by
  rw [isUsable, Bool.and_eq_true, Bool.and_eq_true, Bool.not_eq_true', List.contains_eq_mem,
    decide_eq_false_iff_not] at h
  exact isPlainName_of_not_mem h.1.1 h.1.2 (by decide)

/-- The numbers of a generated expression are read back if its names are usable. -/
theorem Expression.IsFrom.legible (he : e.IsFrom names)
    (hnames : ∀ name ∈ names, isUsable name = true)
    (hnumber : ∀ x, .number x ∈ e → sp.ReadsBack x) : e.Legible sp := by
  refine ⟨hnumber, fun s hs ↦ ?_⟩
  have hcalled : ∀ name ∈ calledNames, isPlainName name = true := by decide
  rcases he _ hs with hs | hs
  · exact hcalled s hs
  · exact isPlainName_of_isUsable (hnames s hs)

/-- The text of a generated expression of the grammar is read as what it spells. -/
theorem readExpression?_of_reads {n : Nat} {t : Term α} (h : Reads n e t) (he : e.IsFrom names)
    (hnames : ∀ name ∈ names, isUsable name = true)
    (hnumber : ∀ x, .number x ∈ e → sp.ReadsBack x) :
    readExpression? sp.read (render sp.write e) = some (e.spelled sp) :=
  readExpression?_render (he.legible hnames hnumber) (h.walk (fun hm ↦ he _ hm) 0)

end ReadBack

end FuzzyInference.CSource
