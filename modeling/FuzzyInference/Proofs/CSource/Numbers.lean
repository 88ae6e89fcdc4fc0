import FuzzyInference.CSource.Degree
import FuzzyInference.Proofs.FuzzySet.WellFormed
import FuzzyInference.Proofs.Proposition.WellFormed

/-!
# The numbers of generated expressions

Which numbers an expression is written with: those of the sets that it comes from, zero and one,
counts of operands, weights, and what the keys of tables are read as. All but the last are finite
wherever a system comes from, so the property of interest is stated over the keys.
-/

namespace FuzzyInference

open Result

variable {α : Type}

namespace CSource

open Expression

/-- The number that a word is the literal of. -/
def Token.number? : Token α → Option α
  | number x => some x
  | _ => none

/-- The numbers that an expression has literals of, in order. -/
def Expression.numbers (e : Expression α) : List α := e.filterMap Token.number?

/-- The numbers of an expression are those that it has words of. -/
theorem mem_numbers_iff {e : Expression α} {x : α} : x ∈ e.numbers ↔ .number x ∈ e := by
  rw [Expression.numbers, List.mem_filterMap]
  constructor
  · rintro ⟨w, hw, hx⟩
    cases w <;> cases hx
    exact hw
  · exact fun hx ↦ ⟨_, hx, rfl⟩

/-- All literals of an expression are of numbers with a property. -/
def Expression.Writes (P : α → Prop) (e : Expression α) : Prop := ∀ x ∈ e.numbers, P x

variable {P : α → Prop}

/-! ### Forms of expressions -/

@[simp] theorem writes_nil : Writes P [] := nofun

@[simp] theorem writes_cons {t : Token α} {e : Expression α} :
    Writes P (t :: e) ↔ (∀ x, t.number? = some x → P x) ∧ Writes P e := by
  rw [Writes, Expression.numbers, List.filterMap_cons]
  cases ht : t.number? with
  | none => simp [Writes, Expression.numbers]
  | some x => simp [Writes, Expression.numbers]

@[simp] theorem writes_append {l e : Expression α} :
    Writes P (l ++ e) ↔ Writes P l ∧ Writes P e := by
  rw [Writes, Expression.numbers, List.filterMap_append, List.forall_mem_append]
  rfl

@[simp] theorem writes_grouped {e : Expression α} : Writes P (grouped e) ↔ Writes P e := by
  simp [grouped, Token.number?]

@[simp] theorem writes_literal {x : α} : Writes P (literal x) ↔ P x := by
  simp [literal, Token.number?]

@[simp] theorem writes_choice {condition yes no : Expression α} :
    Writes P (choice condition yes no) ↔ Writes P condition ∧ Writes P yes ∧ Writes P no := by
  simp [choice, Token.number?]

/-- A chain writes what its operands do, if the word between them is no literal. -/
theorem writes_joined (separator : Token α) (hs : separator.number? = none)
    {es : List (Expression α)} : Writes P (joined separator es) ↔ ∀ e ∈ es, Writes P e := by
  induction es with
  | nil => simp [joined]
  | cons e es ih =>
    cases es with
    | nil => simp [joined]
    | cons e' es => simp [joined, hs, ih]

@[simp] theorem writes_call {function : String} {arguments : List (Expression α)} :
    Writes P (call function arguments) ↔ ∀ e ∈ arguments, Writes P e := by
  simp [call, Token.number?, writes_joined .comma rfl]

/-- Nested calls write what their operands do. -/
theorem writes_nested {function : String} {es : List (Expression α)} :
    Writes P (nested function es) ↔ ∀ e ∈ es, Writes P e := by
  cases es with
  | nil => simp [nested]
  | cons e es =>
    rw [nested, List.forall_mem_cons]
    induction es generalizing e with
    | nil => simp
    | cons e' es ih =>
      rw [List.foldl_cons, ih, List.forall_mem_cons, writes_call]
      simp [and_assoc]

/-! ### Sets -/

section Combinations

variable [Scalar α]

/-- A disjunction writes what its operands do, if one may be written. -/
theorem writes_disjunction (hone : P 1) {op : Disjunction} {es : List (Expression α)} :
    Writes P (disjunction op es) ↔ ∀ e ∈ es, Writes P e := by
  cases op with
  | maximum => exact writes_nested
  | probabilisticSum =>
    simp [disjunction, writes_joined .times rfl, Token.number?, hone]
  | boundedSum => simp [disjunction, writes_joined .plus rfl, hone]

/-- A conjunction writes what its operands do, if zero and their count may be written. -/
theorem writes_conjunction (hzero : P 0) {op : Conjunction} {es : List (Expression α)}
    (hcount : P (Scalar.ofNat (es.length - 1))) :
    Writes P (conjunction op es) ↔ ∀ e ∈ es, Writes P e := by
  cases op with
  | minimum => exact writes_nested
  | product => simp [conjunction, writes_joined .times rfl]
  | lukasiewicz =>
    simp [conjunction, writes_joined .plus rfl, Token.number?, hzero, hcount]

end Combinations

/-- A call of a curve writes its parameters. -/
theorem writes_shapeCall {function x : String} {parameters : List α} :
    Writes P (shapeCall function x parameters) ↔ ∀ p ∈ parameters, P p := by
  simp [shapeCall, Token.number?]

/-- The segments of a polygon write its coordinates. -/
theorem writes_segments {x : String} {points : List (α × α)}
    (hx : ∀ p ∈ points, P p.1) (hy : ∀ p ∈ points, P p.2) : Writes P (segments x points) := by
  induction points with
  | nil => exact writes_nil
  | cons p points ih =>
    rw [List.forall_mem_cons] at hx hy
    cases points with
    | nil => simpa [segments] using hy.1
    | cons q points =>
      have hq := (List.forall_mem_cons.mp hx.2).1
      have hq' := (List.forall_mem_cons.mp hy.2).1
      simp [segments, writes_shapeCall, Token.number?, hx.1, hy.1, hq, hq', ih hx.2 hy.2]

variable [Scalar α]

/-- A shape writes its numbers, zero and one. -/
theorem writes_shape (hzero : P 0) (hone : P 1) {x : String} {curve : Shape α}
    (hcurve : ∀ y ∈ curve.numbers, P y) {e : Expression α} (he : shape x curve = .ok e) :
    Writes P e := by
  cases curve with
  | piecewise points =>
    cases points with
    | nil => cases he
    | cons p points =>
      cases he
      rw [Shape.numbers, List.forall_mem_append, List.forall_mem_map, List.forall_mem_map] at hcurve
      have hp := (List.forall_mem_cons.mp hcurve.1).1
      have hp' := (List.forall_mem_cons.mp hcurve.2).1
      simp [Token.number?, hp, hp', writes_segments hcurve.1 hcurve.2]
  | _ =>
    cases he
    simp only [Shape.numbers, Shape.parameters, List.map_cons, List.map_nil,
      List.forall_mem_cons] at hcurve
    simp [writes_shapeCall, Token.number?, hzero, hone, hcurve]

/-- A table writes its degrees and zero, and what its keys are read as. -/
theorem writes_listed_iff (hzero : P 0) {x : String} {entries : List (String × α)}
    (hdegrees : ∀ entry ∈ entries, P entry.2) {e : Expression α}
    (he : listed x entries = .ok e) :
    Writes P e ↔ ∀ entry ∈ entries, ∀ k,
      Scalar.ofText? (Text.trim entry.1.toList) = some k → P k := by
  induction entries generalizing e with
  | nil =>
    cases he
    simp [hzero]
  | cons entry entries ih =>
    obtain ⟨key, degree⟩ := entry
    obtain ⟨others, hothers, he⟩ := bind_eq_ok_iff.mp he
    rw [List.forall_mem_cons] at hdegrees
    cases hk : Scalar.ofText? (α := α) (Text.trim key.toList) with
    | none =>
      rw [hk] at he
      cases he
    | some k =>
      rw [hk] at he
      cases he
      have hothers := ih hdegrees.2 hothers
      simp [Token.number?, hdegrees.1, hk, hothers]

end CSource

/-! ### Trees of sets -/

namespace FuzzySet

variable [Scalar α]

/-- What the keys of the tables in a set are read as has a property. -/
def KeysRead (P : α → Prop) (s : FuzzySet α) : Prop :=
  ∀ table, discrete table ∈ s.nodes → ∀ key ∈ table.names, ∀ k,
    Scalar.ofText? (Text.trim key.toList) = some k → P k

/-- The numbers of a set and the counts of operands of its intersections have a property. -/
structure Supplies (P : α → Prop) (s : FuzzySet α) : Prop where
  /-- The numbers have the property. -/
  numbers : ∀ x ∈ s.numbers, P x
  /-- The counts have it, less one each. -/
  counts : ∀ op? ss, and op? ss ∈ s.nodes → P (Scalar.ofNat (ss.length - 1))

variable {P : α → Prop} {s : FuzzySet α} {ss : List (FuzzySet α)}

@[simp] theorem keysRead_not : (not s).KeysRead P ↔ s.KeysRead P := by simp [KeysRead, nodes]

@[simp] theorem keysRead_scale {factor : α} : (scale s factor).KeysRead P ↔ s.KeysRead P := by
  simp [KeysRead, nodes]

@[simp] theorem keysRead_implication {op : Implication} {truth : α} :
    (implication op truth s).KeysRead P ↔ s.KeysRead P := by
  simp [KeysRead, nodes]

private theorem keysRead_nodesAll_iff :
    (∀ table, discrete table ∈ nodesAll ss → ∀ key ∈ table.names, ∀ k,
      Scalar.ofText? (Text.trim key.toList) = some k → P k) ↔ ∀ s ∈ ss, s.KeysRead P := by
  simp only [KeysRead, mem_nodesAll_iff]
  constructor
  · intro h s hs table ht
    exact h table ⟨s, hs, ht⟩
  · rintro h table ⟨s, hs, ht⟩
    exact h s hs table ht

@[simp] theorem keysRead_or {op? : Option Disjunction} :
    (or op? ss).KeysRead P ↔ ∀ s ∈ ss, s.KeysRead P := by
  rw [← keysRead_nodesAll_iff]
  simp [KeysRead, nodes]

@[simp] theorem keysRead_and {op? : Option Conjunction} :
    (and op? ss).KeysRead P ↔ ∀ s ∈ ss, s.KeysRead P := by
  rw [← keysRead_nodesAll_iff]
  simp [KeysRead, nodes]

/-- What stands in a tree supplies what the tree does. -/
theorem Supplies.mono {t : FuzzySet α} (h : s.Supplies P) (hnumbers : t.numbers ⊆ s.numbers)
    (hnodes : t.nodes ⊆ s.nodes) : t.Supplies P :=
  ⟨fun x hx ↦ h.numbers x (hnumbers hx), fun op? ss hm ↦ h.counts op? ss (hnodes hm)⟩

private theorem Supplies.of_operands (h : s.Supplies P) (hnumbers : numbersAll ss ⊆ s.numbers)
    (hnodes : nodesAll ss ⊆ s.nodes) : ∀ t ∈ ss, t.Supplies P :=
  fun t ht ↦ h.mono (fun _ hx ↦ hnumbers (mem_numbersAll_iff.mpr ⟨t, ht, hx⟩))
    fun _ hm ↦ hnodes (mem_nodesAll_iff.mpr ⟨t, ht, hm⟩)

/-- An operand supplies what its union does. -/
theorem Supplies.of_or {op? : Option Disjunction} (h : (or op? ss).Supplies P) :
    ∀ s ∈ ss, s.Supplies P :=
  h.of_operands (fun _ hx ↦ hx) (List.subset_cons_self _ _)

/-- An operand supplies what its intersection does. -/
theorem Supplies.of_and {op? : Option Conjunction} (h : (and op? ss).Supplies P) :
    ∀ s ∈ ss, s.Supplies P :=
  h.of_operands (fun _ hx ↦ hx) (List.subset_cons_self _ _)

end FuzzySet

namespace CSource

open Expression

variable [Scalar α] {P : α → Prop} {ctx : Context} {x : String}

/-- Sets are written one by one. -/
theorem sets_eq_ok_iff {ss : List (FuzzySet α)} {es : List (Expression α)} :
    sets ctx x ss = .ok es ↔ List.Forall₂ (fun s e ↦ set ctx x s = .ok e) ss es := by
  induction ss generalizing es with
  | nil => cases es <;> simp [sets, pure_eq_ok]
  | cons s ss ih =>
    simp only [sets, bind_eq_ok_iff, ih, pure_eq_ok, Except.ok.injEq]
    constructor
    · rintro ⟨e, he, es, hes, rfl⟩
      exact .cons he hes
    · rintro (_ | ⟨he, hes⟩)
      exact ⟨_, he, _, hes, rfl⟩

/-- A set is written as its body in parentheses. -/
theorem set_eq_ok_iff {s : FuzzySet α} {e : Expression α} :
    set ctx x s = .ok e ↔ ∃ body, setBody ctx x s = .ok body ∧ e = grouped body := by
  rw [set, bind_eq_ok_iff]
  exact exists_congr fun body ↦ and_congr_right fun _ ↦
    ⟨fun h ↦ (Except.ok.inj h).symm, fun h ↦ h ▸ rfl⟩

mutual

/-- A set writes its numbers, counts of operands, zero and one, and what its keys are read as. -/
theorem writes_setBody_iff (hzero : P 0) (hone : P 1) :
    {s : FuzzySet α} → s.Supplies P → {e : Expression α} → setBody ctx x s = .ok e →
      (Writes P e ↔ s.KeysRead P)
  | .singleton (.number x₀), hs, e, he => by
    rw [setBody] at he
    cases he
    have hx₀ := hs.numbers x₀ (by simp [FuzzySet.numbers])
    simp [Token.number?, hzero, hone, hx₀, FuzzySet.KeysRead, FuzzySet.nodes]
  | .singleton (.label name), _, e, he => by
    rw [setBody] at he
    cases he
  | .discrete table, hs, e, he => by
    rw [setBody] at he
    have hdegrees : ∀ entry ∈ table.entries, P entry.2 :=
      fun entry hm ↦ hs.numbers _ (List.mem_map_of_mem hm)
    rw [writes_listed_iff hzero hdegrees he]
    simp [FuzzySet.KeysRead, FuzzySet.nodes, Table.names]
  | .constant value, hs, e, he => by
    rw [setBody] at he
    cases he
    have hvalue := hs.numbers value (by simp [FuzzySet.numbers])
    simp [hvalue, FuzzySet.KeysRead, FuzzySet.nodes]
  | .shape curve, hs, e, he => by
    rw [setBody] at he
    simp [writes_shape hzero hone hs.numbers he, FuzzySet.KeysRead, FuzzySet.nodes]
  | .not s, hs, e, he => by
    rw [setBody] at he
    obtain ⟨inner, hi, ⟨⟩⟩ := bind_eq_ok_iff.mp he
    obtain ⟨body, hbody, rfl⟩ := set_eq_ok_iff.mp hi
    have hs := hs.mono (t := s) (fun _ h ↦ h) (List.subset_cons_self _ _)
    simp [Token.number?, hone, writes_setBody_iff hzero hone hs hbody]
  | .scale s factor, hs, e, he => by
    rw [setBody] at he
    obtain ⟨inner, hi, ⟨⟩⟩ := bind_eq_ok_iff.mp he
    obtain ⟨body, hbody, rfl⟩ := set_eq_ok_iff.mp hi
    have hfactor := hs.numbers factor (by simp [FuzzySet.numbers])
    have hs := hs.mono (t := s) (List.subset_cons_self _ _) (List.subset_cons_self _ _)
    simp [Token.number?, hfactor, writes_setBody_iff hzero hone hs hbody]
  | .implication op truth s, hs, e, he => by
    rw [setBody] at he
    obtain ⟨inner, hi, he⟩ := bind_eq_ok_iff.mp he
    obtain ⟨body, hbody, rfl⟩ := set_eq_ok_iff.mp hi
    have htruth := hs.numbers truth (by simp [FuzzySet.numbers])
    have hs := hs.mono (t := s) (List.subset_cons_self _ _) (List.subset_cons_self _ _)
    have hbody := writes_setBody_iff hzero hone hs hbody
    cases op <;> cases he <;> simp [Token.number?, htruth, hbody]
  | .or op? ss, hs, e, he => by
    rw [setBody] at he
    obtain ⟨es, hes, ⟨⟩⟩ := bind_eq_ok_iff.mp he
    rw [writes_disjunction hone, FuzzySet.keysRead_or,
      writes_sets_iff hzero hone hs.of_or hes]
  | .and op? ss, hs, e, he => by
    rw [setBody] at he
    obtain ⟨es, hes, ⟨⟩⟩ := bind_eq_ok_iff.mp he
    have hlength := (sets_eq_ok_iff.mp hes).length_eq
    have hcount := hs.counts op? ss (by simp [FuzzySet.nodes])
    rw [writes_conjunction hzero (hlength ▸ hcount), FuzzySet.keysRead_and,
      writes_sets_iff hzero hone hs.of_and hes]

/-- Sets write what each of them does. -/
theorem writes_sets_iff (hzero : P 0) (hone : P 1) :
    {ss : List (FuzzySet α)} → (∀ s ∈ ss, s.Supplies P) → {es : List (Expression α)} →
      sets ctx x ss = .ok es → ((∀ e ∈ es, Writes P e) ↔ ∀ s ∈ ss, s.KeysRead P)
  | [], _, es, hes => by
    rw [sets] at hes
    cases hes
    simp
  | s :: ss, hs, es, hes => by
    rw [sets] at hes
    obtain ⟨e, he, hes⟩ := bind_eq_ok_iff.mp hes
    obtain ⟨rest, hrest, ⟨⟩⟩ := bind_eq_ok_iff.mp hes
    obtain ⟨body, hbody, rfl⟩ := set_eq_ok_iff.mp he
    rw [List.forall_mem_cons] at hs
    rw [List.forall_mem_cons, List.forall_mem_cons, writes_grouped,
      writes_setBody_iff hzero hone hs.1 hbody, writes_sets_iff hzero hone hs.2 hrest]

end

/-! ### Propositions and rules -/

/-- A set is looked up and written behind a valuation. -/
theorem valuation_eq_ok_iff {r : Registry α} {h : Handle} {label : String} {e : Expression α} :
    valuation r ctx h label = .ok e ↔
      ∃ v s, r.get h = .ok v ∧ v.get label = .ok s ∧ set ctx v.name s = .ok e := by
  simp only [valuation, bind_eq_ok_iff, mapError_eq_ok_iff, exists_and_left]

/-- What the keys are read as in the set behind a label has a property. -/
def LabelKeysRead (P : α → Prop) (r : Registry α) (a : Handle × String) : Prop :=
  ∀ s, r.labelSet a.1 a.2 = .ok s → s.KeysRead P

/-- The sets of a registry supply numbers and counts with a property. -/
def RegistrySupplies (P : α → Prop) (r : Registry α) : Prop :=
  ∀ v ∈ r.members, ∀ s ∈ v.labels.values, s.Supplies P

/-- The counts of operands of the conjunctions in a proposition have a property. -/
def CountsSupplied (P : α → Prop) (p : Proposition) : Prop :=
  ∀ ps, .and ps ∈ p.nodes → P (Scalar.ofNat (ps.length - 1))

section Registry

variable {r : Registry α}

private theorem writes_labelSet_iff (hzero : P 0) (hone : P 1) (hr : RegistrySupplies P r)
    {h : Handle} {v : Variable α} {label : String} {s : FuzzySet α} (hv : r.get h = .ok v)
    (hs : v.get label = .ok s) {e : Expression α} (he : set ctx x s = .ok e) :
    Writes P e ↔ LabelKeysRead P r (h, label) := by
  obtain ⟨body, hbody, rfl⟩ := set_eq_ok_iff.mp he
  have hsupplies := hr v (Registry.mem_of_get hv) s (Variable.mem_values_of_get hs)
  have hset : r.labelSet h label = .ok s := (Registry.labelSet_of_get hv label).trans hs
  rw [writes_grouped, writes_setBody_iff hzero hone hsupplies hbody, LabelKeysRead, hset]
  simp

/-- A valuation writes what its set does. -/
theorem writes_valuation_iff (hzero : P 0) (hone : P 1) (hr : RegistrySupplies P r) {h : Handle}
    {label : String} {e : Expression α} (he : valuation r ctx h label = .ok e) :
    Writes P e ↔ LabelKeysRead P r (h, label) := by
  obtain ⟨v, s, hv, hs, he⟩ := valuation_eq_ok_iff.mp he
  exact writes_labelSet_iff hzero hone hr hv hs he

mutual

/-- A proposition writes what the sets of its valuations do. -/
theorem writes_proposition_iff (hzero : P 0) (hone : P 1) (hr : RegistrySupplies P r) :
    {p : Proposition} → CountsSupplied P p → {e : Expression α} → proposition r ctx p = .ok e →
      (Writes P e ↔ ∀ a ∈ p.valuations, LabelKeysRead P r a)
  | .is h label, _, e, he => by
    rw [proposition] at he
    simp [Proposition.valuations, writes_valuation_iff hzero hone hr he]
  | .isNot h label, _, e, he => by
    rw [proposition] at he
    obtain ⟨inner, hi, ⟨⟩⟩ := bind_eq_ok_iff.mp he
    simp [Token.number?, hone, Proposition.valuations, writes_valuation_iff hzero hone hr hi]
  | .not p, hp, e, he => by
    rw [proposition] at he
    obtain ⟨inner, hi, ⟨⟩⟩ := bind_eq_ok_iff.mp he
    have hp : CountsSupplied P p := fun ps hm ↦ hp ps (by simp [Proposition.nodes, hm])
    simp [Token.number?, hone, Proposition.valuations,
      writes_proposition_iff hzero hone hr hp hi]
  | .and ps, hp, e, he => by
    rw [proposition] at he
    obtain ⟨es, hes, ⟨⟩⟩ := bind_eq_ok_iff.mp he
    obtain ⟨hes, hlength⟩ := writes_propositions_iff hzero hone hr
      (fun qs hm ↦ hp qs (by simp [Proposition.nodes, hm])) hes
    have hcount := hp ps (by simp [Proposition.nodes])
    rw [writes_conjunction hzero (hlength ▸ hcount), hes, Proposition.valuations]
  | .or ps, hp, e, he => by
    rw [proposition] at he
    obtain ⟨es, hes, ⟨⟩⟩ := bind_eq_ok_iff.mp he
    obtain ⟨hes, -⟩ := writes_propositions_iff hzero hone hr
      (fun qs hm ↦ hp qs (by simp [Proposition.nodes, hm])) hes
    rw [writes_disjunction hone, hes, Proposition.valuations]

/-- Propositions write what the sets of their valuations do. -/
theorem writes_propositions_iff (hzero : P 0) (hone : P 1) (hr : RegistrySupplies P r) :
    {ps : List Proposition} →
      (∀ qs, .and qs ∈ Proposition.nodesAll ps → P (Scalar.ofNat (qs.length - 1))) →
      {es : List (Expression α)} → propositions r ctx ps = .ok es →
      ((∀ e ∈ es, Writes P e) ↔ ∀ a ∈ Proposition.valuationsAll ps, LabelKeysRead P r a) ∧
        ps.length = es.length
  | [], _, es, hes => by
    rw [propositions] at hes
    cases hes
    simp [Proposition.valuationsAll]
  | p :: ps, hp, es, hes => by
    rw [propositions] at hes
    obtain ⟨e, he, hes⟩ := bind_eq_ok_iff.mp hes
    obtain ⟨rest, hrest, ⟨⟩⟩ := bind_eq_ok_iff.mp hes
    have he := writes_proposition_iff hzero hone hr
      (fun qs hm ↦ hp qs (List.mem_append_left _ hm)) he
    obtain ⟨hrest, hlength⟩ := writes_propositions_iff hzero hone hr
      (fun qs hm ↦ hp qs (List.mem_append_right _ hm)) hrest
    rw [List.forall_mem_cons, he, hrest, Proposition.valuationsAll, List.forall_mem_append]
    exact ⟨Iff.rfl, by simp [hlength]⟩

end

private theorem writes_weighted {weight : α} (hweight : P weight) {e : Expression α} :
    Writes P (if weight == 1 then e else literal weight ++ .times :: grouped e) ↔ Writes P e := by
  split <;> simp [Token.number?, hweight]

/-- A rule writes what the sets that it refers to do, and its weight. -/
theorem writes_rule_iff (hzero : P 0) (hone : P 1) (hr : RegistrySupplies P r) {target : String}
    {rule : Rule α} (hcounts : CountsSupplied P rule.antecedent) (hweight : P rule.weight)
    {e : Expression α} (he : CSource.rule r ctx target rule = .ok e) :
    Writes P e ↔ ∀ a ∈ (rule.target, rule.label) :: rule.antecedent.valuations,
      LabelKeysRead P r a := by
  obtain ⟨degree, hdegree, he⟩ := bind_eq_ok_iff.mp he
  obtain ⟨s, hs, he⟩ := bind_eq_ok_iff.mp he
  obtain ⟨conclusion, hconclusion, he⟩ := bind_eq_ok_iff.mp he
  have hdegree := writes_proposition_iff hzero hone hr hcounts hdegree
  obtain ⟨v, hv, hs⟩ := bind_eq_ok_iff.mp (mapError_eq_ok_iff.mp hs)
  have hconclusion := writes_labelSet_iff hzero hone hr hv hs hconclusion
  rw [List.forall_mem_cons, ← hdegree, ← hconclusion]
  cases hi : ctx.implication with
  | minimum =>
    rw [hi] at he
    cases he
    simp [writes_weighted hweight, and_comm]
  | product =>
    rw [hi] at he
    cases he
    simp [writes_weighted hweight, Token.number?, and_comm]

private theorem writes_rules_iff (hzero : P 0) (hone : P 1) (hr : RegistrySupplies P r)
    {target : String} {rules : List (Rule α)} {es : List (Expression α)}
    (hes : List.Forall₂ (fun rule e ↦ CSource.rule r ctx target rule = .ok e) rules es)
    (hcounts : ∀ rule ∈ rules, CountsSupplied P rule.antecedent)
    (hweights : ∀ rule ∈ rules, P rule.weight) :
    (∀ e ∈ es, Writes P e) ↔ ∀ rule ∈ rules,
      ∀ a ∈ (rule.target, rule.label) :: rule.antecedent.valuations, LabelKeysRead P r a := by
  induction hes with
  | nil => simp
  | cons he _ ih =>
    rw [List.forall_mem_cons] at hcounts hweights
    rw [List.forall_mem_cons, List.forall_mem_cons, ih hcounts.2 hweights.2,
      writes_rule_iff hzero hone hr hcounts.1 hweights.1 he]

/-- The expression for an output writes what the sets that its rules refer to do. -/
theorem writes_output_iff (hzero : P 0) (hone : P 1) (hr : RegistrySupplies P r) {target : String}
    {rules : List (Rule α)} (hcounts : ∀ rule ∈ rules, CountsSupplied P rule.antecedent)
    (hweights : ∀ rule ∈ rules, P rule.weight) {e : Expression α}
    (he : output r ctx target rules = .ok e) :
    Writes P e ↔ ∀ rule ∈ rules, ∀ a ∈ (rule.target, rule.label) :: rule.antecedent.valuations,
      LabelKeysRead P r a := by
  obtain ⟨es, hes, he⟩ := bind_eq_ok_iff.mp he
  rw [← writes_rules_iff hzero hone hr (mapM_eq_ok_iff.mp hes) hcounts hweights]
  cases es with
  | nil =>
    cases he
    simp [hzero]
  | cons e es =>
    cases he
    exact writes_disjunction hone

end Registry

end CSource

end FuzzyInference
