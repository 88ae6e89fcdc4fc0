import FuzzyInference.Interchange.Statement
import FuzzyInference.Proofs.Interchange.Fields

/-!
# Statements and rules are read back

Every statement is read back from its value, and so is every rule whose weight is finite. What is
written for a statement or a rule that was read is no larger than what it was read from.
-/

namespace FuzzyInference

open Json

namespace Statement

variable {fields : Fields} {buffered : Bool} {room : Nat}

mutual

/-- A statement is usable. -/
theorem usable_toJson : {s : Statement} → s.toJson.usable = true
  | is .. => by simp [toJson, usable_variant_iff]
  | isNot .. => by simp [toJson, usable_variant_iff]
  | not ss | and ss | or ss => by
    rw [toJson, usable_variant_iff, List.forall_mem_singleton]
    exact usableItems_iff.mpr usable_of_mem_toJsonAll

/-- The statements of a list are usable. -/
theorem usable_of_mem_toJsonAll :
    {ss : List Statement} → ∀ v ∈ toJsonAll ss, v.usable = true
  | [] => by simp [toJsonAll]
  | s :: ss => by
    rw [toJsonAll, List.forall_mem_cons]
    exact ⟨usable_toJson, usable_of_mem_toJsonAll⟩

end

mutual

/-- A statement is printable. -/
theorem printable_toJson : {s : Statement} → s.toJson.Printable
  | is .. => by simp [toJson, printable_variant_iff]
  | isNot .. => by simp [toJson, printable_variant_iff]
  | not ss | and ss | or ss => by
    rw [toJson, printable_variant_iff, List.forall_mem_singleton]
    exact printableItems_iff.mpr printable_of_mem_toJsonAll

/-- The statements of a list are printable. -/
theorem printable_of_mem_toJsonAll : {ss : List Statement} → ∀ v ∈ toJsonAll ss, v.Printable
  | [] => by simp [toJsonAll]
  | s :: ss => by
    rw [toJsonAll, List.forall_mem_cons]
    exact ⟨printable_toJson, printable_of_mem_toJsonAll⟩

end

/-- The operands among items are those among the fields that hold them. -/
theorem childrenAmong?_eq :
    childrenAmong? (fields.map Prod.fst) (fields.map Prod.snd) = children? fields := by
  induction fields with
  | nil => rfl
  | cons field fields ih => rw [List.map_cons, List.map_cons, childrenAmong?, children?, ih]

/-- A statement is read from a variant, an object or an array, by its tag and from the operands
among its fields. -/
theorem read?_eq_some_iff {v : Json} {s : Statement} : read? buffered v = some s ↔
    ∃ tag fields, Fields.tagged? buffered variants v = some (tag, fields) ∧
      assemble? tag fields (children? fields) = some s := by
  have hread {tag : String} {fields : Fields}
      (h : Fields.tagged? buffered variants v = some (tag, fields)) :
      read? buffered v = assemble? tag fields (children? fields) := by
    rcases Fields.of_tagged? h with rfl | ⟨first, items, rfl, rfl⟩
    · simp only [read?, h, Option.bind_eq_bind, Option.bind_some]
    · simp only [read?, h, Option.bind_eq_bind, Option.bind_some, childrenAmong?_eq]
  constructor
  · intro h
    have htagged : ∃ tag fields, Fields.tagged? buffered variants v = some (tag, fields) := by
      unfold read? at h
      split at h
      · obtain ⟨⟨tag, fields⟩, htagged, -⟩ := Option.bind_eq_some_iff.mp h
        exact ⟨tag, fields, htagged⟩
      · obtain ⟨⟨tag, fields⟩, htagged, -⟩ := Option.bind_eq_some_iff.mp h
        exact ⟨tag, fields, htagged⟩
      · cases h
    obtain ⟨tag, fields, htagged⟩ := htagged
    exact ⟨tag, fields, htagged, (hread htagged).symm.trans h⟩
  · rintro ⟨tag, fields, htagged, h⟩
    rw [hread htagged, h]

example : Statement.ofJson? (array [string "not", array [array [integer 0, string "heat",
    string "hot"]]]) = some (not [is "heat" "hot"]) := by rfl

/-- What is written as a variant is read by its tag, from the operands among its fields. -/
theorem read?_variant {tag : String} {s : Statement} (hu : ∀ f ∈ fields, f.2.usable = true)
    (hn : ∀ f ∈ fields, f.1 ≠ "type")
    (h : assemble? tag (("type", string tag) :: fields) (children? fields) = some s) :
    read? buffered (variant tag fields) = some s := by
  refine read?_eq_some_iff.mpr ⟨tag, _, Fields.tagged?_variant hu hn, ?_⟩
  rw [← h]
  simp [children?]

mutual

/-- A statement is read back. -/
theorem read?_toJson {buffered : Bool} : {s : Statement} → read? buffered s.toJson = some s
  | is .. | isNot .. =>
    read?_variant (by simp) (by simp)
      (by simp [assemble?, Fields.string?, string?, Fields.required?, Fields.optional?])
  | not ss | and ss | or ss => by
    have hitems : (array (toJsonAll ss)).usable = true :=
      usableItems_iff.mpr usable_of_mem_toJsonAll
    have hss : ofJsonAll? (toJsonAll ss) = some ss := ofJsonAll?_toJsonAll
    exact read?_variant (by simp [hitems]) (by simp)
      (by simp [assemble?, children?, ofItems?, Fields.required?, Fields.optional?, hss])

/-- The statements of a list are read back. -/
theorem ofJsonAll?_toJsonAll : {ss : List Statement} → ofJsonAll? (toJsonAll ss) = some ss
  | [] => rfl
  | s :: ss => by
    rw [toJsonAll, ofJsonAll?, read?_toJson, ofJsonAll?_toJsonAll]
    rfl

end

/-! ### Sizes -/

/-- Operands stand among the fields, as an array. -/
theorem mem_of_children? {ss : List Statement} (h : children? fields = some ss) :
    ∃ items, ("children", array items) ∈ fields ∧ ofJsonAll? items = some ss := by
  induction fields with
  | nil => simp [children?] at h
  | cons field fields ih =>
    obtain ⟨name, v⟩ := field
    rw [children?] at h
    split at h
    · next hn =>
      subst hn
      cases v with
      | array items => exact ⟨items, List.mem_cons_self, by rwa [ofItems?] at h⟩
      | _ => simp [ofItems?] at h
    · obtain ⟨items, hi, hs⟩ := ih h
      exact ⟨items, List.mem_cons_of_mem _ hi, hs⟩

/-- The operands of a statement that was put together are those that were found. -/
theorem of_assemble? {tag : String} {children? : Option (List Statement)} {s : Statement}
    (h : assemble? tag fields children? = some s) :
    match s with
    | is .. | isNot .. => True
    | not ss | and ss | or ss => children? = some ss := by
  unfold assemble? at h
  split at h
  all_goals
    simp only [Option.bind_eq_bind, Option.bind_eq_some_iff, Option.pure_def, Option.some.injEq,
      reduceCtorEq] at h
  · obtain ⟨_, -, _, -, rfl⟩ := h
    trivial
  · obtain ⟨_, -, _, -, rfl⟩ := h
    trivial
  · obtain ⟨_, -, ss, hss, rfl⟩ := h
    exact hss
  · obtain ⟨_, -, ss, hss, rfl⟩ := h
    exact hss
  · obtain ⟨_, -, ss, hss, rfl⟩ := h
    exact hss

mutual

/-- What is written for a statement is no larger than what it was read from. -/
theorem fits_toJson_of_read? {buffered : Bool} {room : Nat} : {s : Statement} → {v : Json} →
    read? buffered v = some s → v.fits room = true → s.toJson.fits room = true
  | s, v, h, hf => by
    obtain ⟨tag, fields, htagged, ha⟩ := read?_eq_some_iff.mp h
    obtain ⟨hroom, hf⟩ := Fields.fits_of_tagged? htagged hf
    have hpart := of_assemble? ha
    cases s with
    | is | isNot => simp [toJson, fits_variant_iff, hroom]
    | not ss | and ss | or ss =>
      obtain ⟨items, hi, hss⟩ := mem_of_children? hpart
      obtain ⟨hroom', hitems⟩ := fits_array_iff.mp (hf _ hi)
      rw [toJson, fits_variant_iff, List.forall_mem_singleton, fits_array_iff]
      exact ⟨hroom, hroom', fits_of_mem_toJsonAll hss hitems⟩

/-- What is written for several statements is no larger than what they were read from. -/
theorem fits_of_mem_toJsonAll {room : Nat} : {ss : List Statement} → {items : List Json} →
    ofJsonAll? items = some ss → (∀ v ∈ items, v.fits room = true) →
      ∀ v ∈ toJsonAll ss, v.fits room = true
  | [], _, _, _ => by simp [toJsonAll]
  | s :: ss, [], h, _ => by cases h
  | s :: ss, v :: items, h, hf => by
    obtain ⟨s', hs, h⟩ := Option.bind_eq_some_iff.mp h
    obtain ⟨ss', hss, ⟨⟩⟩ := Option.bind_eq_some_iff.mp h
    rw [List.forall_mem_cons] at hf
    rw [toJsonAll, List.forall_mem_cons]
    exact ⟨fits_toJson_of_read? hs hf.1, fits_of_mem_toJsonAll hss hf.2⟩

end

end Statement

/-! ### Rules -/

namespace RuleStatement

variable {s : RuleStatement Float} {room : Nat}

/-- A rule of finite weight is read back. -/
theorem ofJson?_toJson (h : s.weight.isFinite = true) : ofJson? s.toJson = some s := by
  simp [toJson, ofJson?, Statement.ofJson?, Fields.record?, Fields.required?, Fields.optional?,
    Statement.read?_toJson, float?_ofFloat h]

/-- A rule whose weight is identified by its digits is printable. -/
theorem printable_toJson (h : PrintsBack s.weight) : s.toJson.Printable := by
  rw [toJson, Printable, printableFields_iff]
  simp [Statement.printable_toJson, printable_ofFloat h]

/-- What is written for a rule is no larger than what it was read from. -/
theorem fits_toJson_of_ofJson? {v : Json} (hf : v.fits room = true) (h : ofJson? v = some s) :
    s.toJson.fits room = true := by
  simp only [ofJson?, Option.bind_eq_bind, Option.bind_eq_some_iff] at h
  obtain ⟨fields, hfields, a, ha, antecedent, hantecedent, c, hc, consequent, hconsequent, w, -,
    h⟩ := h
  obtain ⟨hroom, hf⟩ := Fields.fits_of_record? hfields hf
  obtain ⟨hsa, hsc⟩ : s.antecedent = antecedent ∧ s.consequent = consequent := by
    -- the weight may be missing
    cases w with
    | none =>
      cases h
      exact ⟨rfl, rfl⟩
    | some value =>
      obtain ⟨weight, -, ⟨⟩⟩ := Option.bind_eq_some_iff.mp h
      exact ⟨rfl, rfl⟩
  have ha := Statement.fits_toJson_of_read? hantecedent (hf _ (Fields.mem_of_required? ha))
  have hc := Statement.fits_toJson_of_read? hconsequent (hf _ (Fields.mem_of_required? hc))
  simp [toJson, fits_object_iff, hroom, hsa, hsc, ha, hc]

end RuleStatement

namespace RuleBaseStatement

variable {s : RuleBaseStatement Float} {room : Nat}

/-- Rules of finite weights are read back, in their order. -/
theorem ofJson?_toJson (h : ∀ r ∈ s.rules, r.weight.isFinite = true) :
    ofJson? s.toJson = some s := by
  have hrules : (s.rules.map RuleStatement.toJson).mapM RuleStatement.ofJson? = some s.rules :=
    mapM_map_eq fun r hr ↦ RuleStatement.ofJson?_toJson (h r hr)
  simp [toJson, ofJson?, Fields.record?, Fields.items?, Json.items?, Fields.required?,
    Fields.optional?, hrules]

/-- Rules whose weights are identified by their digits are printable. -/
theorem printable_toJson (h : ∀ r ∈ s.rules, PrintsBack r.weight) : s.toJson.Printable := by
  rw [toJson, Printable, printableFields_iff, List.forall_mem_singleton, Printable,
    printableItems_iff, List.forall_mem_map]
  intro r hr
  exact RuleStatement.printable_toJson (h r hr)

/-- What is written for rules is no larger than what they were read from. -/
theorem fits_toJson_of_ofJson? {v : Json} (hf : v.fits room = true) (h : ofJson? v = some s) :
    s.toJson.fits room = true := by
  obtain ⟨fields, hfields, h⟩ := Option.bind_eq_some_iff.mp h
  obtain ⟨items, hi, h⟩ := Option.bind_eq_some_iff.mp h
  obtain ⟨rules, hrules, ⟨⟩⟩ := Option.bind_eq_some_iff.mp h
  obtain ⟨hroom, hf⟩ := Fields.fits_of_record? hfields hf
  obtain ⟨hroom', hitems⟩ := fits_array_iff.mp (hf _ (Fields.mem_of_items? hi))
  rw [toJson, fits_object_iff, List.forall_mem_singleton, fits_array_iff]
  exact ⟨hroom, hroom',
    fits_map_of_mapM hrules hitems fun _ _ ↦ RuleStatement.fits_toJson_of_ofJson?⟩

end RuleBaseStatement

end FuzzyInference
