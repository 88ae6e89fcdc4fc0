import FuzzyInference.Interchange.FuzzySet
import FuzzyInference.Proofs.FuzzySystem.Numbers
import FuzzyInference.Proofs.Interchange.Fields

/-!
# Fuzzy sets are read back

A set whose numbers are finite is read back from its value, with the operators that its unions and
intersections name and without those that they leave to the context. What is written for a set that
was read is no larger than what it was read from.
-/

namespace FuzzyInference

open Json

/-! ### Operators -/

/-- A conjunction is found by its tag. -/
@[simp] theorem Conjunction.ofTag?_tag {op : Conjunction} : ofTag? op.tag = some op := by
  cases op <;> rfl

/-- A disjunction is found by its tag. -/
@[simp] theorem Disjunction.ofTag?_tag {op : Disjunction} : ofTag? op.tag = some op := by
  cases op <;> rfl

/-- An implication is found by its tag. -/
@[simp] theorem Implication.ofTag?_tag {op : Implication} : ofTag? op.tag = some op := by
  cases op <;> rfl

/-! ### Points -/

namespace Point

variable {x : Point Float} {room : Nat}

/-- A point is usable. -/
@[simp] theorem usable_toJson : x.toJson.usable = true := by
  cases x with
  | number n => exact usable_ofFloat
  | label name => rfl

/-- A point fits anywhere. -/
@[simp] theorem fits_toJson : x.toJson.fits room = true := by
  cases x with
  | number n => exact fits_ofFloat
  | label name => rfl

/-- A label is kept apart from a number. -/
theorem ofJson?_toJson (h : ∀ n, x = number n → n.isFinite = true) :
    ofJson? x.toJson = some x := by
  cases x with
  | label name => rfl
  | number n =>
    have hn := h n rfl
    rw [toJson, ofFloat, if_pos hn]
    rfl

/-- A point whose number is identified by its digits is printable. -/
theorem printable_toJson (h : ∀ n, x = number n → PrintsBack n) : x.toJson.Printable := by
  cases x with
  | label name => trivial
  | number n => exact printable_ofFloat (h n rfl)

end Point

/-! ### Shapes -/

namespace Shape

variable {curve : Shape Float} {fields : Fields} {room : Nat}

/-- The fields of a shape are usable. -/
theorem usable_of_mem_toFields : ∀ f ∈ curve.toFields, f.2.usable = true := by
  cases curve with
  | piecewise points =>
    rw [toFields, List.forall_mem_singleton, usable, usableItems_iff, List.forall_mem_map]
    intro p _
    rw [usable, usableItems_iff]
    simp
  | _ => simp [toFields, parameters]

/-- No field of a shape takes the place of its tag. -/
theorem ne_type_of_mem_toFields : ∀ f ∈ curve.toFields, f.1 ≠ "type" := by
  cases curve <;> simp [toFields, parameters]

/-- A shape is read back from its fields. -/
theorem ofFields?_toFields (h : ∀ x ∈ curve.numbers, x.isFinite = true) :
    ofFields? curve.name (("type", string curve.name) :: curve.toFields) = some curve := by
  cases curve with
  | piecewise points =>
    rw [numbers, List.forall_mem_append, List.forall_mem_map, List.forall_mem_map] at h
    have hread : (points.map fun p ↦ array [ofFloat p.1, ofFloat p.2]).mapM polygonPoint? =
        some points := by
      apply mapM_map_eq
      intro p hp
      simp [polygonPoint?, float?_ofFloat (h.1 p hp), float?_ofFloat (h.2 p hp)]
    have hfields : (piecewise points).toFields =
        [("points", array (points.map fun p ↦ array [ofFloat p.1, ofFloat p.2]))] := rfl
    simp [ofFields?, name, hfields, Fields.items?, Fields.required?, Fields.optional?, Json.items?,
      hread]
  | _ =>
    simp only [numbers, parameters, List.map_cons, List.map_nil, List.forall_mem_cons] at h
    simp [ofFields?, name, toFields, parameters, Fields.float?, Fields.required?,
      Fields.optional?, float?_ofFloat, h]

/-- The fields of a shape are printable. -/
theorem printable_of_mem_toFields (h : ∀ x ∈ curve.numbers, PrintsBack x) :
    ∀ f ∈ curve.toFields, f.2.Printable := by
  cases curve with
  | piecewise points =>
    rw [numbers, List.forall_mem_append, List.forall_mem_map, List.forall_mem_map] at h
    rw [toFields, List.forall_mem_singleton, Printable, printableItems_iff, List.forall_mem_map]
    intro p hp
    rw [Printable, printableItems_iff]
    simp [printable_ofFloat (h.1 p hp), printable_ofFloat (h.2 p hp)]
  | _ =>
    simp only [numbers, parameters, List.map_cons, List.map_nil, List.forall_mem_cons] at h
    simp [toFields, parameters, printable_ofFloat, h]

/-- The fields of a shape are no larger than those that it was read from. -/
theorem fits_toFields_of_ofFields? {name : String} (h : ofFields? name fields = some curve)
    (hf : ∀ f ∈ fields, f.2.fits room = true) : ∀ f ∈ curve.toFields, f.2.fits room = true := by
  cases curve with
  | piecewise points =>
    obtain ⟨items, hi, hm⟩ : ∃ items, fields.items? "points" = some items ∧
        items.mapM polygonPoint? = some points := by
      unfold ofFields? at h
      split at h <;> simp_all [Option.bind_eq_some_iff]
    rw [toFields, List.forall_mem_singleton, fits_array_iff]
    obtain ⟨hroom, hitems⟩ := fits_array_iff.mp (hf _ (Fields.mem_of_items? hi))
    refine ⟨hroom, fits_map_of_mapM hm hitems fun v p hv hp ↦ ?_⟩
    cases v with
    | array coordinates =>
      rw [fits_array_iff] at hv ⊢
      simp [hv.1]
    | _ => cases hp
  | _ => simp [toFields, parameters]

end Shape

/-! ### Sets -/

namespace FuzzySet

variable {fields : Fields} {buffered : Bool} {room : Nat}

section Operation

variable {tag? : Option String} {items : List Json}

/-- The fields of a union or an intersection of usable sets are usable. -/
theorem usable_of_mem_operation (h : ∀ v ∈ items, v.usable = true) :
    ∀ f ∈ operatorField tag? ++ [("sets", array items)], f.2.usable = true := by
  have hitems : (array items).usable = true := usableItems_iff.mpr h
  cases tag? <;> simp [operatorField, hitems]

/-- The fields of a union or an intersection of printable sets are printable. -/
theorem printable_of_mem_operation (h : ∀ v ∈ items, v.Printable) :
    ∀ f ∈ operatorField tag? ++ [("sets", array items)], f.2.Printable := by
  have hitems : (array items).Printable := printableItems_iff.mpr h
  cases tag? <;> simp [operatorField, hitems]

/-- The operands of a union or an intersection lie two levels below it. -/
theorem fits_of_mem_operation (h : (array items).fits room = true) :
    ∀ f ∈ operatorField tag? ++ [("sets", array items)], f.2.fits room = true := by
  cases tag? <;> simp [operatorField, h]

/-- No field of a union or an intersection takes the place of its tag. -/
theorem ne_type_of_mem_operation :
    ∀ f ∈ operatorField tag? ++ [("sets", array items)], f.1 ≠ "type" := by
  cases tag? <;> simp [operatorField]

/-- The operands of a union or an intersection are found behind its operator. -/
theorem operands?_operation :
    operands? (operatorField tag? ++ [("sets", array items)]) = ofJsonAll? items := by
  cases tag? <;> simp [operatorField, operands?, ofItems?]

/-- The field for the operands of a union or an intersection is there. -/
theorem required?_operation {name : String} :
    Fields.required? (("type", string name) :: (operatorField tag? ++ [("sets", array items)]))
      "sets" = some (array items) := by
  cases tag? <;> simp [operatorField, Fields.required?, Fields.optional?]

/-- The operator of a union or an intersection is read back, and so is that there is none. -/
theorem operator?_operation {β : Type} {ofTag? : String → Option β} {tag : β → String}
    (h : ∀ op, ofTag? (tag op) = some op) (op? : Option β) (name : String) (items : List Json) :
    operator? ofTag?
        (("type", string name) :: (operatorField (op?.map tag) ++ [("sets", array items)])) =
      some op? := by
  cases op? <;> simp [operator?, operatorField, Fields.optional?, h]

end Operation

mutual

/-- A set is usable. -/
theorem usable_toJson : {s : FuzzySet Float} → s.toJson.usable = true
  | singleton x => by simp [toJson, usable_variant_iff]
  | discrete table => by
    rw [toJson, usable_variant_iff, List.forall_mem_singleton]
    exact usable_ofTable fun _ _ ↦ usable_ofFloat
  | constant value => by simp [toJson, usable_variant_iff]
  | shape curve => usable_variant_iff.mpr Shape.usable_of_mem_toFields
  | not s => by simp [toJson, usable_variant_iff, usable_toJson (s := s)]
  | scale s k => by simp [toJson, usable_variant_iff, usable_toJson (s := s)]
  | implication op truth s => by
    simp [toJson, usable_variant_iff, usable_toJson (s := s)]
  | or op? ss => usable_variant_iff.mpr (usable_of_mem_operation usable_of_mem_toJsonAll)
  | and op? ss => usable_variant_iff.mpr (usable_of_mem_operation usable_of_mem_toJsonAll)

/-- The sets of a list are usable. -/
theorem usable_of_mem_toJsonAll :
    {ss : List (FuzzySet Float)} → ∀ v ∈ toJsonAll ss, v.usable = true
  | [] => by simp [toJsonAll]
  | s :: ss => by
    rw [toJsonAll, List.forall_mem_cons]
    exact ⟨usable_toJson, usable_of_mem_toJsonAll⟩

end

mutual

/-- A set whose numbers are identified by their digits is printable. -/
theorem printable_toJson : {s : FuzzySet Float} → (∀ x ∈ s.numbers, PrintsBack x) →
    s.toJson.Printable
  | singleton x, h => by
    rw [toJson, printable_variant_iff, List.forall_mem_singleton]
    apply Point.printable_toJson
    rintro n rfl
    exact h n (List.mem_singleton_self n)
  | discrete table, h => by
    rw [toJson, printable_variant_iff, List.forall_mem_singleton]
    exact printable_ofTable fun x hx ↦ printable_ofFloat (h x hx)
  | constant value, h => by
    rw [toJson, printable_variant_iff, List.forall_mem_singleton]
    exact printable_ofFloat (h value (List.mem_singleton_self value))
  | shape curve, h => printable_variant_iff.mpr (Shape.printable_of_mem_toFields h)
  | not s, h => by
    rw [toJson, printable_variant_iff, List.forall_mem_singleton]
    exact printable_toJson (s := s) h
  | scale s k, h => by
    rw [numbers, List.forall_mem_cons] at h
    simp [toJson, printable_variant_iff, printable_toJson h.2, printable_ofFloat h.1]
  | implication op truth s, h => by
    rw [numbers, List.forall_mem_cons] at h
    simp [toJson, printable_variant_iff, printable_toJson h.2, printable_ofFloat h.1]
  | or op? ss, h =>
    printable_variant_iff.mpr (printable_of_mem_operation (printable_of_mem_toJsonAll h))
  | and op? ss, h =>
    printable_variant_iff.mpr (printable_of_mem_operation (printable_of_mem_toJsonAll h))

/-- The sets of a list are printable when their numbers are identified by their digits. -/
theorem printable_of_mem_toJsonAll : {ss : List (FuzzySet Float)} →
    (∀ x ∈ numbersAll ss, PrintsBack x) → ∀ v ∈ toJsonAll ss, v.Printable
  | [], _ => by simp [toJsonAll]
  | s :: ss, h => by
    rw [numbersAll, List.forall_mem_append] at h
    rw [toJsonAll, List.forall_mem_cons]
    exact ⟨printable_toJson h.1, printable_of_mem_toJsonAll h.2⟩

end

/-- The operand among items is that among the fields that hold them. -/
theorem operandAmong?_eq :
    operandAmong? (fields.map Prod.fst) (fields.map Prod.snd) = operand? fields := by
  induction fields with
  | nil => rfl
  | cons field fields ih => rw [List.map_cons, List.map_cons, operandAmong?, operand?, ih]

/-- The operands among items are those among the fields that hold them. -/
theorem operandsAmong?_eq :
    operandsAmong? (fields.map Prod.fst) (fields.map Prod.snd) = operands? fields := by
  induction fields with
  | nil => rfl
  | cons field fields ih => rw [List.map_cons, List.map_cons, operandsAmong?, operands?, ih]

/-- A set is read from a variant, an object or an array, by its tag and from the operands among its
fields. -/
theorem read?_eq_some_iff {v : Json} {s : FuzzySet Float} : read? buffered v = some s ↔
    ∃ tag fields, Fields.tagged? buffered variants v = some (tag, fields) ∧
      assemble? tag fields (operand? fields) (operands? fields) = some s := by
  have hread {tag : String} {fields : Fields}
      (h : Fields.tagged? buffered variants v = some (tag, fields)) :
      read? buffered v = assemble? tag fields (operand? fields) (operands? fields) := by
    rcases Fields.of_tagged? h with rfl | ⟨first, items, rfl, rfl⟩
    · simp only [read?, h, Option.bind_eq_bind, Option.bind_some]
    · simp only [read?, h, Option.bind_eq_bind, Option.bind_some, operandAmong?_eq,
        operandsAmong?_eq]
  constructor
  · intro h
    have htagged : ∃ tag fields, Fields.tagged? buffered variants v = some (tag, fields) := by
      unfold read? at h
      split at h
      · obtain ⟨⟨tag, fields⟩, htagged, -⟩ := Option.bind_eq_some_iff.mp h
        exact ⟨tag, fields, htagged⟩
      · obtain ⟨⟨tag, fields⟩, htagged, -⟩ := Option.bind_eq_some_iff.mp h
        exact ⟨tag, fields, htagged⟩
      · cases h
    obtain ⟨tag, fields, htagged⟩ := htagged
    exact ⟨tag, fields, htagged, (hread htagged).symm.trans h⟩
  · rintro ⟨tag, fields, htagged, h⟩
    rw [hread htagged, h]

/-- What is written as a variant is read by its tag, from the operands among its fields. -/
theorem read?_variant {tag : String} {s : FuzzySet Float} (hu : ∀ f ∈ fields, f.2.usable = true)
    (hn : ∀ f ∈ fields, f.1 ≠ "type")
    (h : assemble? tag (("type", string tag) :: fields) (operand? fields) (operands? fields) =
      some s) : read? buffered (variant tag fields) = some s := by
  refine read?_eq_some_iff.mpr ⟨tag, _, Fields.tagged?_variant hu hn, ?_⟩
  rw [← h]
  simp [operand?, operands?]

/-- A shape is read among the shapes. -/
theorem assemble?_name {curve : Shape Float} {set? : Option (FuzzySet Float)}
    {sets? : Option (List (FuzzySet Float))} :
    assemble? curve.name fields set? sets? = (Shape.ofFields? curve.name fields).map shape := by
  cases curve <;> rfl

mutual

/-- A set of finite numbers is read back. -/
theorem read?_toJson {buffered : Bool} : {s : FuzzySet Float} →
    (∀ x ∈ s.numbers, x.isFinite = true) → read? buffered s.toJson = some s
  | singleton x, h => by
    have hx : Point.ofJson? x.toJson = some x := Point.ofJson?_toJson fun n hx ↦ by
      subst hx
      exact h n (List.mem_singleton_self n)
    exact read?_variant (by simp) (by simp)
      (by simp [assemble?, Fields.required?, Fields.optional?, hx])
  | discrete table, h => by
    have ht : table? float? (ofTable ofFloat table) = some table :=
      table?_ofTable fun x hx ↦ float?_ofFloat (h x hx)
    exact read?_variant (by simp [usable_ofTable]) (by simp)
      (by simp [assemble?, Fields.required?, Fields.optional?, ht])
  | constant value, h => by
    have hv := float?_ofFloat (h value (List.mem_singleton_self value))
    exact read?_variant (by simp) (by simp)
      (by simp [assemble?, Fields.float?, Fields.required?, Fields.optional?, hv])
  | shape curve, h => by
    refine read?_variant Shape.usable_of_mem_toFields Shape.ne_type_of_mem_toFields ?_
    rw [assemble?_name, Shape.ofFields?_toFields h, Option.map_some]
  | not s, h => by
    have hs : read? true s.toJson = some s := read?_toJson h
    exact read?_variant (by simp [usable_toJson]) (by simp)
      (by simp [assemble?, operand?, Fields.required?, Fields.optional?, hs])
  | scale s k, h => by
    rw [numbers, List.forall_mem_cons] at h
    have hs : read? true s.toJson = some s := read?_toJson h.2
    exact read?_variant (by simp [usable_toJson]) (by simp)
      (by simp [assemble?, operand?, Fields.float?, Fields.required?, Fields.optional?, hs,
        float?_ofFloat h.1])
  | implication op truth s, h => by
    rw [numbers, List.forall_mem_cons] at h
    have hs : read? true s.toJson = some s := read?_toJson h.2
    exact read?_variant (by simp [usable_toJson]) (by simp)
      (by simp [assemble?, operand?, Fields.float?, Fields.required?, Fields.optional?, hs,
        float?_ofFloat h.1])
  | or op? ss, h => by
    have hss : ofJsonAll? (toJsonAll ss) = some ss := ofJsonAll?_toJsonAll h
    have hop := operator?_operation (fun _ ↦ Disjunction.ofTag?_tag) op? "or"
      (toJsonAll ss)
    refine read?_variant (usable_of_mem_operation usable_of_mem_toJsonAll)
      ne_type_of_mem_operation ?_
    rw [operands?_operation, hss]
    simp [assemble?, required?_operation, hop]
  | and op? ss, h => by
    have hss : ofJsonAll? (toJsonAll ss) = some ss := ofJsonAll?_toJsonAll h
    have hop := operator?_operation (fun _ ↦ Conjunction.ofTag?_tag) op? "and"
      (toJsonAll ss)
    refine read?_variant (usable_of_mem_operation usable_of_mem_toJsonAll)
      ne_type_of_mem_operation ?_
    rw [operands?_operation, hss]
    simp [assemble?, required?_operation, hop]

/-- Sets of finite numbers are read back. -/
theorem ofJsonAll?_toJsonAll : {ss : List (FuzzySet Float)} →
    (∀ x ∈ numbersAll ss, x.isFinite = true) → ofJsonAll? (toJsonAll ss) = some ss
  | [], _ => rfl
  | s :: ss, h => by
    rw [numbersAll, List.forall_mem_append] at h
    rw [toJsonAll, ofJsonAll?, read?_toJson h.1, ofJsonAll?_toJsonAll h.2]
    rfl

end

/-! ### Sizes -/

/-- An operand stands among the fields. -/
theorem mem_of_operand? {s : FuzzySet Float} (h : operand? fields = some s) :
    ∃ v, ("set", v) ∈ fields ∧ read? true v = some s := by
  induction fields with
  | nil => simp [operand?] at h
  | cons field fields ih =>
    obtain ⟨name, v⟩ := field
    rw [operand?] at h
    split at h
    · next hn =>
      subst hn
      exact ⟨v, List.mem_cons_self, h⟩
    · obtain ⟨w, hw, hs⟩ := ih h
      exact ⟨w, List.mem_cons_of_mem _ hw, hs⟩

/-- Operands stand among the fields, as an array. -/
theorem mem_of_operands? {ss : List (FuzzySet Float)} (h : operands? fields = some ss) :
    ∃ items, ("sets", array items) ∈ fields ∧ ofJsonAll? items = some ss := by
  induction fields with
  | nil => simp [operands?] at h
  | cons field fields ih =>
    obtain ⟨name, v⟩ := field
    rw [operands?] at h
    split at h
    · next hn =>
      subst hn
      cases v with
      | array items => exact ⟨items, List.mem_cons_self, by rwa [ofItems?] at h⟩
      | _ => simp [ofItems?] at h
    · obtain ⟨items, hi, hs⟩ := ih h
      exact ⟨items, List.mem_cons_of_mem _ hi, hs⟩

/-- What a set was put together from: its operands are those that were found, and a table or a
shape was read from the fields. -/
theorem of_assemble? {tag : String} {set? : Option (FuzzySet Float)}
    {sets? : Option (List (FuzzySet Float))} {s : FuzzySet Float}
    (h : assemble? tag fields set? sets? = some s) :
    match s with
    | singleton _ | constant _ => True
    | discrete table => ∃ v, fields.required? "d" = some v ∧ table? float? v = some table
    | shape curve => ∃ name, Shape.ofFields? name fields = some curve
    | not t | scale t _ | implication _ _ t => set? = some t
    | or _ ts | and _ ts => sets? = some ts := by
  unfold assemble? at h
  split at h
  all_goals
    simp only [Option.bind_eq_bind, Option.bind_eq_some_iff, Option.map_eq_some_iff,
      Option.pure_def, Option.some.injEq] at h
  · obtain ⟨_, -, _, -, rfl⟩ := h
    trivial
  · obtain ⟨v, hv, table, ht, rfl⟩ := h
    exact ⟨v, hv, ht⟩
  · obtain ⟨_, -, rfl⟩ := h
    trivial
  · obtain ⟨_, -, t, ht, rfl⟩ := h
    exact ht
  · obtain ⟨_, -, t, ht, _, -, rfl⟩ := h
    exact ht
  · obtain ⟨_, -, _, -, _, -, _, -, _, -, t, ht, rfl⟩ := h
    exact ht
  · obtain ⟨_, -, _, -, ts, hts, rfl⟩ := h
    exact hts
  · obtain ⟨_, -, _, -, ts, hts, rfl⟩ := h
    exact hts
  · obtain ⟨curve, hcurve, rfl⟩ := h
    exact ⟨_, hcurve⟩

mutual

/-- What is written for a set is no larger than what it was read from. -/
theorem fits_toJson_of_read? {buffered : Bool} {room : Nat} : {s : FuzzySet Float} → {v : Json} →
    read? buffered v = some s → v.fits room = true → s.toJson.fits room = true
  | s, v, h, hf => by
    obtain ⟨tag, fields, htagged, ha⟩ := read?_eq_some_iff.mp h
    obtain ⟨hroom, hf⟩ := Fields.fits_of_tagged? htagged hf
    have hpart := of_assemble? ha
    cases s with
    | singleton | constant => simp [toJson, fits_variant_iff, hroom]
    | discrete table =>
      obtain ⟨v, hv, ht⟩ := hpart
      rw [toJson, fits_variant_iff, List.forall_mem_singleton]
      exact ⟨hroom, fits_ofTable_of_table? ht (hf _ (Fields.mem_of_required? hv))
        fun _ _ _ _ ↦ fits_ofFloat⟩
    | shape curve =>
      obtain ⟨name, hcurve⟩ := hpart
      exact fits_variant_iff.mpr ⟨hroom, Shape.fits_toFields_of_ofFields? hcurve hf⟩
    | not t =>
      obtain ⟨v, hv, ht⟩ := mem_of_operand? hpart
      have := fits_toJson_of_read? ht (hf _ hv)
      simp [toJson, fits_variant_iff, hroom, this]
    | scale t k =>
      obtain ⟨v, hv, ht⟩ := mem_of_operand? hpart
      have := fits_toJson_of_read? ht (hf _ hv)
      simp [toJson, fits_variant_iff, hroom, this]
    | implication op truth t =>
      obtain ⟨v, hv, ht⟩ := mem_of_operand? hpart
      have := fits_toJson_of_read? ht (hf _ hv)
      simp [toJson, fits_variant_iff, hroom, this]
    | or op? ts =>
      obtain ⟨items, hi, hts⟩ := mem_of_operands? hpart
      obtain ⟨hroom', hitems⟩ := fits_array_iff.mp (hf _ hi)
      have hts := fits_array_iff.mpr ⟨hroom', fits_of_mem_toJsonAll hts hitems⟩
      exact fits_variant_iff.mpr ⟨hroom, fits_of_mem_operation hts⟩
    | and op? ts =>
      obtain ⟨items, hi, hts⟩ := mem_of_operands? hpart
      obtain ⟨hroom', hitems⟩ := fits_array_iff.mp (hf _ hi)
      have hts := fits_array_iff.mpr ⟨hroom', fits_of_mem_toJsonAll hts hitems⟩
      exact fits_variant_iff.mpr ⟨hroom, fits_of_mem_operation hts⟩

/-- What is written for several sets is no larger than what they were read from. -/
theorem fits_of_mem_toJsonAll {room : Nat} : {ss : List (FuzzySet Float)} → {items : List Json} →
    ofJsonAll? items = some ss → (∀ v ∈ items, v.fits room = true) →
      ∀ v ∈ toJsonAll ss, v.fits room = true
  | [], _, _, _ => by simp [toJsonAll]
  | s :: ss, [], h, _ => by cases h
  | s :: ss, v :: items, h, hf => by
    obtain ⟨s', hs, h⟩ := Option.bind_eq_some_iff.mp h
    obtain ⟨ss', hss, ⟨⟩⟩ := Option.bind_eq_some_iff.mp h
    rw [List.forall_mem_cons] at hf
    rw [toJsonAll, List.forall_mem_cons]
    exact ⟨fits_toJson_of_read? hs hf.1, fits_of_mem_toJsonAll hss hf.2⟩

end

end FuzzySet

end FuzzyInference
