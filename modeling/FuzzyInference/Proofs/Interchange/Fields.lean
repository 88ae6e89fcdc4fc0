import FuzzyInference.Interchange.Fields
import FuzzyInference.Proofs.Json.Basic
import FuzzyInference.Proofs.Table
import Mathlib.Data.Option.Basic

/-!
# Fields that are written and read

What is written under a name is found there, and what is found is no larger than where it was found.
Lists and tables are read back entry by entry.
-/

namespace FuzzyInference.Json

/-! ### Usable values -/

/-- The values of a list are usable one by one. -/
theorem usableItems_iff {items : List Json} :
    usableItems items = true ↔ ∀ v ∈ items, v.usable = true := by
  induction items with
  | nil => simp [usableItems]
  | cons item items ih => rw [usableItems, Bool.and_eq_true, ih, List.forall_mem_cons]

/-- The values of fields are usable one by one. -/
theorem usableFields_iff {fields : Fields} :
    usableFields fields = true ↔ ∀ f ∈ fields, f.2.usable = true := by
  induction fields with
  | nil => simp [usableFields]
  | cons field fields ih => rw [usableFields, Bool.and_eq_true, ih, List.forall_mem_cons]

/-! ### Numbers -/

section Number

variable {x : Float} {room : Nat}

/-- A finite number is read back. -/
theorem float?_ofFloat (hx : x.isFinite = true) : (ofFloat x).float? = some x := by
  rw [ofFloat, if_pos hx, float?]

/-- A number is usable. -/
@[simp] theorem usable_ofFloat : (ofFloat x).usable = true := by
  rw [ofFloat]
  split <;> rfl

/-- A number fits anywhere. -/
@[simp] theorem fits_ofFloat : (ofFloat x).fits room = true := by
  rw [ofFloat]
  split <;> rfl

/-- A number that its digits identify is printable. -/
theorem printable_ofFloat (h : PrintsBack x) : (ofFloat x).Printable := by
  rw [ofFloat]
  split
  · next hx => exact ⟨hx, h⟩
  · trivial

end Number

/-! ### Texts -/

section Text

variable {s : String} {room : Nat}

/-- A text is usable. -/
@[simp] theorem usable_string : (string s).usable = true := rfl

/-- A text is printable. -/
@[simp] theorem printable_string : (string s).Printable := trivial

/-- A text fits anywhere. -/
@[simp] theorem fits_string : (string s).fits room = true := rfl

/-- A text is a tag. -/
@[simp] theorem unitTag?_string {buffered : Bool} : (string s).unitTag? buffered = some s := rfl

end Text

/-! ### Variants -/

section Variant

variable {tag : String} {fields : Fields}

/-- A variant of usable fields is usable. -/
theorem usable_variant_iff :
    (variant tag fields).usable = true ↔ ∀ f ∈ fields, f.2.usable = true := by
  rw [variant, usable, usableFields_iff, List.forall_mem_cons]
  exact and_iff_right rfl

/-- A variant of printable fields is printable. -/
theorem printable_variant_iff :
    (variant tag fields).Printable ↔ ∀ f ∈ fields, f.2.Printable := by
  rw [variant, Printable, printableFields_iff, List.forall_mem_cons]
  exact and_iff_right trivial

/-- A variant takes up one level. -/
theorem fits_variant_iff {room : Nat} : (variant tag fields).fits room = true ↔
    0 < room ∧ ∀ f ∈ fields, f.2.fits (room - 1) = true := by
  rw [variant, fits_object_iff, List.forall_mem_cons]
  exact and_congr_right fun _ ↦ and_iff_right rfl

end Variant

/-! ### Lookups -/

/-- Looking at what is there and dropping it succeeds. -/
@[simp] theorem discard_some {β : Type} {b : β} : discard (some b) = some ⟨⟩ := rfl

namespace Fields

variable {fields : Fields} {name : String} {names : List String} {variants : Variants}
  {buffered : Bool} {v : Json}

/-- What is found under a name stands there. -/
theorem mem_of_optional? (h : fields.optional? name = some (some v)) : (name, v) ∈ fields := by
  unfold optional? at h
  split at h
  · cases h
  · next key w he =>
    have hw : w = v := by simpa using h
    have hm : (key, w) ∈ fields.filter (·.1 == name) := he ▸ List.mem_singleton_self _
    obtain ⟨hm, hk⟩ := List.mem_filter.mp hm
    exact hw ▸ eq_of_beq hk ▸ hm
  · cases h

/-- What is required under a name stands there. -/
theorem mem_of_required? (h : fields.required? name = some v) : (name, v) ∈ fields := by
  rw [required?, Option.join_eq_some_iff] at h
  exact mem_of_optional? h

/-- The items that are found under a name stand there as an array. -/
theorem mem_of_items? {items : List Json} (h : fields.items? name = some items) :
    (name, array items) ∈ fields := by
  obtain ⟨v, hv, hi⟩ := Option.bind_eq_some_iff.mp h
  cases v with
  | array _ =>
    cases hi
    exact mem_of_required? hv
  | _ => cases hi

/-- The fields of a record that is an array hold its items. -/
theorem map_snd_of_record? {items : List Json} (h : record? names (array items) = some fields) :
    fields.map Prod.snd = items := by
  rw [record?] at h
  split at h
  · next hlength =>
    cases h
    exact List.map_snd_zip hlength
  · cases h

/-- What stands in the fields of a record lies one level below it. -/
theorem fits_of_record? {room : Nat} (h : record? names v = some fields)
    (hf : v.fits room = true) : 0 < room ∧ ∀ f ∈ fields, f.2.fits (room - 1) = true := by
  cases v with
  | object _ =>
    cases h
    exact fits_object_iff.mp hf
  | array items =>
    rw [fits_array_iff, ← map_snd_of_record? h, List.forall_mem_map] at hf
    exact hf
  | _ => cases h

/-- The tag of a variant is found in front of its fields. -/
theorem tagged?_variant {tag : String} (hu : ∀ f ∈ fields, f.2.usable = true)
    (hn : ∀ f ∈ fields, f.1 ≠ "type") :
    tagged? buffered variants (variant tag fields) =
      some (tag, ("type", string tag) :: fields) := by
  have husable : (variant tag fields).usable = true := usable_variant_iff.mpr hu
  have hfilter : fields.filter (·.1 == "type") = [] := by
    rw [List.filter_eq_nil_iff]
    simpa using fun name w hm ↦ hn (name, w) hm
  have htype : required? (("type", string tag) :: fields) "type" = some (string tag) := by
    rw [required?, optional?, List.filter_cons, if_pos (beq_self_eq_true _), hfilter]
    rfl
  unfold tagged?
  rw [(Option.guard_eq_some' ()).mpr husable]
  show (required? (("type", string tag) :: fields) "type").bind _ = _
  rw [htype]
  rfl

/-- The fields of a variant are those of an object, or hold the items of an array behind the
first. -/
theorem of_tagged? {tag : String} (h : tagged? buffered variants v = some (tag, fields)) :
    v = object fields ∨
      ∃ first items, v = array (first :: items) ∧ fields.map Prod.snd = items := by
  obtain ⟨_, -, h⟩ := Option.bind_eq_some_iff.mp h
  split at h
  · obtain ⟨_, -, h⟩ := Option.bind_eq_some_iff.mp h
    obtain ⟨_, -, ⟨⟩⟩ := Option.bind_eq_some_iff.mp h
    exact .inl rfl
  · obtain ⟨_, -, h⟩ := Option.bind_eq_some_iff.mp h
    obtain ⟨_, -, h⟩ := Option.bind_eq_some_iff.mp h
    obtain ⟨_, hrecord, ⟨⟩⟩ := Option.bind_eq_some_iff.mp h
    exact .inr ⟨_, _, rfl, map_snd_of_record? hrecord⟩
  · cases h

/-- What stands in the fields of a variant lies one level below it. -/
theorem fits_of_tagged? {tag : String} {room : Nat}
    (h : tagged? buffered variants v = some (tag, fields)) (hf : v.fits room = true) :
    0 < room ∧ ∀ f ∈ fields, f.2.fits (room - 1) = true := by
  rcases of_tagged? h with rfl | ⟨first, items, rfl, hitems⟩
  · exact fits_object_iff.mp hf
  · rw [fits_array_iff, List.forall_mem_cons, ← hitems, List.forall_mem_map] at hf
    exact ⟨hf.1, hf.2.2⟩

end Fields

/-! ### Lists and tables -/

section Coded

variable {β : Type} {encode : β → Json} {decode : Json → Option β} {room : Nat}

/-- A list whose elements are read back is read back. -/
theorem mapM_map_eq {xs : List β} (h : ∀ x ∈ xs, decode (encode x) = some x) :
    (xs.map encode).mapM decode = some xs := by
  rw [mapM_eq_some_iff, List.forall₂_map_left_iff, List.forall₂_same]
  exact h

/-- A list whose elements are written no larger than they were read is so. -/
theorem fits_map_of_mapM {items : List Json} {xs : List β} (h : items.mapM decode = some xs)
    (hf : ∀ v ∈ items, v.fits room = true)
    (hc : ∀ v x, v.fits room = true → decode v = some x → (encode x).fits room = true) :
    ∀ v ∈ xs.map encode, v.fits room = true := by
  rw [List.forall_mem_map]
  intro x hx
  obtain ⟨v, hv, hd⟩ := Result.exists_left_of_mem (mapM_eq_some_iff.mp h) hx
  exact hc v x (hf v hv) hd

variable {t : Table β}

/-- A table whose values are read back is read back. -/
theorem table?_ofTable (h : ∀ b ∈ t.values, decode (encode b) = some b) :
    table? decode (ofTable encode t) = some t := by
  have hm : (t.entries.map fun entry ↦ (entry.1, encode entry.2)).mapM
      (fun field ↦ (decode field.2).map (Prod.mk field.1)) = some t.entries := by
    rw [mapM_eq_some_iff, List.forall₂_map_left_iff, List.forall₂_same]
    intro entry he
    rw [h entry.2 (List.mem_map_of_mem he)]
    rfl
  calc table? decode (ofTable encode t)
    _ = ((t.entries.map fun entry ↦ (entry.1, encode entry.2)).mapM
          fun field ↦ (decode field.2).map (Prod.mk field.1)).bind
            (fun entries ↦ some (Table.ofList entries)) := rfl
    _ = some t := by rw [hm, Option.bind_some, Table.ofList_entries]

/-- A table of usable values is usable. -/
theorem usable_ofTable (h : ∀ b ∈ t.values, (encode b).usable = true) :
    (ofTable encode t).usable = true := by
  rw [ofTable, usable, usableFields_iff, List.forall_mem_map]
  intro entry he
  exact h entry.2 (List.mem_map_of_mem he)

/-- A table of printable values is printable. -/
theorem printable_ofTable (h : ∀ b ∈ t.values, (encode b).Printable) :
    (ofTable encode t).Printable := by
  rw [ofTable, Printable, printableFields_iff, List.forall_mem_map]
  intro entry he
  exact h entry.2 (List.mem_map_of_mem he)

/-- A table whose values are written no larger than they were read is so. -/
theorem fits_ofTable_of_table? {v : Json} (h : table? decode v = some t)
    (hf : v.fits room = true)
    (hc : ∀ v b, v.fits (room - 1) = true → decode v = some b →
      (encode b).fits (room - 1) = true) : (ofTable encode t).fits room = true := by
  obtain ⟨fields, hfields, h⟩ := Option.bind_eq_some_iff.mp h
  obtain ⟨entries, hm, ⟨⟩⟩ := Option.bind_eq_some_iff.mp h
  cases v with
  | object fs =>
    cases hfields
    obtain ⟨hroom, hf⟩ := fits_object_iff.mp hf
    rw [ofTable, fits_object_iff, List.forall_mem_map]
    refine ⟨hroom, fun entry he ↦ ?_⟩
    obtain ⟨f, hmem, hd⟩ := Result.exists_left_of_mem (mapM_eq_some_iff.mp hm)
      (Table.mem_of_mem_ofList he)
    obtain ⟨b, hb, rfl⟩ := Option.map_eq_some_iff.mp hd
    exact hc f.2 b (hf f hmem) hb
  | _ => cases hfields

end Coded

end FuzzyInference.Json
