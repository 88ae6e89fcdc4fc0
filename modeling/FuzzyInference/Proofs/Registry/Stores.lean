import FuzzyInference.Proofs.Table
import FuzzyInference.Registry

/-!
# Stores in step

What two stores that are in step know about their variables: the names in the index are those of the
variables in the slots and distinct, and looking up a name in the index finds the key under which
the slot map has the variable of that name. A variable is refused exactly if it is invalid or its
name is in the index.
-/

namespace FuzzyInference.Stores

variable {α σ κ : Type} [Scalar α] [SlotMap σ κ (Variable α)]

section Lookups

variable {s : Stores σ κ} {v w : Variable α} {key key' : κ} {name : String}

omit [Scalar α] in
/-- A key leads to the variable in its slot. -/
theorem get_eq_ok_iff : s.get key = .ok v ↔ SlotMap.get? s.slots key = some v := by
  unfold get
  cases SlotMap.get? s.slots key <;> simp

/-- A name leads to its key in the index. -/
theorem byName_eq_ok_iff_get? : s.byName name = .ok key ↔ s.names.get? name = some key := by
  unfold byName
  cases s.names.get? name <;> simp

/-- A key leads to a variable exactly if both are visited together. -/
theorem InStep.get_eq_ok_iff_mem (h : s.InStep) : s.get key = .ok v ↔ (key, v) ∈ s.entries :=
  get_eq_ok_iff.trans (h.filled key v)

/-- The names in the index are those of the variables in the slots, in order. -/
theorem InStep.names_eq (h : s.InStep) : s.names.names = s.entries.map (·.2.name) := by
  rw [Table.names, h.indexed, List.map_map]
  rfl

/-- No two variables have one name. -/
theorem InStep.nodup_names (h : s.InStep) : (s.entries.map (·.2.name)).Nodup :=
  h.names_eq ▸ s.names.nodup

/-- A name leads to a key exactly if this leads to a variable of the name. -/
theorem InStep.byName_eq_ok_iff (h : s.InStep) :
    s.byName name = .ok key ↔ ∃ v, s.get key = .ok v ∧ v.name = name := by
  simp only [byName_eq_ok_iff_get?, Table.get?_eq_some_iff, h.indexed, h.get_eq_ok_iff_mem]
  constructor
  · intro hm
    obtain ⟨⟨k, v⟩, hv, ⟨⟩⟩ := List.mem_map.mp hm
    exact ⟨v, hv, rfl⟩
  · rintro ⟨v, hv, rfl⟩
    exact List.mem_map.mpr ⟨(key, v), hv, rfl⟩

/-- Variables of one name have one key. -/
theorem InStep.key_eq_of_name_eq (h : s.InStep) (hv : s.get key = .ok v) (hw : s.get key' = .ok w)
    (hname : v.name = w.name) : key = key' := by
  have hkey := h.byName_eq_ok_iff.mpr ⟨v, hv, rfl⟩
  rw [h.byName_eq_ok_iff.mpr ⟨w, hw, hname.symm⟩] at hkey
  exact (Except.ok.inj hkey).symm

end Lookups

section Additions

variable {s : Stores σ κ} {v : Variable α}

/-- A valid variable of a new name is added. -/
theorem add_of_new (hvalid : v.validate = .ok ()) (hnew : v.name ∉ s.names.names) :
    s.add v = .ok (⟨(SlotMap.insert s.slots v).1,
      s.names.insert v.name (SlotMap.insert s.slots v).2⟩, (SlotMap.insert s.slots v).2) :=
  add_eq_ok_iff.mpr ⟨hvalid, Table.get?_eq_none_iff.mpr hnew, rfl, rfl⟩

/-- A valid variable whose name is taken is refused by that name. -/
theorem add_of_taken (hvalid : v.validate = .ok ()) (htaken : v.name ∈ s.names.names) :
    s.add v = .error (.system (.duplicateVariable v.name)) := by
  have hfound : (s.names.get? v.name).isSome = true :=
    Option.isSome_iff_ne_none.mpr fun hnone ↦ Table.get?_eq_none_iff.mp hnone htaken
  rw [add, hvalid]
  exact if_pos hfound

/-- An invalid variable is refused for what is wrong with it. -/
theorem add_of_invalid {fault : Fault α} (h : v.validate = .error fault) :
    s.add v = .error fault := by
  rw [add, h]
  rfl

end Additions

end FuzzyInference.Stores
