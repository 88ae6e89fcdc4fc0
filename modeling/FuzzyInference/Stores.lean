import FuzzyInference.SlotMap
import FuzzyInference.Variable

/-!
# Stores

Registered variables are kept in two stores: a slot map holds them, and an index leads from their
names to their keys. A variable is written to both, after both checks on it have passed. The stores
are in step when the index has the names of the variables in the slots, with their keys, and this is
kept by every addition.
-/

namespace FuzzyInference

/-- A slot map of variables, and an index of their names. -/
structure Stores (σ κ : Type) where
  /-- The slots that hold the variables. -/
  slots : σ
  /-- The keys of the variables, by name. -/
  names : Table κ

namespace Stores

variable {α σ κ : Type} [Scalar α] [SlotMap σ κ (Variable α)]

/-- The stores without variables. -/
def empty : Stores σ κ := ⟨SlotMap.empty, .empty⟩

/-- The stores with one more variable, and the key of that. The variable must be valid and its name
new to the index. -/
def add (s : Stores σ κ) (v : Variable α) : Checked α (Stores σ κ × κ) := do
  v.validate
  if (s.names.get? v.name).isSome then .error (.system (.duplicateVariable v.name))
  else
    let (slots, key) := SlotMap.insert s.slots v
    return (⟨slots, s.names.insert v.name key⟩, key)

/-- The variable in the slot with a given key. -/
def get (s : Stores σ κ) (key : κ) : Except LookupFault (Variable α) :=
  match SlotMap.get? s.slots key with
  | some v => .ok v
  | none => .error .unregistered

/-- The key that the index has for a name. -/
def byName (s : Stores σ κ) (name : String) : Except LookupFault κ :=
  match s.names.get? name with
  | some key => .ok key
  | none => .error (.unknownVariable name)

/-- The number of filled slots. -/
def size (s : Stores σ κ) : Nat := SlotMap.size s.slots

/-- The keys and the variables in the order of the slots. -/
def entries (s : Stores σ κ) : List (κ × Variable α) := SlotMap.entries s.slots

/-- The two stores tell the same, and every variable is valid. -/
structure InStep (s : Stores σ κ) : Prop where
  /-- A slot is found filled exactly if it is visited. -/
  filled (key : κ) (v : Variable α) :
    SlotMap.get? s.slots key = some v ↔ (key, v) ∈ s.entries
  /-- The index has the names of the variables in the slots, each with the key of its slot. -/
  indexed : s.names.entries = s.entries.map fun (key, v) ↦ (v.name, key)
  /-- Every variable is valid. -/
  valid : ∀ entry ∈ s.entries, entry.2.validate = .ok ()

variable {s t : Stores σ κ} {v : Variable α} {key : κ}

/-- There is nothing to tell at first. -/
theorem inStep_empty [LawfulSlotMap σ] : (empty : Stores σ κ).InStep where
  filled key v := by
    rw [entries, empty, LawfulSlotMap.get?_empty, LawfulSlotMap.entries_empty]
    exact iff_of_false (Option.some_ne_none v).symm List.not_mem_nil
  indexed := by
    rw [entries, empty, LawfulSlotMap.entries_empty]
    rfl
  valid := by
    rw [entries, empty, LawfulSlotMap.entries_empty]
    exact fun _ h ↦ absurd h List.not_mem_nil

/-- What adding a variable asks for and does. -/
theorem add_eq_ok_iff :
    s.add v = .ok (t, key) ↔
      v.validate = .ok () ∧ s.names.get? v.name = none ∧
        t = ⟨(SlotMap.insert s.slots v).1, s.names.insert v.name (SlotMap.insert s.slots v).2⟩ ∧
        key = (SlotMap.insert s.slots v).2 := by
  unfold add
  cases v.validate with
  | error fault => simp [bind, Except.bind]
  | ok checked =>
    cases s.names.get? v.name with
    | some old => simp [bind, Except.bind]
    | none => simp [bind, Except.bind, pure, Except.pure, eq_comm]

/-- A variable that is added goes to both stores, so they stay in step. -/
theorem inStep_add [LawfulSlotMap σ] (h : s.InStep) (hadd : s.add v = .ok (t, key)) :
    t.InStep := by
  obtain ⟨hvalid, hnew, rfl, rfl⟩ := add_eq_ok_iff.mp hadd
  have hentries : entries ⟨(SlotMap.insert s.slots v).1,
      s.names.insert v.name (SlotMap.insert s.slots v).2⟩ =
        s.entries ++ [((SlotMap.insert s.slots v).2, v)] :=
    LawfulSlotMap.entries_insert s.slots v
  have hfresh (w : Variable α) : ((SlotMap.insert s.slots v).2, w) ∉ s.entries := by
    rw [← h.filled, LawfulSlotMap.get?_insert_fresh]
    exact (Option.some_ne_none w).symm
  constructor
  case filled =>
    intro k w
    rw [hentries, List.mem_append, List.mem_singleton, Prod.mk.injEq]
    by_cases hk : k = (SlotMap.insert s.slots v).2
    · subst hk
      rw [LawfulSlotMap.get?_insert_self, Option.some.injEq]
      simp [hfresh w, eq_comm]
    · rw [LawfulSlotMap.get?_insert_of_ne s.slots v hk, h.filled]
      simp [hk]
  case indexed =>
    rw [hentries, List.map_append, ← h.indexed]
    exact Table.put_of_not_mem (Table.get?_eq_none_iff.mp hnew)
  case valid =>
    rw [hentries]
    intro entry hentry
    rcases List.mem_append.mp hentry with hold | hone
    · exact h.valid entry hold
    · exact List.mem_singleton.mp hone ▸ hvalid

end Stores

end FuzzyInference
