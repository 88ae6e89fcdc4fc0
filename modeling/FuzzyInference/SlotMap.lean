/-!
# Slot maps

A slot map keeps values in slots and chooses the keys of the slots itself. What is relied on is that
a key is fresh when it is given out and that entries never move; any slot map that is lawful in this
sense will do. `Slots` is one: it numbers its slots and fills them one behind the other.
-/

namespace FuzzyInference

/-- Maps of type `σ` from keys of type `κ` to values of type `β` that choose their keys. -/
class SlotMap (σ : Type) (κ β : outParam Type) where
  /-- The map without entries. -/
  empty : σ
  /-- The map with a further value, and the key of that. -/
  insert : σ → β → σ × κ
  /-- The value under a key. -/
  get? : σ → κ → Option β
  /-- The entries in the order in which they are visited. -/
  entries : σ → List (κ × β)
  /-- The number of entries. -/
  size : σ → Nat

/-- What is relied on of slot maps: `insert` gives a fresh key and never moves other entries. -/
class LawfulSlotMap (σ : Type) {κ β : Type} [SlotMap σ κ β] : Prop where
  /-- There is nothing to visit at first. -/
  entries_empty : SlotMap.entries (SlotMap.empty : σ) = []
  /-- There is nothing under any key at first. -/
  get?_empty (k : κ) : SlotMap.get? (SlotMap.empty : σ) k = none
  /-- A key is fresh when it is given out. -/
  get?_insert_fresh (s : σ) (b : β) : SlotMap.get? s (SlotMap.insert s b).2 = none
  /-- A value is found under the key that was given out for it. -/
  get?_insert_self (s : σ) (b : β) :
    SlotMap.get? (SlotMap.insert s b).1 (SlotMap.insert s b).2 = some b
  /-- Under the other keys stands what stood there. -/
  get?_insert_of_ne (s : σ) (b : β) {k : κ} (h : k ≠ (SlotMap.insert s b).2) :
    SlotMap.get? (SlotMap.insert s b).1 k = SlotMap.get? s k
  /-- The other entries are visited as before, and the new one behind them. -/
  entries_insert (s : σ) (b : β) :
    SlotMap.entries (SlotMap.insert s b).1 = SlotMap.entries s ++ [((SlotMap.insert s b).2, b)]
  /-- As many entries are counted as are visited. -/
  size_eq_length (s : σ) : SlotMap.size s = (SlotMap.entries s).length

/-- The number of a slot. -/
structure Handle where
  /-- The slot number, from zero. -/
  slot : Nat
  deriving Repr, DecidableEq

/-- Slots that are numbered from zero and filled one behind the other. -/
structure Slots (β : Type) where
  /-- What is in the slots, in order. -/
  values : List β

namespace Slots

variable {β : Type}

/-- The filled slots with their numbers. -/
def entries (s : Slots β) : List (Handle × β) := s.values.zipIdx.map fun (b, slot) => (⟨slot⟩, b)

instance : SlotMap (Slots β) Handle β where
  empty := ⟨[]⟩
  insert s b := (⟨s.values ++ [b]⟩, ⟨s.values.length⟩)
  get? s h := s.values[h.slot]?
  entries := entries
  size s := s.values.length

instance : LawfulSlotMap (Slots β) where
  entries_empty := rfl
  get?_empty _ := rfl
  get?_insert_fresh s _ := List.getElem?_eq_none (Nat.le_refl s.values.length)
  get?_insert_self _ _ := List.getElem?_concat_length
  get?_insert_of_ne s b h hne := by
    have hslot : h.slot ≠ s.values.length := fun he ↦ hne (congrArg Handle.mk he)
    rcases Nat.lt_or_gt_of_ne hslot with hlt | hgt
    · exact List.getElem?_append_left hlt
    · have hout : (s.values ++ [b]).length ≤ h.slot := by
        rw [List.length_append]
        exact hgt
      exact (List.getElem?_eq_none hout).trans (List.getElem?_eq_none (Nat.le_of_lt hgt)).symm
  entries_insert s b := by
    show entries ⟨s.values ++ [b]⟩ = entries s ++ [(⟨s.values.length⟩, b)]
    simp [entries, List.zipIdx_append]
  size_eq_length s := by
    show s.values.length = (entries s).length
    simp [entries]

/-- A slot is filled with a value exactly if it is visited with that. -/
theorem mem_entries_iff {s : Slots β} {h : Handle} {b : β} :
    (h, b) ∈ s.entries ↔ s.values[h.slot]? = some b := by
  rw [entries, List.mem_map]
  constructor
  · rintro ⟨⟨c, slot⟩, hc, ⟨⟩⟩
    exact List.mem_zipIdx_iff_getElem?.mp hc
  · exact fun hb ↦ ⟨(b, h.slot), List.mem_zipIdx_iff_getElem?.mpr hb, rfl⟩

/-- The filled slots hold the values, in order. -/
theorem map_snd_entries (s : Slots β) : s.entries.map Prod.snd = s.values := by
  rw [entries, List.map_map]
  exact List.zipIdx_map_fst ..

end Slots

end FuzzyInference
