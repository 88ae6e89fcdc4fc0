import FuzzyInference.Table
import Mathlib.Data.List.Nodup

/-!
# Tables from lists

Writing the entries of a table in order gives the table, and a table that results from writing has
no other entries than those that were written. Under each name stands what was last written there.
-/

namespace FuzzyInference.Table

variable {β : Type}

/-- Tables with the same entries are the same. -/
theorem ext_entries {s t : Table β} (h : s.entries = t.entries) : s = t := by
  cases s
  cases t
  cases h
  rfl

/-- A value stands under a name exactly if they are listed together. -/
theorem get?_eq_some_iff {t : Table β} {name : String} {value : β} :
    t.get? name = some value ↔ (name, value) ∈ t.entries := by
  rw [get?, Option.map_eq_some_iff]
  constructor
  · rintro ⟨entry, hfound, rfl⟩
    obtain rfl : entry.1 = name := by simpa using List.find?_some hfound
    exact List.mem_of_find?_eq_some hfound
  · intro h
    cases hfound : t.entries.find? (·.1 == name) with
    | none => simpa using List.find?_eq_none.mp hfound _ h
    | some entry =>
      have hname : entry.1 = name := by simpa using List.find?_some hfound
      have hentry := List.inj_on_of_nodup_map t.nodup (List.mem_of_find?_eq_some hfound) h hname
      exact ⟨entry, rfl, congrArg Prod.snd hentry⟩

/-- What stands in a table behind a value that is written was written or stood there before. -/
theorem mem_put {name : String} {value : β} {entries : List (String × β)} {entry : String × β}
    (h : entry ∈ put name value entries) : entry = (name, value) ∨ entry ∈ entries := by
  induction entries with
  | nil => exact .inl (List.mem_singleton.mp h)
  | cons first rest ih =>
    obtain ⟨key, old⟩ := first
    rw [put] at h
    split at h
    · rcases List.mem_cons.mp h with rfl | h
      · exact .inl rfl
      · exact .inr (List.mem_cons_of_mem _ h)
    · rcases List.mem_cons.mp h with rfl | h
      · exact .inr List.mem_cons_self
      · exact (ih h).imp_right (List.mem_cons_of_mem _)

private theorem entries_foldl {entries : List (String × β)} :
    ∀ {t : Table β}, ((t.entries ++ entries).map Prod.fst).Nodup →
      (entries.foldl (fun t (name, value) ↦ t.insert name value) t).entries =
        t.entries ++ entries := by
  induction entries with
  | nil => simp
  | cons entry rest ih =>
    obtain ⟨name, value⟩ := entry
    intro t hn
    have hnew : name ∉ t.entries.map Prod.fst := by
      rw [List.map_append, List.nodup_append] at hn
      exact fun hm ↦ hn.2.2 name hm name (by simp) rfl
    have hput : (t.insert name value).entries = t.entries ++ [(name, value)] := put_of_not_mem hnew
    rw [List.foldl_cons, ih (by rw [hput]; simpa using hn), hput]
    simp

/-- Values that are written under distinct names are the entries, in order. -/
theorem entries_ofList {entries : List (String × β)} (h : (entries.map Prod.fst).Nodup) :
    (ofList entries).entries = entries :=
  entries_foldl (t := empty) h

/-- Writing the entries of a table gives the table. -/
theorem ofList_entries (t : Table β) : ofList t.entries = t :=
  ext_entries (entries_ofList t.nodup)

/-- What stands in a table was written. -/
theorem mem_of_mem_ofList {entries : List (String × β)} {entry : String × β}
    (h : entry ∈ (ofList entries).entries) : entry ∈ entries := by
  have hall : ∀ {rest : List (String × β)} {t : Table β},
      entry ∈ (rest.foldl (fun t (name, value) ↦ t.insert name value) t).entries →
        entry ∈ t.entries ∨ entry ∈ rest := by
    intro rest
    induction rest with
    | nil => exact fun h ↦ .inl h
    | cons first rest ih =>
      intro t h
      rcases ih h with h | h
      · rcases mem_put h with rfl | h
        · exact .inr List.mem_cons_self
        · exact .inl h
      · exact .inr (List.mem_cons_of_mem _ h)
  exact (hall h).resolve_left List.not_mem_nil

/-- A value stands under the name that it is written under. -/
theorem get?_insert_self (t : Table β) (name : String) (value : β) :
    (t.insert name value).get? name = some value := by
  have hput : ∀ entries : List (String × β),
      (put name value entries).find? (fun entry ↦ entry.1 == name) = some (name, value) := by
    intro entries
    induction entries with
    | nil => simp [put]
    | cons entry rest ih =>
      obtain ⟨key, old⟩ := entry
      by_cases h : key = name
      · simp [put, h]
      · simp [put, h, ih]
  rw [get?, insert, hput, Option.map_some]

/-- Writing under a name keeps what stands under the others. -/
theorem get?_insert_of_ne (t : Table β) {name key : String} (value : β) (hne : name ≠ key) :
    (t.insert name value).get? key = t.get? key := by
  have hput : ∀ entries : List (String × β),
      (put name value entries).find? (fun entry ↦ entry.1 == key) =
        entries.find? (fun entry ↦ entry.1 == key) := by
    intro entries
    induction entries with
    | nil => simp [put, hne]
    | cons entry rest ih =>
      obtain ⟨other, old⟩ := entry
      by_cases h : other = name
      · simp [put, h, hne]
      · simp only [put, if_neg h, List.find?_cons, ih]
  rw [get?, insert, hput, ← get?]

/-- Under a name stands the value that was last written there. -/
theorem get?_ofList_of_last {before after : List (String × β)} {name : String} {value : β}
    (hlast : ∀ entry ∈ after, entry.1 ≠ name) :
    (ofList (before ++ (name, value) :: after)).get? name = some value := by
  have hkeep : ∀ {t : Table β}, t.get? name = some value →
      (after.foldl (fun t (key, value) ↦ t.insert key value) t).get? name = some value := by
    induction after with
    | nil => exact fun h ↦ h
    | cons entry after ih =>
      rw [List.forall_mem_cons] at hlast
      exact fun h ↦ ih hlast.2 ((get?_insert_of_ne _ _ hlast.1).trans h)
  rw [ofList, List.foldl_append, List.foldl_cons]
  exact hkeep (get?_insert_self _ _ _)

end FuzzyInference.Table
