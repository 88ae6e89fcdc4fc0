/-!
# Tables

Tables from names to values that remember the order in which names first arrived. Writing to a name
that is present replaces its value and keeps its place.
-/

namespace FuzzyInference

/-- A list of named values in which no name occurs twice. -/
structure Table (β : Type) where
  /-- The names and their values, in order of first arrival. -/
  entries : List (String × β)
  /-- No name occurs twice. -/
  nodup : (entries.map Prod.fst).Nodup

namespace Table

variable {β : Type}

/-- The entries after a value is written under a name. -/
def put (name : String) (value : β) : List (String × β) → List (String × β)
  | [] => [(name, value)]
  | (key, old) :: rest =>
    if key = name then (name, value) :: rest else (key, old) :: put name value rest

/-- The names after writing are the old ones, and the new one behind them if it was absent. -/
theorem keys_put (name : String) (value : β) (entries : List (String × β)) :
    (put name value entries).map Prod.fst =
      entries.map Prod.fst ++ if name ∈ entries.map Prod.fst then [] else [name] := by
  induction entries with
  | nil => simp [put]
  | cons entry rest ih =>
    obtain ⟨key, old⟩ := entry
    by_cases h : key = name
    · simp [put, h]
    · have hne : ¬ name = key := fun e => h e.symm
      simp only [put, h, if_false, List.map_cons, ih, List.cons_append, List.mem_cons, hne,
        false_or]

/-- A value under a new name is written behind the others. -/
theorem put_of_not_mem {name : String} {value : β} {entries : List (String × β)}
    (h : name ∉ entries.map Prod.fst) : put name value entries = entries ++ [(name, value)] := by
  induction entries with
  | nil => rfl
  | cons entry rest ih =>
    obtain ⟨key, old⟩ := entry
    rw [List.map_cons, List.mem_cons, not_or] at h
    rw [put, if_neg (Ne.symm h.1), ih h.2, List.cons_append]

/-- The table without entries. -/
def empty : Table β := ⟨[], by simp⟩

instance : Inhabited (Table β) := ⟨empty⟩

/-- A table with a value written under a name. -/
def insert (t : Table β) (name : String) (value : β) : Table β where
  entries := put name value t.entries
  nodup := by
    rw [keys_put]
    split
    · simpa using t.nodup
    · rename_i h
      rw [List.nodup_append]
      refine ⟨t.nodup, by simp, ?_⟩
      rintro a ha b hb rfl
      rw [List.mem_singleton] at hb
      exact h (hb ▸ ha)

/-- The table that results from writing the listed values in order. -/
def ofList (entries : List (String × β)) : Table β :=
  entries.foldl (fun t (name, value) => t.insert name value) empty

/-- The names in order. -/
def names (t : Table β) : List String := t.entries.map Prod.fst

/-- The values in the order of their names. -/
def values (t : Table β) : List β := t.entries.map Prod.snd

/-- The number of entries. -/
def size (t : Table β) : Nat := t.entries.length

/-- The value under a name. -/
def get? (t : Table β) (name : String) : Option β :=
  (t.entries.find? fun entry => entry.1 == name).map Prod.snd

/-- Nothing stands under a name exactly if it is not listed. -/
theorem get?_eq_none_iff {t : Table β} {name : String} : t.get? name = none ↔ name ∉ t.names := by
  rw [get?, Option.map_eq_none_iff, List.find?_eq_none, names]
  constructor
  · intro h hm
    obtain ⟨entry, hentry, rfl⟩ := List.mem_map.mp hm
    exact h entry hentry (beq_self_eq_true _)
  · exact fun h entry hentry heq ↦ h (beq_iff_eq.mp heq ▸ List.mem_map_of_mem hentry)

/-- The same names with the same values, in any order. -/
def agrees (eq : β → β → Bool) (s t : Table β) : Bool :=
  s.size == t.size &&
    s.entries.all fun (name, value) =>
      match t.get? name with
      | some other => eq value other
      | none => false

end Table

end FuzzyInference
