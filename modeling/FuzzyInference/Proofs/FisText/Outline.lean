import FuzzyInference.FisText.Section
import FuzzyInference.Proofs.Text.LetterCase

/-!
# Outlines

What is left of the lines of a `.fis` text when blank lines and the case of letters are ignored. Its
headers and entries make up the sections of the text, up to the case of letters.
-/

namespace FuzzyInference.FisText

open Text

variable {α : Type} {lines : List (List Char)}

/-! ### Without letter case -/

/-- An entry with the letters of its key. -/
def Entry.folded (e : Entry) : Entry := ⟨unfinals e.key, e.value⟩

/-- A section with the letters of its name and its keys. -/
def Section.folded (s : Section) : Section := ⟨letters s.name, s.entries.map Entry.folded⟩

/-- A line with the letters of its name or its key, if it is not blank. -/
def Line.folded? : Line → Option Line
  | .blank => none
  | .header name => some (.header (letters name))
  | .entry e => some (.entry e.folded)
  | .malformed => some .malformed

/-- What a line means. -/
def meaning (line : List Char) : Line := classify (content line)

/-- What the lines of a text mean, blank ones left out. -/
def outline (lines : List (List Char)) : List Line :=
  (lines.map meaning).filterMap Line.folded?

/-- The entries in front of the first header, and the sections behind it. -/
def grouped : List Line → List Entry × List Section
  | [] => ([], [])
  | .header name :: rest => ([], ⟨name, (grouped rest).1⟩ :: (grouped rest).2)
  | .entry e :: rest => (e :: (grouped rest).1, (grouped rest).2)
  | .blank :: rest => grouped rest
  | .malformed :: rest => grouped rest

/-- A line adds what it means to an outline, if it is not blank. -/
theorem outline_cons (line : List Char) (lines : List (List Char)) :
    outline (line :: lines) = (meaning line).folded?.toList ++ outline lines := by
  rw [outline, List.map_cons, List.filterMap_cons, outline]
  cases (meaning line).folded? <;> rfl

/-- The outline of lines is put together from those of its parts. -/
theorem outline_append (lines lines' : List (List Char)) :
    outline (lines ++ lines') = outline lines ++ outline lines' := by
  rw [outline, List.map_append, List.filterMap_append, outline, outline]

/-- Entries in front of the next header belong to the section that is open. -/
theorem grouped_append_of_headerless {ls : List Line} (h : ∀ name, Line.header name ∉ ls)
    (ls' : List Line) :
    grouped (ls ++ ls') = ((grouped ls).1 ++ (grouped ls').1, (grouped ls').2) := by
  induction ls with
  | nil => rfl
  | cons line ls ih =>
    have hls : ∀ name, Line.header name ∉ ls := fun name hm ↦ h name (List.mem_cons_of_mem _ hm)
    cases line with
    | header name => exact absurd List.mem_cons_self (h name)
    | blank => simp [grouped, ih hls]
    | entry e => simp [grouped, ih hls]
    | malformed => simp [grouped, ih hls]

/-- Lines that begin with a header make up sections of their own. -/
theorem grouped_append_of_nil {ls' : List Line} (h : (grouped ls').1 = []) (ls : List Line) :
    grouped (ls ++ ls') = ((grouped ls).1, (grouped ls).2 ++ (grouped ls').2) := by
  induction ls with
  | nil => exact Prod.ext h rfl
  | cons line ls ih => cases line <;> simp [grouped, ih]

/-! ### Sections of an outline -/

/-- Sections that are open, with the entries and the sections that follow: the entries belong to the
section that was opened last, and there must be one. -/
private def completed : List Section → List Entry × List Section → Option (List Section)
  | [], ([], ss) => some ss
  | [], (_ :: _, _) => none
  | s :: before, (es, ss) =>
    some ((before.map fun s ↦ { s with entries := s.entries.reverse }).reverse ++
      ⟨s.name, s.entries.reverse ++ es⟩ :: ss)

private theorem sectionsFrom_eq_ok_iff {opened ss : List Section} :
    sectionsFrom (α := α) opened lines = .ok ss ↔ Line.malformed ∉ lines.map meaning ∧
      completed opened (grouped (lines.map meaning)) = some ss := by
  induction lines generalizing opened with
  | nil => cases opened <;> simp [sectionsFrom, grouped, completed]
  | cons line lines ih =>
    rw [sectionsFrom.eq_def, List.map_cons, meaning]
    cases hline : classify (content line) with
    | blank =>
      simp only [hline, ih, grouped]
      simp
    | header name =>
      simp only [hline, ih, grouped]
      cases opened <;> simp [completed]
    | entry e =>
      cases opened with
      | nil => simp [hline, grouped, completed]
      | cons s before =>
        simp only [hline, ih, grouped]
        simp [completed]
    | malformed => cases opened <;> simp [hline]

private theorem grouped_folded (ls : List Line) : grouped (ls.filterMap Line.folded?) =
    ((grouped ls).1.map Entry.folded, (grouped ls).2.map Section.folded) := by
  induction ls with
  | nil => rfl
  | cons line ls ih =>
    cases line <;> simp [List.filterMap_cons, Line.folded?, grouped, ih, Section.folded]

private theorem malformed_mem_folded (ls : List Line) :
    Line.malformed ∈ ls.filterMap Line.folded? ↔ Line.malformed ∈ ls := by
  induction ls with
  | nil => rfl
  | cons line ls ih => cases line <;> simp [List.filterMap_cons, Line.folded?, ← ih]

/-- The outline decides whether lines are read as sections. -/
theorem exists_sections_iff : (∃ ss, sectionsFrom (α := α) [] lines = .ok ss) ↔
    Line.malformed ∉ outline lines ∧ (grouped (outline lines)).1 = [] := by
  simp only [sectionsFrom_eq_ok_iff, exists_and_left, outline, malformed_mem_folded,
    grouped_folded, List.map_eq_nil_iff]
  apply and_congr_right
  intro _
  cases hgrouped : grouped (lines.map meaning) with
  | mk es ss => cases es <;> simp [completed]

/-- The sections that are read are those of the outline. -/
theorem map_folded_eq {ss : List Section} (h : sectionsFrom (α := α) [] lines = .ok ss) :
    ss.map Section.folded = (grouped (outline lines)).2 := by
  obtain ⟨-, hss⟩ := sectionsFrom_eq_ok_iff.mp h
  rw [outline, grouped_folded]
  cases hgrouped : grouped (lines.map meaning) with
  | mk es ss' =>
    rw [hgrouped] at hss
    cases es with
    | nil =>
      cases hss
      rfl
    | cons e es => cases hss

/-! ### Finding sections and values -/

/-- In sections without letter case, a section is found by the letters of its name. -/
theorem find?_folded {ss : List Section} {name : String} (h : IsPlain name.toList) :
    (ss.map Section.folded).find? (·.name == letters name.toList) =
      (ss.find? fun s ↦ eqIgnoringCase s.name name.toList).map Section.folded := by
  rw [List.find?_map]
  congr 2
  funext s
  show (letters s.name == letters name.toList) = eqIgnoringCase s.name name.toList
  rw [Bool.eq_iff_iff, beq_iff_eq, eqIgnoringCase_iff h]

/-- The values of a section do not depend on letter case. -/
theorem get?_folded {s : Section} {key : String} (h : IsPlain key.toList) :
    s.folded.get? key = s.get? key := by
  have hascii : ∀ c ∈ key.toList, c.toNat < 0x80 := fun c hc ↦ (h c hc).1
  have hkey (e : Entry) : (e.folded.key == key.toList) = (e.key == key.toList) := by
    rw [Bool.eq_iff_iff, beq_iff_eq, beq_iff_eq]
    apply unfinals_eq_iff
    · exact not_mem_of_ascii hascii (by decide)
    · exact not_mem_of_ascii hascii (by decide)
  rw [Section.get?, Section.get?, Section.folded, List.find?_map, Option.map_map]
  simp only [Function.comp_def, hkey]
  rfl

/-- The value under a key in the first section of a name, if there is such a section. -/
def valueIn (ss : List Section) (name : List Char) (key : String) : Option (Option (List Char)) :=
  (ss.find? (·.name == name)).map (·.get? key)

/-- The entries of the first section of rules, if there is one. -/
def rulesIn (ss : List Section) : Option (List Entry) :=
  (ss.find? (·.name == letters "Rules".toList)).map (·.entries)

/-- The same is found in two outlines: they are both in order or both not, the same values stand in
the sections of all names, and the same rules. -/
structure Interchangeable (ls ls' : List Line) : Prop where
  /-- Both have malformed lines, or none has. -/
  malformed_iff : Line.malformed ∈ ls ↔ Line.malformed ∈ ls'
  /-- Both have entries outside of sections, or none has. -/
  leading_iff : (grouped ls).1 = [] ↔ (grouped ls').1 = []
  /-- The values are the same. -/
  value_eq : ∀ name key, valueIn (grouped ls).2 name key = valueIn (grouped ls').2 name key
  /-- The rules are the same. -/
  rules_eq : rulesIn (grouped ls).2 = rulesIn (grouped ls').2

namespace Interchangeable

variable {ls ls' ls'' : List Line}

/-- An outline may stand for itself. -/
theorem refl (ls : List Line) : Interchangeable ls ls := ⟨.rfl, .rfl, fun _ _ ↦ rfl, rfl⟩

/-- Two outlines may stand for each other. -/
theorem symm (h : Interchangeable ls ls') : Interchangeable ls' ls :=
  ⟨h.malformed_iff.symm, h.leading_iff.symm, fun name key ↦ (h.value_eq name key).symm,
    h.rules_eq.symm⟩

/-- So may outlines that stand for the same one. -/
theorem trans (h : Interchangeable ls ls') (h' : Interchangeable ls' ls'') :
    Interchangeable ls ls'' :=
  ⟨h.malformed_iff.trans h'.malformed_iff, h.leading_iff.trans h'.leading_iff,
    fun name key ↦ (h.value_eq name key).trans (h'.value_eq name key),
    h.rules_eq.trans h'.rules_eq⟩

end Interchangeable

/-- What is found under a key is found in any order of items with different keys. -/
theorem find?_eq_of_perm {β γ : Type} [BEq γ] [LawfulBEq γ] {f : β → γ} {xs ys : List β}
    (h : xs.Perm ys) (hn : (xs.map f).Nodup) (c : γ) :
    xs.find? (f · == c) = ys.find? (f · == c) := by
  induction h with
  | nil => rfl
  | cons x _ ih =>
    rw [List.find?_cons, List.find?_cons, ih (List.nodup_cons.mp hn).2]
  | swap x y xs =>
    have hne : f y ≠ f x := by
      intro he
      exact (List.nodup_cons.mp hn).1 (he ▸ List.mem_cons_self)
    by_cases hx : f x = c
    · simp [hx, show f y ≠ c from hx ▸ hne]
    · by_cases hy : f y = c <;> simp [hx, hy]
  | trans h _ ih ih' => rw [ih hn, ih' ((h.map f).nodup_iff.mp hn)]

end FuzzyInference.FisText
