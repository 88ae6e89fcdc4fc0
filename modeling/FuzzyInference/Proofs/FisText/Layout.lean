import FuzzyInference.Proofs.FisText.Line
import FuzzyInference.Proofs.FisText.Lookup
import Mathlib.Logic.Relation

/-!
# Layout

The ways to lay out a `.fis` text: blank lines, comments, blanks around the parts of lines, letter
case, either separator, and any order of sections and of entries whose names differ. The system that
is read does not depend on them.
-/

namespace FuzzyInference.FisText

open Text

/-! ### Changes of layout -/

/-- The lines of a section: one that opens it, and those behind it, which open no other. -/
structure SectionLines where
  /-- The name. -/
  name : List Char
  /-- The line that opens the section. -/
  opening : List Char
  /-- The lines behind it. -/
  body : List (List Char)
  /-- The first line has the name in brackets. -/
  isHeader : IsHeader name opening
  /-- No other line opens a section. -/
  headerless : ∀ line ∈ body, ∀ other, ¬ IsHeader other line

/-- All lines of a section. -/
def SectionLines.lines (s : SectionLines) : List (List Char) := s.opening :: s.body

/-- The line of an entry. -/
structure EntryLine where
  /-- The key. -/
  key : List Char
  /-- The value. -/
  value : List Char
  /-- The line. -/
  line : List Char
  /-- The line has the key and the value with a separator between them. -/
  isEntry : IsEntry key value line

/-- A section begins with the first of the lines, or there is none. -/
def BeginsSection (lines : List (List Char)) : Prop :=
  ∀ line ∈ lines.head?, ∃ name, IsHeader name line

/-- A single change of layout, line by line. -/
inductive Edit : List (List Char) → List (List Char) → Prop where
  /-- A line is inserted that is blank but for a comment. -/
  | insert {before after : List (List Char)} {line : List Char} (h : IsVoid line) :
    Edit (before ++ after) (before ++ line :: after)
  /-- A comment is appended to a line. -/
  | comment {before after : List (List Char)} {line : List Char} (text : List Char) :
    Edit (before ++ line :: after) (before ++ (line ++ '%' :: text) :: after)
  /-- Blanks are put around a line. -/
  | pad {before after : List (List Char)} {line l r : List Char} (hl : Blanks l) (hr : Blanks r) :
    Edit (before ++ line :: after) (before ++ (l ++ (line ++ r)) :: after)
  /-- The name of a section is written in another case, with other blanks around it. -/
  | header {before after : List (List Char)} {name name' line line' : List Char}
    (h : IsHeader name line) (h' : IsHeader name' line') (hletters : letters name = letters name') :
    Edit (before ++ line :: after) (before ++ line' :: after)
  /-- The key of an entry is written in another case, or other blanks stand around the key and the
  value, or another separator between them. -/
  | entry {before after : List (List Char)} {key key' value line line' : List Char}
    (h : IsEntry key value line) (h' : IsEntry key' value line')
    (hletters : letters key = letters key') :
    Edit (before ++ line :: after) (before ++ line' :: after)
  /-- Sections are put into another order, if their names differ. -/
  | sections {before after : List (List Char)} {ss ss' : List SectionLines} (h : ss.Perm ss')
    (hn : (ss.map fun s ↦ letters s.name).Nodup) (hafter : BeginsSection after) :
    Edit (before ++ (ss.flatMap SectionLines.lines ++ after))
      (before ++ (ss'.flatMap SectionLines.lines ++ after))
  /-- Entries of a section are put into another order, if their keys differ; but not rules. -/
  | entries {before after : List (List Char)} {s : SectionLines} {es es' : List EntryLine}
    (hrules : letters s.name ≠ letters "Rules".toList) (h : es.Perm es')
    (hn : (es.map fun e ↦ letters e.key).Nodup) :
    Edit (before ++ (s.lines ++ (es.map EntryLine.line ++ after)))
      (before ++ (s.lines ++ (es'.map EntryLine.line ++ after)))

/-- Two texts differ in layout only: any number of changes, or of their reversals, leads from one to
the other. -/
def Relaid (text text' : String) : Prop :=
  Relation.EqvGen Edit (splitLines text.toList) (splitLines text'.toList)

/-- Changes may be made behind any lines. -/
theorem Edit.append_left {lines lines' : List (List Char)} (h : Edit lines lines')
    (front : List (List Char)) : Edit (front ++ lines) (front ++ lines') := by
  cases h with
  | insert h =>
    rw [← List.append_assoc, ← List.append_assoc]
    exact .insert h
  | comment text =>
    rw [← List.append_assoc, ← List.append_assoc]
    exact .comment text
  | pad hl hr =>
    rw [← List.append_assoc, ← List.append_assoc]
    exact .pad hl hr
  | header h h' hletters =>
    rw [← List.append_assoc, ← List.append_assoc]
    exact .header h h' hletters
  | entry h h' hletters =>
    rw [← List.append_assoc, ← List.append_assoc]
    exact .entry h h' hletters
  | sections h hn hafter =>
    rw [← List.append_assoc, ← List.append_assoc front]
    exact .sections h hn hafter
  | entries hrules h hn =>
    rw [← List.append_assoc, ← List.append_assoc front]
    exact .entries hrules h hn

private theorem eqvGen_append_left {lines lines' : List (List Char)}
    (h : Relation.EqvGen Edit lines lines') (front : List (List Char)) :
    Relation.EqvGen Edit (front ++ lines) (front ++ lines') := by
  induction h with
  | rel lines lines' h => exact .rel _ _ (h.append_left front)
  | refl lines => exact .refl _
  | symm lines lines' _ ih => exact .symm _ _ ih
  | trans lines lines' lines'' _ _ ih ih' => exact .trans _ _ _ ih ih'

/-! ### Changes of lines -/

private theorem outline_replace {before after : List (List Char)} {line line' : List Char}
    (h : (meaning line).folded? = (meaning line').folded?) :
    outline (before ++ line :: after) = outline (before ++ line' :: after) := by
  rw [outline_append, outline_append, outline_cons, outline_cons, h]

private theorem IsEntry.folded?_eq {key value line : List Char} (h : IsEntry key value line) :
    (meaning line).folded? = some (.entry ⟨letters key, value⟩) := by
  have hmeaning : meaning line = .entry ⟨toLower key, value⟩ :=
    classify_eq_entry_iff.mpr ⟨key, h, rfl⟩
  rw [hmeaning, Line.folded?, Entry.folded, unfinals_toLower]

private theorem IsHeader.folded?_eq {name line : List Char} (h : IsHeader name line) :
    (meaning line).folded? = some (.header (letters name)) := by
  rw [meaning, classify_eq_header_iff.mpr h, Line.folded?]

private theorem header_not_mem_outline {lines : List (List Char)}
    (h : ∀ line ∈ lines, ∀ name, ¬ IsHeader name line) (name : List Char) :
    Line.header name ∉ outline lines := by
  intro hm
  rw [outline, List.mem_filterMap] at hm
  obtain ⟨_, hline, hfolded⟩ := hm
  obtain ⟨line, hmem, rfl⟩ := List.mem_map.mp hline
  cases hmeaning : meaning line with
  | blank => rw [hmeaning] at hfolded; cases hfolded
  | header name => exact h line hmem name (classify_eq_header_iff.mp hmeaning)
  | entry e => rw [hmeaning] at hfolded; cases hfolded
  | malformed => rw [hmeaning] at hfolded; cases hfolded

/-! ### Changes of order -/

/-- The section that lines are read as, up to letter case. -/
private def SectionLines.section (s : SectionLines) : Section :=
  ⟨letters s.name, (grouped (outline s.body)).1⟩

private theorem SectionLines.grouped_outline (s : SectionLines) (ls : List Line) :
    grouped (outline s.lines ++ ls) =
      ([], ⟨letters s.name, (grouped (outline s.body)).1 ++ (grouped ls).1⟩ :: (grouped ls).2) := by
  rw [SectionLines.lines, outline_cons, s.isHeader.folded?_eq, Option.toList_some,
    List.singleton_append, List.cons_append, grouped,
    grouped_append_of_headerless (header_not_mem_outline s.headerless)]

private theorem grouped_outline_flatMap {after : List (List Char)} (hafter : BeginsSection after)
    (ss : List SectionLines) :
    grouped (outline (ss.flatMap SectionLines.lines ++ after)) =
      ([], ss.map SectionLines.section ++ (grouped (outline after)).2) := by
  induction ss with
  | nil =>
    refine Prod.ext ?_ rfl
    cases after with
    | nil => rfl
    | cons line after =>
      obtain ⟨name, hline⟩ := hafter line rfl
      rw [List.flatMap_nil, List.nil_append, outline_cons, hline.folded?_eq]
      rfl
  | cons s ss ih =>
    rw [List.flatMap_cons, List.append_assoc, outline_append, s.grouped_outline, ih,
      List.append_nil]
    rfl

private theorem outline_perm {lines lines' : List (List Char)} (h : lines.Perm lines') :
    (outline lines).Perm (outline lines') :=
  (h.map meaning).filterMap Line.folded?

private theorem interchangeable_sections {before after : List (List Char)}
    {ss ss' : List SectionLines} (h : ss.Perm ss') (hn : (ss.map fun s ↦ letters s.name).Nodup)
    (hafter : BeginsSection after) :
    Interchangeable (outline (before ++ (ss.flatMap SectionLines.lines ++ after)))
      (outline (before ++ (ss'.flatMap SectionLines.lines ++ after))) := by
  have hgrouped (ss : List SectionLines) :
      grouped (outline (before ++ (ss.flatMap SectionLines.lines ++ after))) =
        ((grouped (outline before)).1, (grouped (outline before)).2 ++
          (ss.map SectionLines.section ++ (grouped (outline after)).2)) := by
    have hsections := grouped_outline_flatMap hafter ss
    rw [outline_append, grouped_append_of_nil (by rw [hsections]), hsections]
  have hnames : ((ss.map SectionLines.section).map Section.name).Nodup := by
    rw [List.map_map]
    exact hn
  have hfind (name : List Char) := find?_eq_of_perm (h.map SectionLines.section) hnames name
  have hlines := outline_perm (((h.flatMap_right SectionLines.lines).append_right after).append_left
    before)
  constructor
  · exact hlines.mem_iff
  · rw [hgrouped, hgrouped]
  · intro name key
    rw [hgrouped, hgrouped, valueIn, valueIn, List.find?_append, List.find?_append,
      List.find?_append, List.find?_append, hfind]
  · rw [hgrouped, hgrouped, rulesIn, rulesIn, List.find?_append, List.find?_append,
      List.find?_append, List.find?_append, hfind]

/-- The entry that a line is read as, up to letter case. -/
private def EntryLine.entry (e : EntryLine) : Entry := ⟨letters e.key, e.value⟩

private theorem grouped_outline_entries (es : List EntryLine) (ls : List Line) :
    grouped (outline (es.map EntryLine.line) ++ ls) =
      (es.map EntryLine.entry ++ (grouped ls).1, (grouped ls).2) := by
  induction es with
  | nil => rfl
  | cons e es ih =>
    rw [List.map_cons, outline_cons, e.isEntry.folded?_eq, Option.toList_some,
      List.singleton_append, List.cons_append, grouped, ih]
    rfl

private theorem find?_replace {β : Type} {before after : List Section} {s s' : Section}
    {name : List Char} {f : Section → β} (hname : s.name = s'.name)
    (h : s.name = name → f s = f s') :
    ((before ++ s :: after).find? (·.name == name)).map f =
      ((before ++ s' :: after).find? (·.name == name)).map f := by
  rw [List.find?_append, List.find?_append, List.find?_cons, List.find?_cons, ← hname]
  by_cases hs : s.name = name
  · cases before.find? (·.name == name) <;> simp [hs, h hs]
  · rw [beq_false_of_ne hs]

private theorem interchangeable_entries {before after : List (List Char)} {s : SectionLines}
    {es es' : List EntryLine} (hrules : letters s.name ≠ letters "Rules".toList) (h : es.Perm es')
    (hn : (es.map fun e ↦ letters e.key).Nodup) :
    Interchangeable (outline (before ++ (s.lines ++ (es.map EntryLine.line ++ after))))
      (outline (before ++ (s.lines ++ (es'.map EntryLine.line ++ after)))) := by
  have hgrouped (es : List EntryLine) :
      grouped (outline (before ++ (s.lines ++ (es.map EntryLine.line ++ after)))) =
        ((grouped (outline before)).1, (grouped (outline before)).2 ++
          ⟨letters s.name, (grouped (outline s.body)).1 ++
            (es.map EntryLine.entry ++ (grouped (outline after)).1)⟩ ::
            (grouped (outline after)).2) := by
    have hsection := s.grouped_outline (outline (es.map EntryLine.line ++ after))
    rw [outline_append (es.map EntryLine.line), grouped_outline_entries] at hsection
    rw [outline_append, outline_append, outline_append,
      grouped_append_of_nil (by rw [hsection]), hsection]
  have hkeys : ((es.map EntryLine.entry).map Entry.key).Nodup := by
    rw [List.map_map]
    exact hn
  have hfind (key : List Char) := find?_eq_of_perm (h.map EntryLine.entry) hkeys key
  have hlines := outline_perm ((((h.map EntryLine.line).append_right after).append_left
    s.lines).append_left before)
  constructor
  · exact hlines.mem_iff
  · rw [hgrouped, hgrouped]
  · intro name key
    rw [hgrouped, hgrouped, valueIn, valueIn]
    refine find?_replace (by rfl) ?_
    intro _
    rw [Section.get?, Section.get?, List.find?_append, List.find?_append, List.find?_append,
      List.find?_append, hfind]
  · rw [hgrouped, hgrouped, rulesIn, rulesIn]
    refine find?_replace (by rfl) ?_
    exact fun hname ↦ absurd hname hrules

/-! ### Main results -/

private theorem Edit.interchangeable {lines lines' : List (List Char)} (h : Edit lines lines') :
    Interchangeable (outline lines) (outline lines') := by
  have of_eq (he : outline lines = outline lines') :
      Interchangeable (outline lines) (outline lines') := he ▸ .refl _
  cases h with
  | @insert before after line h =>
    apply of_eq
    rw [outline_append, outline_append, outline_cons, meaning, classify_eq_blank_iff.mpr h]
    rfl
  | comment text =>
    apply of_eq
    apply outline_replace
    rw [meaning, meaning, content_comment]
  | pad hl hr =>
    apply of_eq
    apply outline_replace
    rw [meaning, meaning, content_pad hl hr]
  | header h h' hletters =>
    apply of_eq
    apply outline_replace
    rw [h.folded?_eq, h'.folded?_eq, hletters]
  | entry h h' hletters =>
    apply of_eq
    apply outline_replace
    rw [h.folded?_eq, h'.folded?_eq, hletters]
  | sections h hn hafter => exact interchangeable_sections h hn hafter
  | entries hrules h hn => exact interchangeable_entries hrules h hn

private theorem interchangeable_of_eqvGen {lines lines' : List (List Char)}
    (h : Relation.EqvGen Edit lines lines') :
    Interchangeable (outline lines) (outline lines') := by
  induction h with
  | rel lines lines' h => exact h.interchangeable
  | refl lines => exact .refl _
  | symm lines lines' _ ih => exact ih.symm
  | trans lines lines' lines'' _ _ ih ih' => exact ih.trans ih'

variable {α : Type} [Scalar α]

/-- A text is read as a system if and only if every text that differs from it in layout only is
read as the same system: blank lines, comments, blanks around lines, keys, separators and values,
the case of keys and of the names of sections, the choice of the separator, the order of sections of
different names, and the order of entries of different keys, rules excepted, do not matter. -/
theorem readSystem_relaid {text text' : String} (h : Relaid text text') (steps : Steps α)
    (s : FuzzySystem α) : readSystem text steps = .ok s ↔ readSystem text' steps = .ok s :=
  have hsame := interchangeable_of_eqvGen h
  ⟨readSystem_eq_ok hsame, readSystem_eq_ok hsame.symm⟩

/-- An entry that is written without blanks and comments. -/
private def entryLine (mark : Char) (key value : String)
    (h : (Trimmed key.toList ∧ Trimmed value.toList ∧ '%' ∉ key.toList ++ value.toList) ∧
      key.toList.all (!isSeparator ·) = true ∧ isSeparator mark = true ∧
      Unbracketed key.toList value.toList) : EntryLine where
  key := key.toList
  value := value.toList
  line := key.toList ++ mark :: value.toList
  isEntry := by
    obtain ⟨⟨hkey, hvalue, hcomment⟩, hfirst, hmark, hopen⟩ := h
    have hholds : Holds (key.toList ++ ([] ++ mark :: ([] ++ value.toList)))
        (key.toList ++ mark :: value.toList) := by
      simpa using @Holds.plain (key.toList ++ mark :: value.toList) [] [] (List.forall_mem_nil _)
        (List.forall_mem_nil _)
    have hkept : ∀ c ∈ key.toList, isSeparator c = false := by simpa using hfirst
    exact .separated hkey hvalue hcomment hkept hmark (List.forall_mem_nil _)
      (List.forall_mem_nil _) hopen hholds

/-- A section that is written as its name in brackets and entries. -/
private def sectionLines (name : String) (h : IsHeader name.toList (inBrackets name.toList))
    (es : List EntryLine) : SectionLines where
  name := name.toList
  opening := inBrackets name.toList
  body := es.map EntryLine.line
  isHeader := h
  headerless := by
    rintro line hline other hheader
    obtain ⟨e, -, rfl⟩ := List.mem_map.mp hline
    have hentry := e.isEntry.folded?_eq
    rw [hheader.folded?_eq] at hentry
    cases hentry

/-- The system of a fan, as a section that holds nothing yet. -/
private def fanSystem : SectionLines := sectionLines "System" (by decide) []

/-- What belongs into that section. -/
private def fanSettings : List EntryLine :=
  [entryLine '=' "Type" "mamdani" (by decide), entryLine '=' "NumInputs" "1" (by decide),
    entryLine '=' "NumOutputs" "1" (by decide)]

/-- The input of the system. -/
private def fanInput : SectionLines :=
  sectionLines "Input1" (by decide) [entryLine '=' "Name" "heat" (by decide),
    entryLine '=' "Range" "0 9" (by decide), entryLine '=' "NumMFs" "1" (by decide),
    entryLine '=' "MF1" "'hot':'smf',[2 5]" (by decide)]

/-- Its output. -/
private def fanOutput : SectionLines :=
  sectionLines "Output1" (by decide) [entryLine '=' "Name" "speed" (by decide),
    entryLine '=' "Range" "0 1" (by decide), entryLine '=' "NumMFs" "1" (by decide),
    entryLine '=' "MF1" "'fast':'zmf',[0 1]" (by decide)]

/-- Its rule. -/
private def fanRule : EntryLine := entryLine ':' "-1, 1 (1E0)" "1" (by decide)

/-- The same rule in other letters, behind another separator. -/
private def fanRule' : EntryLine := entryLine '=' "-1, 1 (1e0)" "1" (by decide)

/-- A system with one rule. -/
def fanText : String :=
  "[System]\nType=mamdani\nNumInputs=1\nNumOutputs=1\n" ++
    "[Input1]\nName=heat\nRange=0 9\nNumMFs=1\nMF1='hot':'smf',[2 5]\n" ++
    "[Output1]\nName=speed\nRange=0 1\nNumMFs=1\nMF1='fast':'zmf',[0 1]\n" ++
    "[Rules]\n-1, 1 (1E0):1"

/-- The same system, laid out differently. -/
def relaidFanText : String :=
  "[System]\nNumOutputs=1\nNumInputs=1\nType=mamdani\n" ++
    "[Output1]\nName=speed\nRange=0 1\nNumMFs=1\nMF1='fast':'zmf',[0 1]\n" ++
    "[Input1]\nName=heat\nRange=0 9\nNumMFs=1\nMF1='hot':'smf',[2 5]\n" ++
    "% there is one\n[ RULES ]\n  -1, 1 (1e0)=1% when it is not hot "

private theorem fanRules_relaid : Relation.EqvGen Edit [inBrackets "Rules".toList, fanRule.line]
    ["% there is one".toList, inBrackets " RULES ".toList,
      "  ".toList ++ ((fanRule'.line ++ '%' :: " when it is not hot".toList) ++ " ".toList)] := by
  have hinsert := @Edit.insert [] [inBrackets "Rules".toList, fanRule.line] "% there is one".toList
    (by decide)
  have hheader := @Edit.header ["% there is one".toList] [fanRule.line] "Rules".toList
    "RULES".toList (inBrackets "Rules".toList) (inBrackets " RULES ".toList) (by decide) (by decide)
    (by decide)
  have hentry := @Edit.entry ["% there is one".toList, inBrackets " RULES ".toList] [] _ _
    "1".toList _ _ fanRule.isEntry fanRule'.isEntry (by decide)
  have hcomment := @Edit.comment ["% there is one".toList, inBrackets " RULES ".toList] []
    fanRule'.line " when it is not hot".toList
  have hpad := @Edit.pad ["% there is one".toList, inBrackets " RULES ".toList] []
    (fanRule'.line ++ '%' :: " when it is not hot".toList) "  ".toList " ".toList (by decide)
    (by decide)
  exact .trans _ _ _ (.rel _ _ hinsert) <| .trans _ _ _ (.rel _ _ hheader) <|
    .trans _ _ _ (.rel _ _ hentry) <| .trans _ _ _ (.rel _ _ hcomment) (.rel _ _ hpad)

private theorem fan_relaid : Relaid fanText relaidFanText := by
  have hfirst : splitLines fanText.toList =
      fanSystem.lines ++ (fanSettings.map EntryLine.line ++
        ([fanInput, fanOutput].flatMap SectionLines.lines ++
          [inBrackets "Rules".toList, fanRule.line])) := by
    decide +kernel
  have hlast : splitLines relaidFanText.toList =
      fanSystem.lines ++ (fanSettings.reverse.map EntryLine.line ++
        ([fanOutput, fanInput].flatMap SectionLines.lines ++
          ["% there is one".toList, inBrackets " RULES ".toList, "  ".toList ++
            ((fanRule'.line ++ '%' :: " when it is not hot".toList) ++ " ".toList)])) := by
    decide +kernel
  rw [Relaid, hfirst, hlast]
  have hentries := @Edit.entries [] ([fanInput, fanOutput].flatMap SectionLines.lines ++
    [inBrackets "Rules".toList, fanRule.line]) fanSystem fanSettings fanSettings.reverse (by decide)
    (List.reverse_perm _).symm (by decide)
  have hrules : BeginsSection [inBrackets "Rules".toList, fanRule.line] := by
    rintro line ⟨⟩
    exact ⟨"Rules".toList, by decide⟩
  have hsections := @Edit.sections [] _ [fanInput, fanOutput] [fanOutput, fanInput] (.swap _ _ _)
    (by decide) hrules
  refine .trans _ _ _ (.rel _ _ hentries) ?_
  refine eqvGen_append_left ?_ fanSystem.lines
  refine eqvGen_append_left ?_ (fanSettings.reverse.map EntryLine.line)
  refine .trans _ _ _ (.rel _ _ hsections) ?_
  exact eqvGen_append_left fanRules_relaid _

/-- The system with one rule is read from both texts. -/
theorem fan_read_relaid : Relaid fanText relaidFanText ∧
    ∃ s : FuzzySystem Float, readSystem fanText (.count 5) = .ok s ∧
      readSystem relaidFanText (.count 5) = .ok s := by
  have hread : (readSystem (α := Float) fanText (.count 5)).isOk = true := by decide +kernel
  cases hs : readSystem (α := Float) fanText (.count 5) with
  | ok s => exact ⟨fan_relaid, s, rfl, (readSystem_relaid fan_relaid _ s).mp hs⟩
  | error fault =>
    rw [hs] at hread
    cases hread

end FuzzyInference.FisText
