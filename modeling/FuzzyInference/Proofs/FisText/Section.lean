import FuzzyInference.FisText.Section
import FuzzyInference.Proofs.Text.Basic
import Mathlib.Data.List.Forall2

/-!
# Sections that are laid out

A text whose lines stand in blocks, each below a name in brackets, is read as the sections that the
blocks stand for, entry by entry. Sections and entries are found by their names again.
-/

namespace FuzzyInference.FisText

open Text

variable {α : Type}

/-- A text in brackets. -/
def inBrackets (cs : List Char) : List Char := '[' :: (cs ++ [']'])

/-! ### Lines -/

/-- Lines, each of them ended. -/
def endedLines (lines : List (List Char)) : List Char := lines.flatMap (· ++ ['\n'])

private theorem splitLines_append {line rest : List Char} (h : '\n' ∉ line) :
    splitLines (line ++ '\n' :: rest) = line :: splitLines rest := by
  induction line with
  | nil => rw [List.nil_append, splitLines, if_pos rfl]
  | cons c line ih =>
    rw [List.mem_cons, not_or] at h
    rw [List.cons_append, splitLines, if_neg (Ne.symm h.1), ih h.2]

/-- Lines that are ended come back, with an empty one behind them. -/
theorem splitLines_endedLines {lines : List (List Char)} (h : ∀ line ∈ lines, '\n' ∉ line) :
    splitLines (endedLines lines) = lines ++ [[]] := by
  induction lines with
  | nil => rfl
  | cons line lines ih =>
    obtain ⟨hline, hlines⟩ := List.forall_mem_cons.mp h
    have hended : endedLines (line :: lines) = line ++ '\n' :: endedLines lines := by
      rw [endedLines, List.flatMap_cons, List.append_assoc, List.singleton_append, endedLines]
    rw [hended, splitLines_append hline, ih hlines, List.cons_append]

/-- There are at least as many characters as lines. -/
theorem length_le_endedLines (lines : List (List Char)) :
    lines.length ≤ (endedLines lines).length := by
  induction lines with
  | nil => exact Nat.le_refl _
  | cons line lines ih =>
    rw [endedLines, List.flatMap_cons, ← endedLines, List.length_append, List.length_append,
      List.length_singleton, List.length_cons]
    omega

private theorem content_eq {line : List Char} (h : '%' ∉ line) : content line = trim line := by
  have hkept : line.takeWhile (· ≠ '%') = line := by
    rw [List.takeWhile_eq_self_iff]
    intro c hc
    simpa using fun he : c = '%' ↦ h (he ▸ hc)
  rw [content, hkept]

/-- A name in brackets opens a section. -/
theorem classify_header {name : List Char} (hname : Tight name) (h : '%' ∉ name) :
    classify (content (inBrackets name)) = .header name := by
  have hline : Tight (inBrackets name) := .enclosed (by decide) (by decide)
  have hcomment : '%' ∉ inBrackets name := by simpa [inBrackets] using h
  obtain ⟨rest, b, hb, -⟩ := hname.last
  have hbracketed : bracketed? (inBrackets name) = some name := by
    subst hb
    simp [bracketed?, inBrackets]
  rw [content_eq hcomment, hline.trim_eq, classify,
    if_neg (show inBrackets name ≠ [] from List.cons_ne_nil _ _), hbracketed]
  exact congrArg Line.header hname.trim_eq

/-- A key and a value are an entry, whatever blanks stand around the mark between them. -/
theorem classify_entry {key value l r : List Char} {mark : Char} (hkey : Tight key)
    (hvalue : Tight value) (hmark : isSeparator mark = true)
    (hseparator : ∀ c ∈ key, isSeparator c = false) (hopening : ∀ c ∈ key, c ≠ '[')
    (hl : ∀ c ∈ l, c = ' ') (hr : ∀ c ∈ r, c = ' ')
    (hcomment : '%' ∉ key ++ (l ++ mark :: r ++ value)) :
    classify (content (key ++ (l ++ mark :: r ++ value))) = .entry ⟨toLower key, value⟩ := by
  have hblank {cs : List Char} (h : ∀ c ∈ cs, c = ' ') : ∀ c ∈ cs, isBlank c = true := by
    intro c hc
    rw [h c hc]
    rfl
  have hcut : splitFirst isSeparator (key ++ (l ++ mark :: r ++ value)) =
      some (key ++ l, mark, r ++ value) := by
    have hfirst : ∀ c ∈ key ++ l, isSeparator c = false := by
      refine List.forall_mem_append.mpr ⟨hseparator, fun c hc ↦ ?_⟩
      rw [hl c hc]
      rfl
    rw [← splitFirst_append hfirst hmark]
    simp
  obtain ⟨a, rest, rfl, -⟩ := hkey.first
  have ha : a ≠ '[' := hopening a List.mem_cons_self
  have hbracketed : bracketed? (a :: rest ++ (l ++ mark :: r ++ value)) = none := by
    rw [List.cons_append, bracketed?]
    simp [ha]
  rw [content_eq hcomment, (hkey.append hvalue _).trim_eq, classify,
    if_neg (by simp), hbracketed]
  simp only [hcut]
  have hkeyTrimmed := hkey.trim_padded (l := []) nofun (hblank hl)
  have hvalueTrimmed := hvalue.trim_padded (r := []) (hblank hr) nofun
  rw [List.nil_append] at hkeyTrimmed
  rw [List.append_nil] at hvalueTrimmed
  rw [hkeyTrimmed, hvalueTrimmed]

/-! ### Blocks -/

/-- A name and the lines that stand below it. -/
structure Block where
  /-- The name. -/
  name : List Char
  /-- The lines. -/
  lines : List (List Char)

namespace Block

/-- The lines of a block: its name in brackets, the lines below it, and an empty one. -/
def written (b : Block) : List (List Char) := inBrackets b.name :: (b.lines ++ [[]])

/-- A block stands for a section: its lines are read as the entries, one by one. -/
structure Reads (b : Block) (s : Section) : Prop where
  /-- The name opens the section. -/
  header : classify (content (inBrackets b.name)) = .header s.name
  /-- The lines are the entries. -/
  entries : List.Forall₂ (fun line e ↦ classify (content line) = .entry e) b.lines s.entries

end Block

private theorem sectionsFrom_entries {lines rest : List (List Char)} {entries before : List Entry}
    {name : List Char} {opened : List Section}
    (h : List.Forall₂ (fun line e ↦ classify (content line) = .entry e) lines entries) :
    sectionsFrom (α := α) (⟨name, before⟩ :: opened) (lines ++ rest) =
      sectionsFrom (⟨name, entries.reverse ++ before⟩ :: opened) rest := by
  induction h generalizing before with
  | nil => rfl
  | cons hline _ ih =>
    rw [List.cons_append, sectionsFrom.eq_def]
    simp only [hline, ih, List.reverse_cons, List.append_assoc, List.singleton_append]

private theorem sectionsFrom_blank {opened : List Section} {rest : List (List Char)} :
    sectionsFrom (α := α) opened ([] :: rest) = sectionsFrom opened rest := by
  have hblank : classify (content []) = .blank := rfl
  conv_lhs => rw [sectionsFrom.eq_def]
  simp only [hblank]

private theorem sectionsFrom_block {b : Block} {s : Section} (h : b.Reads s)
    {opened : List Section} {rest : List (List Char)} :
    sectionsFrom (α := α) opened (b.written ++ rest) =
      sectionsFrom (⟨s.name, s.entries.reverse⟩ :: opened) rest := by
  rw [Block.written, List.cons_append, sectionsFrom.eq_def]
  simp only [h.header, List.append_assoc, sectionsFrom_entries h.entries, List.append_nil,
    List.singleton_append, sectionsFrom_blank]

private theorem sectionsFrom_blocks {bs : List Block} {ss : List Section}
    (h : List.Forall₂ Block.Reads bs ss) {opened : List Section} :
    sectionsFrom (α := α) opened (bs.flatMap Block.written ++ [[]]) =
      .ok ((opened.map fun s ↦ { s with entries := s.entries.reverse }).reverse ++ ss) := by
  induction h generalizing opened with
  | nil => rw [List.flatMap_nil, List.nil_append, sectionsFrom_blank, sectionsFrom, List.append_nil]
  | @cons b s bs ss hb _ ih =>
    rw [List.flatMap_cons, List.append_assoc, sectionsFrom_block hb, ih, List.map_cons,
      List.reverse_cons, List.append_assoc, List.singleton_append, List.reverse_reverse]

/-- The text of blocks is read as the sections that they stand for. -/
theorem sections_blocks {bs : List Block} {ss : List Section} (h : List.Forall₂ Block.Reads bs ss)
    (hlines : ∀ b ∈ bs, ∀ line ∈ b.written, '\n' ∉ line) :
    sections (α := α) (String.ofList (endedLines (bs.flatMap Block.written))) = .ok ss := by
  have hall : ∀ line ∈ bs.flatMap Block.written, '\n' ∉ line := by
    intro line hm
    obtain ⟨b, hb, hline⟩ := List.mem_flatMap.mp hm
    exact hlines b hb line hline
  rw [sections, String.toList_ofList, splitLines_endedLines hall, sectionsFrom_blocks h]
  rfl

/-! ### Finding sections and entries -/

/-- The first of numbered items is found by its number. -/
theorem find?_numbered {β γ : Type} {f : β × Nat → γ} {p : Nat → γ → Bool}
    (h : ∀ x i j, p i (f (x, j)) = decide (i = j)) {xs : List β} {first k : Nat} {x : β}
    (hx : xs[k]? = some x) :
    ((xs.zipIdx first).map f).find? (p (first + k)) = some (f (x, first + k)) := by
  induction xs generalizing first k with
  | nil => cases hx
  | cons y ys ih =>
    rw [List.zipIdx_cons, List.map_cons]
    cases k with
    | zero =>
      cases hx
      exact List.find?_cons_of_pos (by simp [h])
    | succ k =>
      have hne : p (first + (k + 1)) (f (y, first)) = false := by simp [h]
      rw [List.find?_cons_of_neg (by simp [hne]), show first + (k + 1) = first + 1 + k by omega]
      exact ih hx

/-- A section is found behind sections of other names. -/
theorem find_eq_ok {ss : List Section} {s : Section} {name : String}
    (h : (ss.find? fun s ↦ eqIgnoringCase s.name name.toList) = some s) :
    find (α := α) ss name = .ok s := by
  rw [find, h]

/-- A value is found behind other keys. -/
theorem Section.get_eq_ok {s : Section} {e : Entry} {key : String}
    (h : (s.entries.find? fun e ↦ e.key == key.toList) = some e) :
    s.get (α := α) key = .ok e.value := by
  rw [Section.get, Section.get?, h]
  rfl

end FuzzyInference.FisText
