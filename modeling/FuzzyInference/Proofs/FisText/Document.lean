import FuzzyInference.FisText.Reader
import FuzzyInference.Proofs.FisText.Value

/-!
# Documents

What a `.fis` text says, apart from how it is read: the methods, the variables with their membership
functions, and the rules. A document is laid out as a text with a section for the methods, one for
each variable and one for the rules, line by line; whatever writes the numbers, if only they are
read back, the text is read as these sections.
-/

namespace FuzzyInference.FisText

open Text
open Numeral (IsWord isNumeralChar of_isNumeralChar lt_of_isNumeralChar isWord_digitChars)

/-! ### What documents say -/

/-- A variable as it is declared. -/
structure Declaration (α : Type) where
  /-- The name. -/
  name : String
  /-- The lower bound of the range. -/
  low : α
  /-- The upper bound of the range. -/
  high : α
  /-- The labels and their curves, in order. -/
  labels : List (String × Shape α)

/-- How the valuations of a rule are combined. -/
inductive Connective where
  /-- All of them hold. -/
  | conjunction
  /-- One of them holds. -/
  | disjunction
  deriving DecidableEq

/-- A rule as it is listed. -/
structure RuleLine (α : Type) where
  /-- An index for each input: the number of a label, negated or not, or zero. -/
  indices : List Int
  /-- The number of the label that is concluded. -/
  output : Int
  /-- The weight. -/
  weight : α
  /-- The connective. -/
  connective : Connective

/-- What a text says. A method that is not given is the usual one. -/
structure Document (α : Type) where
  /-- The conjunction and the name of the method. -/
  conjunction : Option (String × Conjunction)
  /-- The disjunction and the name of the method. -/
  disjunction : Option (String × Disjunction)
  /-- The implication and the name of the method. -/
  implication : Option (String × Implication)
  /-- The aggregation and the name of the method. -/
  aggregation : Option (String × Disjunction)
  /-- The defuzzification, whose name is its tag. -/
  defuzzification : Option Defuzzification
  /-- The inputs, in order. -/
  inputs : List (Declaration α)
  /-- The output. -/
  target : Declaration α
  /-- The rules, in order. -/
  rules : List (RuleLine α)

variable {α : Type}

/-! ### How documents are laid out -/

namespace Entry

/-- The line of an entry. -/
def line (e : Entry) : List Char := e.key ++ '=' :: e.value

/-- An entry as it is read: its key in lower case. -/
def lowered (e : Entry) : Entry := ⟨e.key.map Char.toLower, e.value⟩

end Entry

/-- A word with a number behind it. -/
def numbered (word : String) (n : Nat) : List Char := word.toList ++ Decimal.digitChars n

namespace Declaration

variable (write : α → List Char)

/-- The text of a label and its curve. -/
def labelText (label : String × Shape α) : List Char :=
  membershipText label.1.toList (membership label.2).1.toList
    (spaced ((membership label.2).2.map write))

/-- The entry of a label, by its number. -/
def labelEntry (label : (String × Shape α) × Nat) : Entry :=
  ⟨numbered "MF" label.2, labelText write label.1⟩

/-- The entries of a variable: its name, its range, and its membership functions, numbered from
one. -/
def entries (v : Declaration α) : List Entry :=
  ⟨"Name".toList, inQuotes v.name.toList⟩ ::
    ⟨"Range".toList, inBrackets (spaced ([v.low, v.high].map write))⟩ ::
    ⟨"NumMFs".toList, Decimal.digitChars v.labels.length⟩ ::
    (v.labels.zipIdx 1).map (labelEntry write)

/-- The numbers that occur in a variable. -/
def numbers (v : Declaration α) : List α :=
  v.low :: v.high :: v.labels.flatMap fun label ↦ (membership label.2).2

end Declaration

/-- The number of a connective. -/
def Connective.number : Connective → Char
  | conjunction => '1'
  | disjunction => '2'

/-- What stands in front of the colon of a rule: the indices, the output index, and the weight in
parentheses. -/
def ruleKey (indices : List Int) (output : Int) (weight : List Char) : List Char :=
  spaced (indices.map indexText) ++
    (',' :: ' ' :: (indexText output ++ (' ' :: '(' :: weight)) ++ [')'])

namespace RuleLine

variable (write : α → List Char) (r : RuleLine α)

/-- The line of a rule. -/
def line : List Char :=
  ruleKey r.indices r.output (write r.weight) ++ ([' '] ++ ':' :: [' '] ++ [r.connective.number])

/-- The entry that the line is read as. -/
def entry : Entry :=
  ⟨ruleKey r.indices r.output ((write r.weight).map Char.toLower), [r.connective.number]⟩

end RuleLine

namespace Document

variable (d : Document α) (write : α → List Char)

/-- The settings of a document as a whole, by key: the values that are given. -/
def settings : List (String × Option (List Char)) :=
  [("Type", some (inQuotes "mamdani".toList)),
    ("NumInputs", some (Decimal.digitChars d.inputs.length)),
    ("NumOutputs", some (Decimal.digitChars 1)),
    ("AndMethod", d.conjunction.map fun m ↦ inQuotes m.1.toList),
    ("OrMethod", d.disjunction.map fun m ↦ inQuotes m.1.toList),
    ("ImpMethod", d.implication.map fun m ↦ inQuotes m.1.toList),
    ("AggMethod", d.aggregation.map fun m ↦ inQuotes m.1.toList),
    ("DefuzzMethod", d.defuzzification.map fun op ↦ inQuotes op.tag.toList)]

/-- The entries of settings, as far as these are given. -/
def settingEntries (settings : List (String × Option (List Char))) : List Entry :=
  settings.flatMap fun (key, value?) ↦ value?.toList.map fun value ↦ ⟨key.toList, value⟩

/-- The sections of a document that hold entries, by name. -/
def keyed : List (List Char × List Entry) :=
  ("System".toList, settingEntries d.settings) ::
    ((d.inputs.zipIdx 1).map (fun (v, i) ↦ (numbered "Input" i, v.entries write)) ++
      [("Output1".toList, d.target.entries write)])

/-- The blocks of the text: those sections, and the rules. -/
def blocks : List Block :=
  (d.keyed write).map (fun (name, es) ↦ ⟨name, es.map Entry.line⟩) ++
    [⟨"Rules".toList, d.rules.map (·.line write)⟩]

/-- The text of a document. -/
def text : String := String.ofList (endedLines ((d.blocks write).flatMap Block.written))

/-- The sections that the text is read as. -/
def readSections : List Section :=
  (d.keyed write).map (fun (name, es) ↦ ⟨name, es.map Entry.lowered⟩) ++
    [⟨"Rules".toList, d.rules.map (·.entry write)⟩]

/-- The numbers that occur in a document. -/
def numbers : List α :=
  (d.inputs ++ [d.target]).flatMap Declaration.numbers ++ d.rules.map (·.weight)

end Document

/-! ### Sound documents -/

/-- A text without comments and line breaks. -/
def Plain (cs : List Char) : Prop := ∀ c ∈ cs, c ≠ '%' ∧ c ≠ '\n'

/-- A name that can stand in quotes. -/
structure IsName (name : String) : Prop where
  /-- It has no quotes. -/
  unquoted : '\x27' ∉ name.toList
  /-- It has no comments and line breaks. -/
  plain : Plain name.toList

instance : DecidablePred Plain := fun cs ↦
  decidable_of_iff (cs.all (fun c ↦ c ≠ '%' ∧ c ≠ '\n') = true) (by simp [Plain])

instance : DecidablePred IsName := fun name ↦
  decidable_of_iff ('\x27' ∉ name.toList ∧ Plain name.toList)
    ⟨fun h ↦ ⟨h.1, h.2⟩, fun h ↦ ⟨h.unquoted, h.plain⟩⟩

section Sound

variable [Scalar α]

/-- A variable that can be declared: names that can be quoted, labels that differ, finite bounds
that ascend, and curves of the kinds that there are, with valid parameters. -/
structure Declaration.Sound (v : Declaration α) : Prop where
  /-- The name can be quoted. -/
  name : IsName v.name
  /-- The labels can be quoted. -/
  labels : ∀ label ∈ v.labels, IsName label.1
  /-- No label occurs twice. -/
  labels_nodup : (v.labels.map Prod.fst).Nodup
  /-- The lower bound is finite. -/
  low : Scalar.isFinite v.low = true
  /-- The upper bound is finite. -/
  high : Scalar.isFinite v.high = true
  /-- The bounds ascend. -/
  ascending : v.low < v.high
  /-- The curves are no polygons. -/
  kinds : ∀ label ∈ v.labels, ∀ points, label.2 ≠ .piecewise points
  /-- The parameters are valid. -/
  shapes : ∀ label ∈ v.labels, label.2.WellFormed

/-- A rule that suits the variables of a document. -/
structure RuleLine.Sound (d : Document α) (r : RuleLine α) : Prop where
  /-- There is an index for each input, and it numbers a label of that. -/
  indices : List.Forall₂ (fun v k ↦ k.natAbs ≤ v.labels.length) d.inputs r.indices
  /-- One of them is not zero. -/
  exists_ne_zero : ∃ k ∈ r.indices, k ≠ 0
  /-- The output index is positive. -/
  output_pos : 0 < r.output
  /-- It numbers a label of the output. -/
  output_le : r.output ≤ d.target.labels.length
  /-- The weight is above zero. -/
  weight_pos : 0 < r.weight
  /-- It is at most one. -/
  weight_le_one : r.weight ≤ 1

/-- A document whose methods are supported and whose variables and rules are sound. -/
structure Document.Sound (d : Document α) : Prop where
  /-- The conjunction is supported under its name. -/
  conjunction : ∀ m ∈ d.conjunction, m ∈ conjunctionMethods
  /-- The disjunction is supported under its name. -/
  disjunction : ∀ m ∈ d.disjunction, m ∈ disjunctionMethods
  /-- The implication is supported under its name. -/
  implication : ∀ m ∈ d.implication, m ∈ implicationMethods
  /-- The aggregation is supported under its name. -/
  aggregation : ∀ m ∈ d.aggregation, m ∈ aggregationMethods
  /-- The variables are sound. -/
  declarations : ∀ v ∈ d.inputs ++ [d.target], v.Sound
  /-- Their names are distinct. -/
  names_nodup : ((d.inputs ++ [d.target]).map (·.name)).Nodup
  /-- The rules suit them. -/
  rules : ∀ r ∈ d.rules, r.Sound d

end Sound

/-! ### Lines -/

/-- Words have no comments and line breaks. -/
theorem plain_of_isWord {cs : List Char} (h : IsWord cs) : Plain cs := fun c hc ↦
  ⟨ne_of_isNumeralChar (h.2 c hc) (by decide), ne_of_isNumeralChar (h.2 c hc) (by decide)⟩

/-- A word with a number behind it is a word. -/
theorem isWord_numbered {word : String} (h : IsWord word.toList) (n : Nat) :
    IsWord (numbered word n) :=
  ⟨List.append_ne_nil_of_left_ne_nil h.1 _,
    List.forall_mem_append.mpr ⟨h.2, (isWord_digitChars n).2⟩⟩

/-- An entry whose key is a word and whose value can be written behind it. -/
structure Entry.Writable (e : Entry) : Prop where
  /-- The key is a word. -/
  key : IsWord e.key
  /-- The value begins and ends with other characters than blanks. -/
  tight : Tight e.value
  /-- It has no comments and line breaks. -/
  plain : Plain e.value

namespace Entry.Writable

variable {e : Entry}

/-- The line of an entry is read as that. -/
theorem classify_line (h : e.Writable) : classify (content e.line) = .entry e.lowered := by
  have hseparator : ∀ c ∈ e.key, isSeparator c = false := fun c hc ↦ by
    simpa using of_isNumeralChar (p := fun c ↦ !isSeparator c) (by decide) (h.key.2 c hc)
  have hopening : ∀ c ∈ e.key, c ≠ '[' := fun c hc ↦ ne_of_isNumeralChar (h.key.2 c hc) (by decide)
  have hcomment : '%' ∉ e.key ++ ([] ++ '=' :: [] ++ e.value) := by
    simp only [List.nil_append, List.mem_append, List.mem_cons, not_or]
    exact ⟨fun hm ↦ (plain_of_isWord h.key _ hm).1 rfl, ⟨by decide, List.not_mem_nil⟩,
      fun hm ↦ (h.plain _ hm).1 rfl⟩
  have hline := classify_entry (l := []) (r := []) (tight_of_isWord h.key) h.tight (by decide)
    hseparator hopening (by simp) (by simp) hcomment
  rwa [toLower_of_ascii fun c hc ↦ lt_of_isNumeralChar (h.key.2 c hc)] at hline

/-- It is one line. -/
theorem newline_not_mem (h : e.Writable) : '\n' ∉ e.line := by
  simp only [line, List.mem_append, List.mem_cons, not_or]
  exact ⟨fun hm ↦ (plain_of_isWord h.key _ hm).2 rfl, by decide, fun hm ↦ (h.plain _ hm).2 rfl⟩

end Entry.Writable

/-! ### Sections -/

/-- A section that is laid out entry by entry is read as its entries. -/
theorem reads_keyed {name : List Char} {es : List Entry} (hname : IsWord name)
    (hes : ∀ e ∈ es, e.Writable) :
    Block.Reads ⟨name, es.map Entry.line⟩ ⟨name, es.map Entry.lowered⟩ := by
  refine ⟨classify_header (tight_of_isWord hname) fun hm ↦ (plain_of_isWord hname _ hm).1 rfl, ?_⟩
  rw [List.forall₂_map_left_iff, List.forall₂_map_right_iff, List.forall₂_same]
  exact fun e he ↦ (hes e he).classify_line

/-- The characters in front of the colon of a rule. -/
theorem forall_mem_ruleKey {p : Char → Prop} (hmark : p ' ' ∧ p ',' ∧ p '(' ∧ p ')')
    (hnumeral : ∀ c, isNumeralChar c = true → p c) {indices : List Int} {output : Int}
    {weight : List Char} (hweight : ∀ c ∈ weight, isNumeralChar c = true) :
    ∀ c ∈ ruleKey indices output weight, p c := by
  have hindex (k : Int) : ∀ c ∈ indexText k, p c :=
    fun c hc ↦ hnumeral c ((isWord_indexText k).2 c hc)
  have hindices : ∀ c ∈ spaced (indices.map indexText), p c :=
    forall_mem_spaced hmark.1 (List.forall_mem_map.mpr fun k _ ↦ hindex k)
  obtain ⟨hblank, hcomma, hopening, hclosing⟩ := hmark
  simp only [ruleKey, List.forall_mem_append, List.forall_mem_cons]
  exact ⟨hindices, ⟨hcomma, hblank, hindex output, hblank, hopening,
    fun c hc ↦ hnumeral c (hweight c hc)⟩, hclosing, nofun⟩

/-- What stands in front of the colon, in lower case. -/
theorem map_toLower_ruleKey (indices : List Int) (output : Int) (weight : List Char) :
    (ruleKey indices output weight).map Char.toLower =
      ruleKey indices output (weight.map Char.toLower) := by
  have hindices : (indices.map indexText).map (·.map Char.toLower) = indices.map indexText := by
    rw [List.map_map]
    exact List.map_congr_left fun k _ ↦ map_toLower_indexText k
  simp only [ruleKey, List.map_append, List.map_cons, map_spaced (show ' '.toLower = ' ' from rfl),
    hindices, map_toLower_indexText]
  rfl

private theorem newline_not_mem_written {b : Block} (hname : IsWord b.name)
    (hlines : ∀ line ∈ b.lines, '\n' ∉ line) : ∀ line ∈ b.written, '\n' ∉ line := by
  have hheader : '\n' ∉ inBrackets b.name := by
    simp only [inBrackets, List.mem_cons, List.mem_append, List.not_mem_nil, or_false, not_or]
    exact ⟨by decide, fun hm ↦ (plain_of_isWord hname _ hm).2 rfl, by decide⟩
  rw [Block.written, List.forall_mem_cons, List.forall_mem_append]
  exact ⟨hheader, hlines, by simp⟩

section Written

variable [Scalar α] {write : α → List Char}

omit [Scalar α] in
private theorem plain_inQuotes {cs : List Char} (h : Plain cs) : Plain (inQuotes cs) := by
  rw [inQuotes, Plain, List.forall_mem_cons, List.forall_mem_append, List.forall_mem_singleton]
  exact ⟨by decide, h, by decide⟩

omit [Scalar α] in
private theorem writable_inQuotes {key cs : List Char} (hkey : IsWord key) (h : Plain cs) :
    (⟨key, inQuotes cs⟩ : Entry).Writable :=
  ⟨hkey, .enclosed (by decide) (by decide), plain_inQuotes h⟩

omit [Scalar α] in
private theorem writable_digitChars {key : List Char} (hkey : IsWord key) (n : Nat) :
    (⟨key, Decimal.digitChars n⟩ : Entry).Writable :=
  ⟨hkey, tight_of_isWord (isWord_digitChars n), plain_of_isWord (isWord_digitChars n)⟩

private theorem plain_inBrackets {xs : List α} (h : ∀ x ∈ xs, Scalar.ofText? (write x) = some x) :
    Plain (inBrackets (spaced (xs.map write))) := by
  have hnumbers : Plain (spaced (xs.map write)) :=
    forall_mem_spaced_write (by decide) (fun c hc ↦
      ⟨ne_of_isNumeralChar hc (by decide), ne_of_isNumeralChar hc (by decide)⟩) h
  rw [inBrackets, Plain, List.forall_mem_cons, List.forall_mem_append, List.forall_mem_singleton]
  exact ⟨by decide, hnumbers, by decide⟩

private theorem writable_labelText {key : List Char} {label : String × Shape α} (hkey : IsWord key)
    (hname : IsName label.1) (hkind : ∀ points, label.2 ≠ .piecewise points)
    (hwrite : ∀ x ∈ (membership label.2).2, Scalar.ofText? (write x) = some x) :
    (⟨key, Declaration.labelText write label⟩ : Entry).Writable := by
  have hquoted : Tight (inQuotes label.1.toList) := .enclosed (by decide) (by decide)
  have hlist : Tight (inBrackets (spaced ((membership label.2).2.map write))) :=
    .enclosed (by decide) (by decide)
  have htext : Declaration.labelText write label = inQuotes label.1.toList ++
      ((':' :: inQuotes (membership label.2).1.toList ++ [',']) ++
        inBrackets (spaced ((membership label.2).2.map write))) := by
    simp [Declaration.labelText, membershipText]
  refine ⟨hkey, htext ▸ hquoted.append hlist _, ?_⟩
  rw [Declaration.labelText, membershipText, Plain, List.forall_mem_append, List.forall_mem_cons,
    List.forall_mem_append, List.forall_mem_cons]
  have hword := isWord_kind hkind
  exact ⟨plain_inQuotes hname.plain, by decide, plain_inQuotes (plain_of_isWord hword), by decide,
    plain_inBrackets hwrite⟩

private theorem Declaration.Sound.writable_entries {v : Declaration α} (h : v.Sound)
    (hwrite : ∀ x ∈ v.numbers, Scalar.ofText? (write x) = some x) :
    ∀ e ∈ v.entries write, e.Writable := by
  simp only [Declaration.numbers, List.forall_mem_cons, List.mem_flatMap, forall_exists_index,
    and_imp] at hwrite
  obtain ⟨hlow, hhigh, hlabels⟩ := hwrite
  have hrange : ∀ x ∈ [v.low, v.high], Scalar.ofText? (write x) = some x := by
    simpa using ⟨hlow, hhigh⟩
  simp only [Declaration.entries, List.forall_mem_cons, List.forall_mem_map]
  refine ⟨writable_inQuotes (by decide) h.name.plain, ⟨(by decide : IsWord "Range".toList),
    .enclosed (by decide) (by decide), plain_inBrackets hrange⟩,
    writable_digitChars (by decide) _, fun label hm ↦ ?_⟩
  have hm : label.1 ∈ v.labels := List.fst_mem_of_mem_zipIdx hm
  exact writable_labelText (isWord_numbered (by decide) _) (h.labels _ hm) (h.kinds _ hm)
    fun x hx ↦ hlabels x _ hm hx

private theorem Document.Sound.writable_settings {d : Document α} (h : d.Sound) :
    ∀ e ∈ Document.settingEntries d.settings, e.Writable := by
  have hmethod {β : Type} {key : String} {m? : Option β} {name : β → String}
      (hkey : IsWord key.toList) (hname : ∀ m ∈ m?, IsWord (name m).toList) :
      ∀ value ∈ m?.map fun m ↦ inQuotes (name m).toList,
        (⟨key.toList, value⟩ : Entry).Writable := by
    intro value hvalue
    obtain ⟨m, hm, rfl⟩ := Option.mem_map.mp hvalue
    exact writable_inQuotes hkey (plain_of_isWord (hname m hm))
  have htable {β : Type} {table : List (String × β)} {m? : Option (String × β)}
      (htable : ∀ m ∈ table, IsWord m.1.toList) (hm : ∀ m ∈ m?, m ∈ table) :
      ∀ m ∈ m?, IsWord m.1.toList := fun m hmem ↦ htable m (hm m hmem)
  have hall : ∀ setting ∈ d.settings, ∀ value ∈ setting.2,
      (⟨setting.1.toList, value⟩ : Entry).Writable := by
    simp only [Document.settings, List.forall_mem_cons, Option.mem_some_iff, forall_eq']
    exact ⟨writable_inQuotes (by decide) (plain_of_isWord (by decide)),
      writable_digitChars (by decide) _, writable_digitChars (by decide) _,
      hmethod (by decide) (htable (by decide) h.conjunction),
      hmethod (by decide) (htable (by decide) h.disjunction),
      hmethod (by decide) (htable (by decide) h.implication),
      hmethod (by decide) (htable (by decide) h.aggregation),
      hmethod (by decide) fun op _ ↦ by cases op <;> decide, nofun⟩
  intro e he
  obtain ⟨setting, hsetting, he⟩ := List.mem_flatMap.mp he
  obtain ⟨value, hvalue, rfl⟩ := List.mem_map.mp he
  exact hall setting hsetting value (Option.mem_toList.mp hvalue)

/-- A sound rule has indices. -/
theorem RuleLine.Sound.indices_ne_nil {d : Document α} {r : RuleLine α}
    (h : r.Sound d) : r.indices ≠ [] := by
  obtain ⟨k, hk, -⟩ := h.exists_ne_zero
  exact List.ne_nil_of_mem hk

private theorem RuleLine.Sound.classify_line {d : Document α} {r : RuleLine α} (h : r.Sound d)
    (hwrite : Scalar.ofText? (write r.weight) = some r.weight) :
    classify (content (r.line write)) = .entry (r.entry write) := by
  have hweight := (isWord_of_ofText? hwrite).2
  have hkey {p : Char → Prop} (hmark : p ' ' ∧ p ',' ∧ p '(' ∧ p ')')
      (hnumeral : ∀ c, isNumeralChar c = true → p c) :
      ∀ c ∈ ruleKey r.indices r.output (write r.weight), p c :=
    forall_mem_ruleKey hmark hnumeral hweight
  have htight : Tight (ruleKey r.indices r.output (write r.weight)) :=
    (tight_indices h.indices_ne_nil).append (.singleton (by decide)) _
  have hseparator : ∀ c ∈ ruleKey r.indices r.output (write r.weight), isSeparator c = false :=
    hkey (by decide) fun c hc ↦ by
      simpa using of_isNumeralChar (p := fun c ↦ !isSeparator c) (by decide) hc
  have hopening : ∀ c ∈ ruleKey r.indices r.output (write r.weight), c ≠ '[' :=
    hkey (by decide) fun c hc ↦ ne_of_isNumeralChar hc (by decide)
  have hcomment : ∀ c ∈ r.line write, c ≠ '%' := by
    rw [RuleLine.line, List.forall_mem_append]
    refine ⟨hkey (by decide) fun c hc ↦ ne_of_isNumeralChar hc (by decide), ?_⟩
    cases r.connective <;> simp [Connective.number]
  have hascii : ∀ c ∈ ruleKey r.indices r.output (write r.weight), c.toNat < 0x80 :=
    hkey (by decide) fun c hc ↦ lt_of_isNumeralChar hc
  have hconnective : Tight [r.connective.number] :=
    .singleton (by cases r.connective <;> decide)
  have hline := classify_entry (l := [' ']) (r := [' ']) htight hconnective
    (show isSeparator ':' = true by decide) hseparator hopening (by simp) (by simp)
    fun hm ↦ hcomment _ hm rfl
  rwa [toLower_of_ascii hascii, map_toLower_ruleKey] at hline

private theorem RuleLine.newline_not_mem {r : RuleLine α}
    (hwrite : Scalar.ofText? (write r.weight) = some r.weight) : '\n' ∉ r.line write := by
  have hall : ∀ c ∈ r.line write, c ≠ '\n' := by
    rw [RuleLine.line, List.forall_mem_append]
    refine ⟨forall_mem_ruleKey (by decide) (fun c hc ↦ ne_of_isNumeralChar hc (by decide))
      (isWord_of_ofText? hwrite).2, ?_⟩
    cases r.connective <;> simp [Connective.number]
  exact fun hm ↦ hall _ hm rfl

variable {d : Document α}

private theorem Document.Sound.keyed (hd : d.Sound)
    (hwrite : ∀ x ∈ d.numbers, Scalar.ofText? (write x) = some x) :
    ∀ s ∈ d.keyed write, IsWord s.1 ∧ ∀ e ∈ s.2, e.Writable := by
  have hentries : ∀ v ∈ d.inputs ++ [d.target], ∀ e ∈ v.entries write, e.Writable := by
    intro v hv
    refine (hd.declarations v hv).writable_entries fun x hx ↦ hwrite x ?_
    exact List.mem_append_left _ (List.mem_flatMap_of_mem hv hx)
  simp only [Document.keyed, List.forall_mem_cons, List.forall_mem_append, List.forall_mem_map]
  refine ⟨⟨by decide, hd.writable_settings⟩, fun s hs ↦ ?_, ⟨by decide, ?_⟩, nofun⟩
  · have hv : s.1 ∈ d.inputs := List.fst_mem_of_mem_zipIdx hs
    exact ⟨isWord_numbered (by decide) _, hentries _ (List.mem_append_left _ hv)⟩
  · exact hentries _ (by simp)

/-! ### Main results -/

/-- The text of a sound document is read as its sections, whatever writes the numbers. -/
theorem Document.Sound.sections_text (hd : d.Sound)
    (hwrite : ∀ x ∈ d.numbers, Scalar.ofText? (write x) = some x) :
    sections (α := α) (d.text write) = .ok (d.readSections write) := by
  have hweight : ∀ r ∈ d.rules, Scalar.ofText? (write r.weight) = some r.weight := fun r hr ↦
    hwrite _ (List.mem_append_right _ (List.mem_map_of_mem hr))
  have hkeyed := hd.keyed hwrite
  have hrules : IsWord "Rules".toList := by decide
  refine sections_blocks (List.rel_append ?_ (.cons ⟨?_, ?_⟩ .nil)) ?_
  · rw [List.forall₂_map_left_iff, List.forall₂_map_right_iff, List.forall₂_same]
    exact fun s hs ↦ reads_keyed (hkeyed s hs).1 (hkeyed s hs).2
  · exact classify_header (tight_of_isWord hrules) fun hm ↦ (plain_of_isWord hrules _ hm).1 rfl
  · rw [List.forall₂_map_left_iff, List.forall₂_map_right_iff, List.forall₂_same]
    exact fun r hr ↦ (hd.rules r hr).classify_line (hweight r hr)
  · simp only [Document.blocks, List.forall_mem_append, List.forall_mem_map,
      List.forall_mem_singleton]
    constructor
    · intro s hs
      refine newline_not_mem_written (hkeyed s hs).1 ?_
      rw [List.forall_mem_map]
      exact fun e he ↦ ((hkeyed s hs).2 e he).newline_not_mem
    · refine newline_not_mem_written hrules ?_
      rw [List.forall_mem_map]
      exact fun r hr ↦ RuleLine.newline_not_mem (hweight r hr)

end Written

end FuzzyInference.FisText
