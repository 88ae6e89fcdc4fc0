import FuzzyInference.Proofs.FisText.Description

/-!
# Settings and variables that are read

The entries of a section are found under their keys again, whatever stands around them: the methods,
which may be missing, and the membership functions of a variable, which are numbered.
-/

namespace FuzzyInference.FisText

open Result Text
open Numeral (IsWord)

variable {α : Type}

/-! ### Numbered names -/

/-- A word with a number behind it, as a string. -/
theorem toList_numbered (word : String) (n : Nat) :
    (word ++ toString n).toList = numbered word n := by
  rw [String.toList_append, Nat.toString_eq_repr, Nat.toList_repr]
  rfl

/-- Different numbers make different names. -/
theorem numbered_inj {word : String} {m n : Nat} :
    numbered word m = numbered word n ↔ m = n := by
  refine ⟨fun h ↦ ?_, fun h ↦ h ▸ rfl⟩
  have hdigits : Decimal.digitChars m = Decimal.digitChars n := List.append_cancel_left h
  have hread := Numeral.natUpTo?_digitChars (Nat.le_max_left m n)
  rw [hdigits, Numeral.natUpTo?_digitChars (Nat.le_max_right m n)] at hread
  exact (Option.some.inj hread).symm

/-- The number of a name has no case. -/
theorem map_toLower_numbered (word : String) (n : Nat) :
    (numbered word n).map Char.toLower = word.toList.map Char.toLower ++ Decimal.digitChars n := by
  rw [numbered, List.map_append, map_toLower_digitChars]

/-! ### Settings -/

section Settings

variable {settings : List (String × Option (List Char))} {name : List Char}

/-- A key in lower case. -/
private def loweredKey (setting : String × Option (List Char)) : List Char :=
  setting.1.toList.map Char.toLower

private theorem find?_settings_eq_none (h : name ∉ settings.map loweredKey) :
    ((Document.settingEntries settings).map Entry.lowered).find? (fun e ↦ e.key == name) =
      none := by
  rw [List.find?_eq_none, List.forall_mem_map]
  intro e he hkey
  obtain ⟨setting, hsetting, he⟩ := List.mem_flatMap.mp he
  obtain ⟨value, -, rfl⟩ := List.mem_map.mp he
  exact h (eq_of_beq hkey ▸ List.mem_map_of_mem hsetting)

private theorem find?_settings (hn : (settings.map loweredKey).Nodup)
    {setting : String × Option (List Char)} (hm : setting ∈ settings) :
    (((Document.settingEntries settings).map Entry.lowered).find?
      fun e ↦ e.key == loweredKey setting).map (·.value) = setting.2 := by
  induction settings with
  | nil => cases hm
  | cons first rest ih =>
    obtain ⟨hfirst, hrest⟩ := List.nodup_cons.mp hn
    have hentries : (Document.settingEntries (first :: rest)).map Entry.lowered =
        (first.2.toList.map fun value ↦ (⟨loweredKey first, value⟩ : Entry)) ++
          (Document.settingEntries rest).map Entry.lowered := by
      rw [Document.settingEntries, List.flatMap_cons, List.map_append, List.map_map]
      rfl
    rw [hentries, List.find?_append]
    rcases List.mem_cons.mp hm with rfl | hm
    · cases hvalue : setting.2 with
      | none => simp [find?_settings_eq_none hfirst]
      | some value => simp
    · have hne : loweredKey first ≠ loweredKey setting := by
        intro he
        exact hfirst (he ▸ List.mem_map_of_mem hm)
      have hnone : (first.2.toList.map fun value ↦ (⟨loweredKey first, value⟩ : Entry)).find?
          (fun e ↦ e.key == loweredKey setting) = none := by
        rw [List.find?_eq_none, List.forall_mem_map]
        intro _ _ he
        exact hne (eq_of_beq he)
      rw [hnone, Option.none_or, ih hrest hm]

end Settings

/-- The section of the settings as it is read. -/
def header (d : Document α) : Section :=
  ⟨"System".toList, (Document.settingEntries d.settings).map Entry.lowered⟩

private theorem get?_header {d : Document α} (key : String) {name : String}
    {value? : Option (List Char)} (hm : (key, value?) ∈ d.settings)
    (hname : key.toList.map Char.toLower = name.toList) : (header d).get? name = value? := by
  have hkeys : (["Type", "NumInputs", "NumOutputs", "AndMethod", "OrMethod", "ImpMethod",
      "AggMethod", "DefuzzMethod"].map (·.toList.map Char.toLower)).Nodup := by decide
  have hn : (d.settings.map loweredKey).Nodup := hkeys
  have hfound := find?_settings hn hm
  rwa [loweredKey, hname] at hfound

/-- A setting that is given is found. -/
theorem get_header {d : Document α} (key : String) {name : String} {value : List Char}
    (hm : (key, some value) ∈ d.settings) (hname : key.toList.map Char.toLower = name.toList) :
    (header d).get (α := α) name = .ok value := by
  rw [Section.get, get?_header key hm hname]

private theorem method_eq_ok {β : Type} {table : List (String × β)} {family key : String}
    {s : Section} {usual : β} {m? : Option (String × β)}
    (htable : ∀ m ∈ table, IsWord m.1.toList ∧ m.1.toList.map Char.toLower = m.1.toList ∧
      table.lookup m.1 = some m.2)
    (hm : ∀ m ∈ m?, m ∈ table)
    (hget : s.get? key = m?.map fun m ↦ inQuotes m.1.toList) :
    method (α := α) s key usual (operatorOf family table) = .ok ((m?.map Prod.snd).getD usual) := by
  rw [method, hget]
  cases m? with
  | none => rfl
  | some m =>
    obtain ⟨hword, hlower, hlookup⟩ := htable m (hm m rfl)
    have hquote : '\x27' ∉ m.1.toList :=
      fun hc ↦ ne_of_isNumeralChar (hword.2 _ hc) (by decide) rfl
    have hascii : ∀ c ∈ m.1.toList, c.toNat < 0x80 :=
      fun c hc ↦ Numeral.lt_of_isNumeralChar (hword.2 c hc)
    simp only [Option.map_some, unquote_inQuotes hquote, toLower_of_ascii hascii, hlower,
      String.ofList_toList, operatorOf, hlookup, Option.getD_some]

private theorem method_defuzzification {key : String} {s : Section} {op? : Option Defuzzification}
    (hget : s.get? key = op?.map fun op ↦ inQuotes op.tag.toList) :
    method (α := α) s key .centroid Defuzzification.named = .ok (op?.getD .centroid) := by
  rw [method, hget]
  cases op? with
  | none => rfl
  | some op => cases op <;> rfl

/-- The methods of a sound document are read. -/
theorem readContext_header [Scalar α] {d : Document α} (hd : d.Sound) :
    readContext (α := α) (header d) = .ok d.context := by
  have hand : (header d).get? "andmethod" = d.conjunction.map fun m ↦ inQuotes m.1.toList :=
    get?_header "AndMethod" (by simp [Document.settings]) (by decide)
  have hor : (header d).get? "ormethod" = d.disjunction.map fun m ↦ inQuotes m.1.toList :=
    get?_header "OrMethod" (by simp [Document.settings]) (by decide)
  have himp : (header d).get? "impmethod" = d.implication.map fun m ↦ inQuotes m.1.toList :=
    get?_header "ImpMethod" (by simp [Document.settings]) (by decide)
  have hagg : (header d).get? "aggmethod" = d.aggregation.map fun m ↦ inQuotes m.1.toList :=
    get?_header "AggMethod" (by simp [Document.settings]) (by decide)
  have hdefuzz : (header d).get? "defuzzmethod" =
      d.defuzzification.map fun op ↦ inQuotes op.tag.toList :=
    get?_header "DefuzzMethod" (by simp [Document.settings]) (by decide)
  rw [readContext, method_eq_ok (by decide) hd.conjunction hand,
    method_eq_ok (by decide) hd.disjunction hor, method_eq_ok (by decide) hd.implication himp,
    method_eq_ok (by decide) hd.aggregation hagg, method_defuzzification hdefuzz]
  rfl

/-! ### Variables -/

section Variables

variable [Scalar α] {steps : Steps α} {write : α → List Char}

private theorem readLabels_eq_ok {s : Section} {name : String} {labels : List (String × Shape α)}
    {text : String × Shape α → List Char} {next : Nat} {known : Table (FuzzySet α)}
    (hget : ∀ k label, labels[k]? = some label →
      s.get (α := α) s!"mf{next + k}" = .ok (text label))
    (hread : ∀ label ∈ labels, readMembership (text label) = .ok (label.1, .shape label.2))
    (hn : (known.names ++ labels.map Prod.fst).Nodup) :
    readLabels s name known next labels.length =
      .ok ((labels.map fun (label, shape) ↦ (label, .shape shape)).foldl
        (fun t (label, set) ↦ t.insert label set) known) := by
  induction labels generalizing next known with
  | nil => rfl
  | cons label labels ih =>
    have hfirst : s.get (α := α) s!"mf{next}" = .ok (text label) := hget 0 label rfl
    obtain ⟨hlabel, hrest⟩ := List.forall_mem_cons.mp hread
    have hnew : label.1 ∉ known.names := by
      intro hm
      exact (List.nodup_append.mp hn).2.2 _ hm label.1 (by simp) rfl
    have hcontains : known.names.contains label.1 = false := by simpa using hnew
    have hnames : (known.insert label.1 (.shape label.2)).names = known.names ++ [label.1] := by
      show (Table.put _ _ known.entries).map Prod.fst = _
      rw [Table.put_of_not_mem hnew, List.map_append]
      rfl
    have hnext : ∀ k l, labels[k]? = some l →
        s.get (α := α) s!"mf{next + 1 + k}" = .ok (text l) := by
      intro k l hl
      rw [show next + 1 + k = next + (k + 1) by omega]
      exact hget (k + 1) l hl
    have hdistinct : ((known.insert label.1 (.shape label.2)).names ++
        labels.map Prod.fst).Nodup := by
      rw [hnames, List.append_assoc]
      exact hn
    rw [List.length_cons, readLabels, hfirst]
    simp only [ok_bind, hlabel, hcontains, Bool.false_eq_true, if_false]
    exact ih hnext hrest hdistinct

/-- The section of a variable as it is read. -/
def variableSection (write : α → List Char) (name : List Char) (v : Declaration α) :
    Section :=
  ⟨name, (v.entries write).map Entry.lowered⟩

omit [Scalar α] in
private theorem get_variableSection_label {name : List Char} {v : Declaration α} {k : Nat}
    {label : String × Shape α} (hlabel : v.labels[k]? = some label) :
    (variableSection write name v).get (α := α) s!"mf{1 + k}" =
      .ok (Declaration.labelText write label) := by
  refine Section.get_eq_ok (e := (Declaration.labelEntry write (label, 1 + k)).lowered) ?_
  have hkey (x : String × Shape α) (i j : Nat) :
      ((Declaration.labelEntry write (x, j)).lowered.key == (s!"mf{i}").toList) =
        decide (i = j) := by
    have hlowered : (Declaration.labelEntry write (x, j)).lowered.key = numbered "mf" j :=
      map_toLower_numbered "MF" j
    have hname : (s!"mf{i}").toList = numbered "mf" i := toList_numbered "mf" i
    rw [hlowered, hname, Bool.eq_iff_iff, beq_iff_eq, decide_eq_true_iff, numbered_inj, eq_comm]
  have hfixed : (s!"mf{1 + k}").toList = 'm' :: 'f' :: Decimal.digitChars (1 + k) :=
    toList_numbered "mf" (1 + k)
  have hentries : (variableSection write name v).entries =
      [⟨"name".toList, inQuotes v.name.toList⟩,
        ⟨"range".toList, inBrackets (spaced ([v.low, v.high].map write))⟩,
        ⟨"nummfs".toList, Decimal.digitChars v.labels.length⟩] ++
      (v.labels.zipIdx 1).map (fun label ↦ (Declaration.labelEntry write label).lowered) := by
    simp only [variableSection, Declaration.entries, List.map_cons, List.map_map]
    rfl
  have hnone : [(⟨"name".toList, inQuotes v.name.toList⟩ : Entry),
      ⟨"range".toList, inBrackets (spaced ([v.low, v.high].map write))⟩,
      ⟨"nummfs".toList, Decimal.digitChars v.labels.length⟩].find?
        (fun e ↦ e.key == (s!"mf{1 + k}").toList) = none := by
    rw [hfixed]
    rfl
  rw [hentries, List.find?_append, hnone, Option.none_or]
  exact find?_numbered (p := fun i e ↦ e.key == (s!"mf{i}").toList)
    (f := fun label ↦ (Declaration.labelEntry write label).lowered) hkey hlabel

variable [Scalar.OrderedFinite α]

/-- The section of a sound variable is read as that. -/
theorem readVariable_eq_ok {name : List Char} {v : Declaration α} (hv : v.Sound)
    (hwrite : ∀ x ∈ v.numbers, Scalar.ofText? (write x) = some x) (hsteps : ValidSteps steps)
    (hcount : v.labels.length < 2 ^ 64) :
    readVariable steps (variableSection write name v) = .ok (v.variable steps) := by
  simp only [Declaration.numbers, List.forall_mem_cons, List.mem_flatMap, forall_exists_index,
    and_imp] at hwrite
  obtain ⟨hlow, hhigh, hparameters⟩ := hwrite
  have hrange : ∀ x ∈ [v.low, v.high], Scalar.ofText? (write x) = some x := by
    simpa using ⟨hlow, hhigh⟩
  have hlabel : ∀ label ∈ v.labels,
      readMembership (Declaration.labelText write label) = .ok (label.1, .shape label.2) := by
    intro label hm
    have hread : readMembership (Declaration.labelText write label) =
        .ok (String.ofList label.1.toList, .shape label.2) :=
      readMembership_text (hv.kinds label hm) (hv.shapes label hm) fun x hx ↦
        hparameters x label hm hx
    rwa [String.ofList_toList] at hread
  have hlabels : readLabels (variableSection write name v) v.name .empty 1 v.labels.length =
      .ok (v.variable steps).labels :=
    readLabels_eq_ok (fun k label hm ↦ get_variableSection_label hm) hlabel hv.labels_nodup
  have hvalid := wellFormed_variable hv hsteps
  have hdomain : (v.variable steps).domain.checked = .ok (v.variable steps).domain := by
    rw [Domain.checked, Domain.validate_eq_ok_iff.mpr hvalid.domain]
  have hchecked : (v.variable steps).checked = .ok (v.variable steps) := by
    rw [Variable.checked, Variable.validate_eq_ok_iff.mpr hvalid]
    rfl
  have hgetName : (variableSection write name v).get (α := α) "name" =
      .ok (inQuotes v.name.toList) := rfl
  have hgetRange : (variableSection write name v).get (α := α) "range" =
      .ok (inBrackets (spaced ([v.low, v.high].map write))) := rfl
  have hgetCount : (variableSection write name v).get (α := α) "nummfs" =
      .ok (Decimal.digitChars v.labels.length) := rfl
  rw [readVariable, hgetName, hgetRange, hgetCount]
  simp only [ok_bind, unquote_inQuotes hv.name.unquoted, String.ofList_toList,
    readScalars_inBrackets hrange, readCount_digitChars hcount, hlabels]
  rw [show Domain.numeric ⟨v.name, v.low, v.high, steps⟩ = (v.variable steps).domain from rfl,
    hdomain]
  exact hchecked

end Variables

end FuzzyInference.FisText
