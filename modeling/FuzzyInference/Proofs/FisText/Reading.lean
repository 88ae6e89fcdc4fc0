import FuzzyInference.Proofs.FisText.Rule
import FuzzyInference.Proofs.FisText.Variable
import FuzzyInference.Proofs.Registry.Lookup

/-!
# Reading documents

The text of a document is read as the system that the document describes: its variables in order,
each with its labels in order, its rules one by one, and its methods. Nothing that may stand in a
name, a label, a number or an index gets lost between the text and the system.
-/

namespace FuzzyInference.FisText

open Result Text

variable {α : Type}

/-! ### Finding sections -/

section Sections

variable {d : Document α} {write : α → List Char}

/-- The section of a numbered input. -/
private def inputSection (write : α → List Char) (v : Declaration α × Nat) : Section :=
  variableSection write (numbered "Input" v.2) v.1

private theorem readSections_eq :
    d.readSections write = header d :: ((d.inputs.zipIdx 1).map (inputSection write) ++
      [variableSection write "Output1".toList d.target,
        ⟨"Rules".toList, d.rules.map (·.entry write)⟩]) := by
  simp only [Document.readSections, Document.keyed, List.map_cons, List.map_append, List.map_map,
    List.map_nil, List.cons_append, List.append_assoc, List.nil_append]
  rfl

private theorem eqIgnoringCase_numbered (word : String) (i j : Nat) :
    eqIgnoringCase (numbered word j) (word ++ toString i).toList = decide (i = j) := by
  have hlower (n : Nat) : (numbered word n).map Char.toLower =
      numbered (String.ofList (word.toList.map Char.toLower)) n := by
    rw [map_toLower_numbered, numbered, String.toList_ofList]
  rw [toList_numbered, eqIgnoringCase, hlower, hlower, Bool.eq_iff_iff, beq_iff_eq,
    decide_eq_true_iff, numbered_inj, eq_comm]

private theorem find_system : find (α := α) (d.readSections write) "System" = .ok (header d) := by
  refine find_eq_ok ?_
  rw [readSections_eq, List.find?_cons_of_pos (by rfl)]

private theorem find_input {k : Nat} {v : Declaration α} (hv : d.inputs[k]? = some v) :
    find (α := α) (d.readSections write) s!"Input{1 + k}" =
      .ok (variableSection write (numbered "Input" (1 + k)) v) := by
  refine find_eq_ok ?_
  have hheader : eqIgnoringCase (header d).name (s!"Input{1 + k}").toList = false := by
    rw [show (s!"Input{1 + k}").toList = numbered "Input" (1 + k) from toList_numbered _ _]
    rfl
  have hfound : ((d.inputs.zipIdx 1).map (inputSection write)).find?
      (fun s ↦ eqIgnoringCase s.name (s!"Input{1 + k}").toList) =
        some (inputSection write (v, 1 + k)) :=
    find?_numbered (p := fun i (s : Section) ↦ eqIgnoringCase s.name (s!"Input{i}").toList)
      (fun _ i j ↦ eqIgnoringCase_numbered "Input" i j) hv
  rw [readSections_eq, List.find?_cons_of_neg (by exact ne_true_of_eq_false hheader),
    List.find?_append, hfound]
  rfl

private theorem find?_behind {name : List Char}
    (hheader : eqIgnoringCase "System".toList name = false)
    (hinputs : ∀ n, eqIgnoringCase (numbered "Input" n) name = false) :
    (d.readSections write).find? (fun s ↦ eqIgnoringCase s.name name) =
      [variableSection write "Output1".toList d.target,
        ⟨"Rules".toList, d.rules.map (·.entry write)⟩].find?
          fun s ↦ eqIgnoringCase s.name name := by
  have hnone : ((d.inputs.zipIdx 1).map (inputSection write)).find?
      (fun s ↦ eqIgnoringCase s.name name) = none := by
    rw [List.find?_eq_none, List.forall_mem_map]
    exact fun v _ ↦ ne_true_of_eq_false (hinputs v.2)
  rw [readSections_eq, List.find?_cons_of_neg (by exact ne_true_of_eq_false hheader),
    List.find?_append, hnone, Option.none_or]

private theorem find_output : find (α := α) (d.readSections write) "Output1" =
    .ok (variableSection write "Output1".toList d.target) := by
  refine find_eq_ok ?_
  rw [find?_behind rfl fun _ ↦ rfl]
  rfl

private theorem ruleEntries_readSections :
    ruleEntries (α := α) (d.readSections write) = d.rules.map (·.entry write) := by
  have hfound : find (α := α) (d.readSections write) "Rules" =
      .ok ⟨"Rules".toList, d.rules.map (·.entry write)⟩ := by
    refine find_eq_ok ?_
    rw [find?_behind rfl fun _ ↦ rfl]
    rfl
  rw [ruleEntries, hfound]

end Sections

/-! ### Sizes -/

section Sizes

variable {d : Document α} {write : α → List Char}

private theorem length_flatMap_le_text :
    ((d.blocks write).flatMap Block.written).length ≤ (d.text write).length := by
  rw [Document.text, String.length_ofList]
  exact length_le_endedLines _

private theorem length_inputs_le_text : d.inputs.length ≤ (d.text write).length := by
  have hblocks : d.inputs.length ≤ (d.blocks write).length := by
    simp only [Document.blocks, Document.keyed, List.length_append, List.length_map,
      List.length_cons, List.length_zipIdx]
    omega
  have hlines : (d.blocks write).length ≤ ((d.blocks write).flatMap Block.written).length := by
    rw [List.length_flatMap]
    have h := List.length_le_sum_of_one_le ((d.blocks write).map fun b ↦ b.written.length) ?_
    · rwa [List.length_map] at h
    · rw [List.forall_mem_map]
      exact fun b _ ↦ Nat.succ_le_succ (Nat.zero_le _)
  exact hblocks.trans (hlines.trans length_flatMap_le_text)

private theorem length_labels_le_text {v : Declaration α} (hv : v ∈ d.inputs ++ [d.target]) :
    v.labels.length ≤ (d.text write).length := by
  obtain ⟨name, hkeyed⟩ : ∃ name, (name, v.entries write) ∈ d.keyed write := by
    rcases List.mem_append.mp hv with hv | hv
    · obtain ⟨i, hi⟩ := List.mem_iff_getElem?.mp hv
      have hinput : (v, 1 + i) ∈ d.inputs.zipIdx 1 := List.mk_add_mem_zipIdx_iff_getElem?.mpr hi
      exact ⟨numbered "Input" (1 + i), List.mem_cons_of_mem _
        (List.mem_append_left _ (List.mem_map.mpr ⟨_, hinput, rfl⟩))⟩
    · rw [List.mem_singleton.mp hv]
      exact ⟨"Output1".toList, List.mem_cons_of_mem _ (List.mem_append_right _ (by simp))⟩
  have hb : (⟨name, (v.entries write).map Entry.line⟩ : Block) ∈ d.blocks write :=
    List.mem_append_left _ (List.mem_map.mpr ⟨_, hkeyed, rfl⟩)
  have hlabels : v.labels.length ≤
      (Block.written ⟨name, (v.entries write).map Entry.line⟩).length := by
    simp only [Block.written, Declaration.entries, List.length_cons, List.length_append,
      List.length_map, List.length_zipIdx]
    omega
  have hlines : (Block.written ⟨name, (v.entries write).map Entry.line⟩).length ≤
      ((d.blocks write).flatMap Block.written).length := by
    rw [List.length_flatMap]
    exact List.single_le_sum (by simp) _ (List.mem_map_of_mem hb)
  exact hlabels.trans (hlines.trans length_flatMap_le_text)

end Sizes

/-! ### Variables -/

section Inputs

variable [Scalar α] {steps : Steps α}

private theorem readInputs_eq_addAll {ss : List Section} {vs : List (Declaration α)}
    {r : Registry α} {next : Nat}
    (hread : ∀ k v, vs[k]? = some v → ∃ s, find (α := α) ss s!"Input{next + k}" = .ok s ∧
      readVariable steps s = .ok (v.variable steps)) :
    readInputs ss steps r next vs.length = r.addAll (vs.map (·.variable steps)) := by
  induction vs generalizing r next with
  | nil => rfl
  | cons v vs ih =>
    obtain ⟨s, hfind, hv⟩ := hread 0 v rfl
    have hnext : ∀ k w, vs[k]? = some w → ∃ s,
        find (α := α) ss s!"Input{next + 1 + k}" = .ok s ∧
          readVariable steps s = .ok (w.variable steps) := by
      intro k w hw
      rw [show next + 1 + k = next + (k + 1) by omega]
      exact hread (k + 1) w hw
    rw [Nat.add_zero] at hfind
    rw [List.length_cons, readInputs, hfind, List.map_cons, Registry.addAll]
    simp only [ok_bind, hv, ih hnext]

private theorem validSteps_of_readVariable {s : Section} {v : Variable α}
    (h : readVariable steps s = .ok v) : ValidSteps steps := by
  simp only [readVariable, bind_eq_ok_iff] at h
  obtain ⟨_, -, _, -, range, -, h⟩ := h
  split at h
  · simp only [bind_eq_ok_iff] at h
    obtain ⟨_, -, _, -, _, -, _, hchecked, -⟩ := h
    rw [Domain.checked] at hchecked
    split at hchecked
    · next hvalid =>
      obtain ⟨-, -, -, hsteps⟩ := Domain.validate_eq_ok_iff.mp hvalid
      exact hsteps
    · cases hchecked
  · cases h

private theorem validSteps_of_readSystem {text : String} {s : FuzzySystem α}
    (h : readSystem text steps = .ok s) : ValidSteps steps := by
  simp only [readSystem, bind_eq_ok_iff, error_bind, refuse_eq_ok_iff, require_eq_ok_iff] at h
  obtain ⟨_, -, _, -, _, -, -, _, -, _, -, -, _, -, _, -, _, -, _, -, _, -, _, hread, -⟩ := h
  exact validSteps_of_readVariable hread

end Inputs

/-! ### Systems -/

section Systems

variable [Scalar α] [Scalar.OrderedFinite α] {d : Document α} {write : α → List Char}
  {steps : Steps α}

private theorem exists_registered (hd : d.Sound) (hsteps : ValidSteps steps)
    (hread : ∀ v ∈ d.inputs, ∀ name,
      readVariable steps (variableSection write name v) = .ok (v.variable steps)) :
    ∃ r₁ r₂ : Registry α, readInputs (d.readSections write) steps .empty 1 d.inputs.length =
        .ok (r₁, d.handles) ∧
      r₁.add (d.target.variable steps) = .ok (r₂, d.targetHandle) ∧ d.Registered steps r₂ := by
  have hvalid : ∀ v ∈ d.inputs ++ [d.target], (v.variable steps).validate = .ok () := fun v hv ↦
    Variable.validate_eq_ok_iff.mpr (wellFormed_variable (hd.declarations v hv) hsteps)
  rw [List.forall_mem_append, List.forall_mem_singleton] at hvalid
  have hnames : ((d.inputs.map (·.variable steps)).map (·.name)) = d.inputs.map (·.name) := by
    rw [List.map_map]
    rfl
  have hnodup := hd.names_nodup
  rw [List.map_append, List.nodup_append] at hnodup
  obtain ⟨hinputs, -, htarget⟩ := hnodup
  have hfound : readInputs (d.readSections write) steps .empty 1 d.inputs.length =
      (Registry.empty : Registry α).addAll (d.inputs.map (·.variable steps)) :=
    readInputs_eq_addAll fun k v hv ↦
      ⟨_, find_input hv, hread v (List.mem_of_getElem? hv) _⟩
  obtain ⟨r₁, hs, hall⟩ := Registry.exists_addAll (r := (.empty : Registry α))
    (List.forall_mem_map.mpr hvalid.1) (by rw [hnames]; exact hinputs)
  obtain ⟨hmembers, hhandles⟩ := Registry.of_addAll_eq_ok hall
  have hsize : r₁.size = d.inputs.length := by
    rw [Registry.size_eq, hmembers]
    exact List.length_map _
  have hnew : (d.target.variable steps).name ∉ r₁.names := by
    rw [Registry.names_of_members hmembers, hnames]
    exact fun hm ↦ htarget _ hm d.target.name (by simp) rfl
  obtain ⟨r₂, hadd, hextended⟩ := Registry.exists_add hvalid.2 hnew
  rw [hsize] at hadd
  refine ⟨r₁, r₂, ?_, hadd, ?_⟩
  · rw [hfound, hall, hhandles, List.length_map, Document.handles, List.range_eq_range']
    rfl
  · rw [Document.Registered, hextended, hmembers, List.map_append]
    rfl

omit [Scalar.OrderedFinite α] in
private theorem exists_rules (hd : d.Sound) {r : Registry α}
    (hwrite : ∀ line ∈ d.rules, Scalar.ofText? (write line.weight) = some line.weight)
    (hcount : ∀ v ∈ d.inputs ++ [d.target], v.labels.length < 2 ^ 63)
    (hr : d.Registered steps r) :
    ∃ rules, (d.rules.map (·.entry write)).mapM (readRule r d.handles d.targetHandle) =
        .ok rules ∧
      List.Forall₂ (RuleLine.Describes d) d.rules rules ∧
        ∀ rule ∈ rules, FuzzySystem.Suits r d.handles d.targetHandle rule := by
  obtain ⟨rules, hrules⟩ := exists_forall₂ fun line hline ↦
    exists_readRule hr hd (hd.rules line hline) (hwrite line hline) hcount
  refine ⟨rules, ?_, hrules.imp fun _ _ h ↦ h.2.1, fun rule hrule ↦ ?_⟩
  · rw [mapM_eq_ok_iff, List.forall₂_map_left_iff]
    exact hrules.imp fun _ _ h ↦ h.1
  · obtain ⟨_, -, -, -, hsuits⟩ := exists_left_of_mem hrules hrule
    exact hsuits

omit [Scalar.OrderedFinite α] in
private theorem build_eq_ok {r : Registry α} {rules : List (Rule α)} (hr : d.Registered steps r)
    (hsuits : ∀ rule ∈ rules, FuzzySystem.Suits r d.handles d.targetHandle rule) :
    FuzzySystem.build r d.handles ⟨rules⟩ d.targetHandle =
      .ok ⟨r, d.handles, ⟨rules⟩, d.targetHandle, {}⟩ := by
  have hregistered : ∀ h ∈ d.handles ++ [d.targetHandle], ∃ v, r.get h = .ok v := by
    rw [List.forall_mem_append, List.forall_mem_singleton]
    refine ⟨fun h hh ↦ ?_, _, hr.get_target⟩
    exact ⟨_, hr.get_input (List.getElem?_eq_getElem (mem_handles_iff.mp hh))⟩
  have hfresh : d.targetHandle ∉ d.handles :=
    fun hm ↦ Nat.lt_irrefl _ (mem_handles_iff.mp hm)
  exact FuzzySystem.build_eq_ok_iff.mpr ⟨hregistered, hfresh, hsuits, rfl⟩

private theorem exists_readSystem (hd : d.Sound)
    (hwrite : ∀ x ∈ d.numbers, Scalar.ofText? (write x) = some x)
    (hsize : (d.text write).length < 2 ^ 63) (hsteps : ValidSteps steps) :
    ∃ s, readSystem (d.text write) steps = .ok s ∧ d.Describes steps s := by
  have hcount : ∀ v ∈ d.inputs ++ [d.target], v.labels.length < 2 ^ 63 :=
    fun v hv ↦ (length_labels_le_text hv).trans_lt hsize
  have hinputs : readCount (α := α) (Decimal.digitChars d.inputs.length) = .ok d.inputs.length := by
    have hlt : d.inputs.length < 2 ^ 63 := length_inputs_le_text.trans_lt hsize
    exact readCount_digitChars (hlt.trans (by decide))
  have hread : ∀ v ∈ d.inputs ++ [d.target], ∀ name,
      readVariable steps (variableSection write name v) = .ok (v.variable steps) := by
    intro v hv name
    refine readVariable_eq_ok (hd.declarations v hv) (fun x hx ↦ hwrite x ?_) hsteps ?_
    · exact List.mem_append_left _ (List.mem_flatMap_of_mem hv hx)
    · exact (hcount v hv).trans (by decide)
  -- The variables, and the rules about them.
  obtain ⟨r₁, r₂, hreadInputs, hadd, hr⟩ :=
    exists_registered hd hsteps fun v hv ↦ hread v (List.mem_append_left _ hv)
  obtain ⟨rules, hreadRules, hdescribes, hsuits⟩ := exists_rules hd
    (fun line hline ↦ hwrite _ (List.mem_append_right _ (List.mem_map_of_mem hline))) hcount hr
  -- The settings.
  have hkind : (header d).get (α := α) "type" = .ok (inQuotes "mamdani".toList) :=
    get_header "Type" (by simp [Document.settings]) (by decide)
  have hmamdani : unquote (inQuotes "mamdani".toList) = "mamdani".toList := rfl
  have hsame : eqIgnoringCase "mamdani".toList "mamdani".toList = true := rfl
  have hgetOutputs : (header d).get (α := α) "numoutputs" = .ok (Decimal.digitChars 1) :=
    get_header "NumOutputs" (by simp [Document.settings]) (by decide)
  have houtputs : readCount (α := α) (Decimal.digitChars 1) = .ok 1 :=
    readCount_digitChars (by decide)
  have hgetInputs : (header d).get (α := α) "numinputs" =
      .ok (Decimal.digitChars d.inputs.length) :=
    get_header "NumInputs" (by simp [Document.settings]) (by decide)
  refine ⟨FuzzySystem.withContext ⟨r₂, _, ⟨rules⟩, _, {}⟩ d.context, ?_,
    ⟨hr, rfl, rfl, hdescribes, rfl⟩⟩
  simp only [readSystem, hd.sections_text hwrite, ok_bind, find_system, hkind, hmamdani, hsame,
    if_true, hgetOutputs, houtputs, hgetInputs, hinputs, readContext_header hd, hreadInputs,
    find_output, hread d.target (by simp), hadd, ruleEntries_readSections, hreadRules,
    build_eq_ok hr hsuits]
  rfl

/-! ### Main results -/

/-- The text of a sound document is read as the system that the document describes, if and only if
the steps are valid. The numbers may be written in any way in which they are read back. No text has
more than `2 ^ 63 - 1` characters, so that is asked of the document's as well: counts and indices
are read as machine words. -/
theorem readSystem_text (hd : d.Sound)
    (hwrite : ∀ x ∈ d.numbers, Scalar.ofText? (write x) = some x)
    (hsize : (d.text write).length < 2 ^ 63) :
    (∃ s, readSystem (d.text write) steps = .ok s ∧ d.Describes steps s) ↔ ValidSteps steps :=
  ⟨fun ⟨_, hs, _⟩ ↦ validSteps_of_readSystem hs, exists_readSystem hd hwrite hsize⟩

end Systems

/-- The warmth of a room, with marks of the format in the names. -/
def room : Declaration Float :=
  ⟨"room = [1]: x", 0, 2, [("cold, or so", .zShaped 0 1), ("warm", .gaussian 1 2)]⟩

/-- The power of a heater. -/
def power : Declaration Float :=
  ⟨"power", 0, 1, [("off", .triangular 0 0 1), ("on", .bell 1 2 1)]⟩

/-- A heater that goes by the warmth of the room. -/
def heating : Document Float where
  conjunction := some ("prod", .product)
  disjunction := none
  implication := none
  aggregation := some ("sum", .boundedSum)
  defuzzification := some .bisector
  inputs := [room]
  target := power
  rules := [⟨[-1], 1, 1, .conjunction⟩, ⟨[1], 2, 0.5, .disjunction⟩]

/-- Texts of some numbers, in several forms. -/
def someTexts (x : Float) : List Char :=
  if x == 0 then "0".toList
  else if x == 1 then "1.00".toList
  else if x == 2 then "+2".toList
  else "5E-1".toList

/-- The heater is sound. -/
theorem sound_heating : heating.Sound := by
  have hroom : room.Sound :=
    { name := by decide
      labels := by decide
      labels_nodup := by decide
      low := rfl
      high := rfl
      ascending := by decide +kernel
      kinds := List.forall_mem_cons.mpr ⟨nofun, List.forall_mem_singleton.mpr nofun⟩
      shapes := List.forall_mem_cons.mpr ⟨Shape.validate_eq_ok_iff.mp rfl,
        List.forall_mem_singleton.mpr (Shape.validate_eq_ok_iff.mp rfl)⟩ }
  have hpower : power.Sound :=
    { name := by decide
      labels := by decide
      labels_nodup := by decide
      low := rfl
      high := rfl
      ascending := by decide +kernel
      kinds := List.forall_mem_cons.mpr ⟨nofun, List.forall_mem_singleton.mpr nofun⟩
      shapes := List.forall_mem_cons.mpr ⟨Shape.validate_eq_ok_iff.mp rfl,
        List.forall_mem_singleton.mpr (Shape.validate_eq_ok_iff.mp rfl)⟩ }
  have hrules : ∀ line ∈ heating.rules, line.Sound heating := by
    refine List.forall_mem_cons.mpr ⟨?_, List.forall_mem_singleton.mpr ?_⟩
    · exact ⟨.cons (by decide) .nil, by decide, by decide, by decide, by decide +kernel,
        by decide +kernel⟩
    · exact ⟨.cons (by decide) .nil, by decide, by decide, by decide, by decide +kernel,
        by decide +kernel⟩
  exact ⟨by decide, by decide, by decide, by decide,
    List.forall_mem_cons.mpr ⟨hroom, List.forall_mem_singleton.mpr hpower⟩, by decide, hrules⟩

/-- The text of the heater is read. -/
theorem heating_text_read :
    heating.Sound ∧ (∀ x ∈ heating.numbers, Scalar.ofText? (someTexts x) = some x) ∧
      (heating.text someTexts).length < 2 ^ 63 ∧
        ∃ s, readSystem (heating.text someTexts) (.count 11) = .ok s ∧
          heating.Describes (.count 11) s := by
  have hread : ∀ x ∈ heating.numbers, Scalar.ofText? (someTexts x) = some x := by
    have hnumbers : heating.numbers = [0, 2, 0, 1, 1, 2, 0, 1, 0, 0, 1, 1, 2, 1, 1, 0.5] := rfl
    rw [hnumbers]
    simp only [List.forall_mem_cons]
    refine ⟨rfl, rfl, rfl, rfl, rfl, rfl, rfl, rfl, rfl, rfl, rfl, rfl, rfl, rfl, rfl, rfl, ?_⟩
    simp
  have hsize : (heating.text someTexts).length < 2 ^ 63 := by
    rw [Document.text, String.length_ofList]
    decide +kernel
  have hsteps : ValidSteps (.count 11 : Steps Float) := by
    intro h he
    cases he
  exact ⟨sound_heating, hread, hsize, (readSystem_text sound_heating hread hsize).mpr hsteps⟩

end FuzzyInference.FisText
