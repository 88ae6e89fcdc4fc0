import FuzzyInference.Proofs.FisText.Description
import FuzzyInference.Proofs.FisText.RulePattern
import FuzzyInference.Proofs.FuzzySystem.Lookup
import FuzzyInference.Proofs.Rule.Correspondence
import FuzzyInference.Proofs.Text.LetterCase

/-!
# Rule entries

Which entries stand for rules, and for which: an entry must come apart into numbers and a
connective, the numbers must fit the inputs and the target, and the rule then is what they say of
these. Labels are numbered from one, and zero is never taken for the number of a label.
-/

namespace FuzzyInference.FisText

open FuzzySystem Result Text

variable {α : Type}

/-! ### What entries say -/

/-- An index that fits in 64 bits, its sign included. -/
def IsIndex (k : Int) : Prop := -2 ^ 63 ≤ k ∧ k < 2 ^ 63

/-- An index other than zero says that a variable has the quality of the label it numbers, or that
it has not if the index is negative. -/
def Decodes [Scalar α] (r : Registry α) (h : Handle) (k : Int) (p : Proposition) : Prop :=
  ∃ v position label, r.get h = .ok v ∧ position + 1 = k.natAbs ∧
    v.labels.names[position]? = some label ∧
      (0 < k ∧ p = .is h label ∨ k < 0 ∧ p = .isNot h label)

namespace RuleLine

variable [Scalar α]

/-- An entry comes apart into the numbers and the connective of a rule. -/
structure ReadFrom (line : RuleLine α) (e : Entry) : Prop where
  /-- The key holds the indices, the output index and the weight. -/
  key : ∃ parts, matchedParts? e.key = some parts ∧
    List.Forall₂ (fun word k ↦ readIndex (α := α) word = .ok k) (words parts.indices) line.indices ∧
      readIndex (α := α) parts.output = .ok line.output ∧
        readScalar parts.weight = .ok line.weight
  /-- The value is the number of the connective. -/
  value : trim e.value = [line.connective.number]

/-- The numbers of a rule fit the inputs and the target. -/
structure Fits (line : RuleLine α) (r : Registry α) (inputs : List Handle) (target : Handle) :
    Prop where
  /-- There is an index for each input. -/
  length : line.indices.length = inputs.length
  /-- Some input is read. -/
  exists_ne_zero : ∃ k ∈ line.indices, k ≠ 0
  /-- The inputs that are read have the labels that are numbered. -/
  indices : ∀ h k, (h, k) ∈ inputs.zip line.indices → k ≠ 0 →
    ∀ v, r.get h = .ok v → k.natAbs ≤ v.labels.size
  /-- So has the target. -/
  output : 0 < line.output ∧ ∀ v, r.get target = .ok v → line.output ≤ v.labels.size
  /-- The weight is above zero and at most one. -/
  weight : 0 < line.weight ∧ line.weight ≤ 1

/-- A rule is what the numbers and the connective say of the inputs and the target. -/
structure StandsFor (line : RuleLine α) (r : Registry α) (inputs : List Handle) (target : Handle)
    (rule : Rule α) : Prop where
  /-- The antecedent combines what the indices other than zero say, in the order of the inputs. -/
  antecedent : ∃ ps, rule.antecedent = line.connective.join ps ∧
    List.Forall₂ (fun (h, k) p ↦ Decodes r h k p)
      ((inputs.zip line.indices).filter fun (_, k) ↦ k ≠ 0) ps
  /-- The rule concludes on the target. -/
  target_eq : rule.target = target
  /-- It concludes the label that the output index numbers. -/
  label : ∃ v, ∃ position : Nat, r.get target = .ok v ∧ position + 1 = line.output ∧
    v.labels.names[position]? = some rule.label
  /-- The weight is the one given. -/
  weight : rule.weight = line.weight

end RuleLine

/-! ### Entries of texts -/

section Entries

variable {cs line : List Char}

/-- No line holds a line end. -/
theorem newline_not_mem_of_mem_splitLines (h : line ∈ splitLines cs) : '\n' ∉ line := by
  induction cs generalizing line with
  | nil =>
    rw [List.mem_singleton.mp h]
    exact List.not_mem_nil
  | cons c cs ih =>
    rw [splitLines] at h
    split at h
    · rcases List.mem_cons.mp h with rfl | h
      · exact List.not_mem_nil
      · exact ih h
    · next hc =>
      have hfirst {first : List Char} (hm : '\n' ∉ first) : '\n' ∉ c :: first := by
        rw [List.mem_cons, not_or]
        exact ⟨Ne.symm hc, hm⟩
      split at h
      · rw [List.mem_singleton.mp h]
        exact hfirst List.not_mem_nil
      · next first lines heq =>
        rcases List.mem_cons.mp h with rfl | h
        · exact hfirst (ih (heq ▸ List.mem_cons_self))
        · exact ih (heq ▸ List.mem_cons_of_mem _ h)

private theorem mem_of_mem_trim {c : Char} (h : c ∈ trim cs) : c ∈ cs := by
  obtain ⟨l, r, -, -, hsplit⟩ := exists_padding cs
  rw [hsplit]
  exact List.mem_append_right _ (List.mem_append_left _ h)

private theorem newline_not_mem_key_of_classify {e : Entry} (h : classify (content line) = .entry e)
    (hline : '\n' ∉ line) : '\n' ∉ e.key := by
  unfold classify at h
  split at h
  · cases h
  · split at h
    · cases h
    · split at h
      · next key mark value hsplit =>
        cases h
        intro hm
        have hkey : '\n' ∈ key := mem_of_mem_trim (newline_mem_of_mem_toLower hm)
        obtain ⟨hcontent, -, -⟩ := splitFirst_eq_some hsplit
        have hm : '\n' ∈ content line := hcontent ▸ List.mem_append_left _ hkey
        exact hline (List.takeWhile_subset _ (mem_of_mem_trim hm))
      · cases h

private theorem forall_entries_of_sectionsFrom {P : Entry → Prop} {lines : List (List Char)}
    (hlines : ∀ line ∈ lines, ∀ e, classify (content line) = .entry e → P e)
    {opened ss : List Section} (hopened : ∀ s ∈ opened, ∀ e ∈ s.entries, P e)
    (h : sectionsFrom (α := α) opened lines = .ok ss) : ∀ s ∈ ss, ∀ e ∈ s.entries, P e := by
  induction lines generalizing opened with
  | nil =>
    cases h
    intro s hs e he
    obtain ⟨t, ht, rfl⟩ := List.mem_map.mp (List.mem_reverse.mp hs)
    exact hopened t ht e (List.mem_reverse.mp he)
  | cons line lines ih =>
    obtain ⟨hline, hlines⟩ := List.forall_mem_cons.mp hlines
    unfold sectionsFrom at h
    dsimp only at h
    split at h
    · exact ih hlines hopened h
    · exact ih hlines (List.forall_mem_cons.mpr
        ⟨fun _ hnil ↦ absurd hnil List.not_mem_nil, hopened⟩) h
    · cases h
    · next e s before heq =>
      obtain ⟨hs, hbefore⟩ := List.forall_mem_cons.mp hopened
      have hentries := List.forall_mem_cons.mpr ⟨hline e heq, hs⟩
      exact ih hlines (List.forall_mem_cons.mpr ⟨hentries, hbefore⟩) h
    · cases h

/-- The entries that a text has do not go beyond a line. -/
theorem newline_not_mem_key {text : String} {ss : List Section}
    (h : sections (α := α) text = .ok ss) {s : Section} (hs : s ∈ ss) {e : Entry}
    (he : e ∈ s.entries) : '\n' ∉ e.key :=
  forall_entries_of_sectionsFrom
    (fun _ hline _ he ↦
      newline_not_mem_key_of_classify he (newline_not_mem_of_mem_splitLines hline))
    (fun _ hnil ↦ absurd hnil List.not_mem_nil) h s hs e he

end Entries

/-! ### Decoding indices -/

section Decoding

variable [Scalar α] {r : Registry α} {h : Handle} {v : Variable α} {k : Int} {p : Proposition}

omit [Scalar α] in
/-- What is read as an index fits in 64 bits. -/
theorem isIndex_of_readIndex {cs : List Char} (hk : readIndex (α := α) cs = .ok k) : IsIndex k := by
  unfold readIndex readNumber at hk
  split at hk
  · next n hn =>
    cases hk
    rcases hsign : Numeral.splitSign (unquote cs) with ⟨negative, digits⟩
    rw [Numeral.int64?, hsign, Option.bind_eq_some_iff] at hn
    obtain ⟨m, -, hm⟩ := hn
    simp only [Nat.pow_eq] at hm
    unfold IsIndex
    cases negative with
    | false =>
      rw [if_neg Bool.false_ne_true, Option.ite_none_right_eq_some, Option.some.injEq] at hm
      omega
    | true =>
      rw [if_pos rfl, Option.ite_none_right_eq_some, Option.some.injEq] at hm
      omega
  · cases hk

/-- One can be taken from the size of an index other than zero, in 64 bits without a sign. -/
theorem IsIndex.position_eq (hk : IsIndex k) (hne : k ≠ 0) :
    1 ≤ UInt64.ofNat k.natAbs ∧ (UInt64.ofNat k.natAbs - 1).toNat + 1 = k.natAbs := by
  obtain ⟨hlow, hhigh⟩ := hk
  have hlt : k.natAbs < 2 ^ 64 := by omega
  have hsize : (UInt64.ofNat k.natAbs).toNat = k.natAbs := UInt64.toNat_ofNat_of_lt' hlt
  have hone : 1 ≤ UInt64.ofNat k.natAbs := by
    rw [UInt64.le_iff_toNat_le, hsize]
    exact Int.natAbs_pos.mpr hne
  refine ⟨hone, ?_⟩
  rw [UInt64.toNat_sub_of_le _ _ hone, hsize]
  exact Nat.sub_add_cancel (Int.natAbs_pos.mpr hne)

omit [Scalar α] in
private theorem labelAt_eq_ok_iff {position : Nat} {label : String} :
    v.labelAt position = .ok label ↔ v.labels.names[position]? = some label := by
  rw [Variable.labelAt]
  split <;> simp_all

/-- An index other than zero stands for what it says of a variable. -/
theorem valuationAt_eq_ok_iff (hk : k ≠ 0) : valuationAt r h k = .ok p ↔ Decodes r h k p := by
  simp only [valuationAt, bind_eq_ok_iff, mapError_eq_ok_iff, labelAt_eq_ok_iff, pure_eq_ok,
    Except.ok.injEq, Decodes]
  constructor
  · rintro ⟨v, hv, label, hlabel, rfl⟩
    refine ⟨v, k.natAbs - 1, label, hv, by omega, hlabel, ?_⟩
    rcases lt_or_gt_of_ne hk with hneg | hpos
    · exact .inr ⟨hneg, if_neg hneg.not_gt⟩
    · exact .inl ⟨hpos, if_pos hpos⟩
  · rintro ⟨v, position, label, hv, hposition, hlabel, hp⟩
    obtain rfl : position = k.natAbs - 1 := by omega
    refine ⟨v, hv, label, hlabel, ?_⟩
    rcases hp with ⟨hpos, rfl⟩ | ⟨hneg, rfl⟩
    · exact if_pos hpos
    · exact if_neg hneg.not_gt

/-- An index other than zero says something of a variable exactly when it numbers a label. -/
theorem exists_decodes_iff (hv : r.get h = .ok v) (hk : k ≠ 0) :
    (∃ p, Decodes r h k p) ↔ k.natAbs ≤ v.labels.size := by
  have hsize : v.labels.names.length = v.labels.size := by
    rw [Table.names, List.length_map, Table.size]
  constructor
  · rintro ⟨p, w, position, label, hw, hposition, hlabel, -⟩
    rw [hv] at hw
    cases hw
    obtain ⟨hlt, -⟩ := List.getElem?_eq_some_iff.mp hlabel
    omega
  · intro hle
    have hlt : k.natAbs - 1 < v.labels.names.length := by omega
    have hlabel := List.getElem?_eq_getElem hlt
    rcases lt_or_gt_of_ne hk with hneg | hpos
    · exact ⟨_, v, _, _, hv, by omega, hlabel, .inr ⟨hneg, rfl⟩⟩
    · exact ⟨_, v, _, _, hv, by omega, hlabel, .inl ⟨hpos, rfl⟩⟩

end Decoding

/-! ### Reading entries -/

section Reading

variable [Scalar α] {r : Registry α} {inputs : List Handle} {target : Handle} {e : Entry}

omit [Scalar α] in
private theorem connect_eq_ok_iff {cs : List Char} {ps : List Proposition} {p : Proposition} :
    connect (α := α) cs ps = .ok p ↔ ∃ c : Connective, trim cs = [c.number] ∧ p = c.join ps := by
  unfold connect
  split
  · next heq =>
    constructor
    · rintro ⟨⟩
      exact ⟨.conjunction, heq, rfl⟩
    · rintro ⟨c, hc, rfl⟩
      cases c with
      | conjunction => rfl
      | disjunction => simp [heq, Connective.number] at hc
  · next heq =>
    constructor
    · rintro ⟨⟩
      exact ⟨.disjunction, heq, rfl⟩
    · rintro ⟨c, hc, rfl⟩
      cases c with
      | conjunction => simp [heq, Connective.number] at hc
      | disjunction => rfl
  · next hone htwo =>
    constructor
    · rintro ⟨⟩
    · rintro ⟨c, hc, -⟩
      cases c with
      | conjunction => exact absurd hc hone
      | disjunction => exact absurd hc htwo

private theorem readRule_eq_ok_iff {rule : Rule α} :
    readRule r inputs target e = .ok rule ↔ ∃ parts, ruleParts? e.key = some parts ∧
      ∃ ks, List.Forall₂ (fun word k ↦ readIndex (α := α) word = .ok k) (words parts.indices) ks ∧
      ∃ k, readIndex (α := α) parts.output = .ok k ∧ ∃ w, readScalar parts.weight = .ok w ∧
      ks.length = inputs.length ∧
      ∃ ps, List.Forall₂ (fun pair p ↦ valuationAt r pair.1 pair.2 = .ok p)
        ((inputs.zip ks).filter fun (_, k) ↦ k ≠ 0) ps ∧ ps ≠ [] ∧
      ∃ c : Connective, trim e.value = [c.number] ∧ 0 < k ∧
      ∃ p, valuationAt r target k = .ok p ∧ Rule.build (c.join ps) p w = .ok rule := by
  rw [readRule]
  cases ruleParts? e.key with
  | none => simp
  | some parts =>
    simp only [bind_eq_ok_iff, error_bind, refuse_eq_ok_iff, mapM_eq_ok_iff, connect_eq_ok_iff,
      Option.some.injEq, exists_eq_left', not_le, not_not, List.isEmpty_iff]
    constructor
    · rintro ⟨ks, hks, k, hk, w, hw, hlength, ps, hps, hne, _, ⟨c, hc, rfl⟩, hpos, p, hp, hrule⟩
      exact ⟨ks, hks, k, hk, w, hw, hlength, ps, hps, hne, c, hc, hpos, p, hp, hrule⟩
    · rintro ⟨ks, hks, k, hk, w, hw, hlength, ps, hps, hne, c, hc, hpos, p, hp, hrule⟩
      exact ⟨ks, hks, k, hk, w, hw, hlength, ps, hps, hne, _, ⟨c, hc, rfl⟩, hpos, p, hp, hrule⟩

private theorem forall₂_decodes_iff {pairs : List (Handle × Int)} {ps : List Proposition} :
    List.Forall₂ (fun pair p ↦ valuationAt r pair.1 pair.2 = .ok p)
        (pairs.filter fun (_, k) ↦ k ≠ 0) ps ↔
      List.Forall₂ (fun (h, k) p ↦ Decodes r h k p) (pairs.filter fun (_, k) ↦ k ≠ 0) ps := by
  have hne : ∀ pair ∈ pairs.filter fun (_, k) ↦ k ≠ 0, pair.2 ≠ 0 :=
    fun pair hm ↦ of_decide_eq_true (List.mem_filter.mp hm).2
  constructor
  · intro h
    exact ((List.forall₂_and_left _ _).mpr ⟨hne, h⟩).imp
      fun _ _ ⟨hk, hp⟩ ↦ (valuationAt_eq_ok_iff hk).mp hp
  · intro h
    exact ((List.forall₂_and_left _ _).mpr ⟨hne, h⟩).imp
      fun _ _ ⟨hk, hp⟩ ↦ (valuationAt_eq_ok_iff hk).mpr hp

private theorem exists_ne_zero_iff {ks : List Int} (hlength : ks.length = inputs.length) :
    (inputs.zip ks).filter (fun (_, k) ↦ k ≠ 0) ≠ [] ↔ ∃ k ∈ ks, k ≠ 0 := by
  have hsnd : (inputs.zip ks).map Prod.snd = ks := List.map_snd_zip hlength.le
  constructor
  · intro hne
    obtain ⟨⟨h, k⟩, hm⟩ := List.exists_mem_of_ne_nil _ hne
    obtain ⟨hzip, hk⟩ := List.mem_filter.mp hm
    exact ⟨k, (List.of_mem_zip hzip).2, of_decide_eq_true hk⟩
  · rintro ⟨k, hm, hk⟩
    rw [← hsnd] at hm
    obtain ⟨pair, hzip, rfl⟩ := List.mem_map.mp hm
    exact List.ne_nil_of_mem (List.mem_filter.mpr ⟨hzip, decide_eq_true hk⟩)

private theorem readRule_eq_ok_iff_standsFor (hline : '\n' ∉ e.key) {rule : Rule α} :
    readRule r inputs target e = .ok rule ↔
      ∃ line : RuleLine α, line.ReadFrom e ∧ line.Fits r inputs target ∧
        line.StandsFor r inputs target rule := by
  rw [readRule_eq_ok_iff, ruleParts?_eq_matchedParts? hline]
  constructor
  · rintro ⟨parts, hparts, ks, hks, k, hk, w, hw, hlength, ps, hps, hne, c, hc, hpos, p, hp, hrule⟩
    obtain ⟨hweight, hantecedent, hconsequent, hrulew⟩ := Rule.build_eq_ok_iff.mp hrule
    obtain ⟨v, position, label, hv, hposition, hlabel, hp⟩ :=
      (valuationAt_eq_ok_iff hpos.ne').mp hp
    obtain ⟨-, rfl⟩ := hp.resolve_right fun hneg ↦ hneg.1.not_gt hpos
    rw [Rule.consequent, Proposition.is.injEq] at hconsequent
    refine ⟨⟨ks, k, w, c⟩, ⟨⟨parts, hparts, hks, hk, hw⟩, hc⟩,
      ⟨hlength, ?_, ?_, ⟨hpos, ?_⟩, hweight⟩,
      ⟨⟨ps, hantecedent, forall₂_decodes_iff.mp hps⟩, hconsequent.1,
        ⟨v, position, hv, ?_, ?_⟩, hrulew⟩⟩
    · refine (exists_ne_zero_iff hlength).mp fun hnil ↦ hne ?_
      rw [hnil] at hps
      exact List.forall₂_nil_left_iff.mp hps
    · intro h k hm hk v hv
      obtain ⟨p, -, hp⟩ :=
        exists_right_of_mem hps (List.mem_filter.mpr ⟨hm, decide_eq_true hk⟩)
      exact (exists_decodes_iff hv hk).mp ⟨p, (valuationAt_eq_ok_iff hk).mp hp⟩
    · intro w hw
      have hle := (exists_decodes_iff hw hpos.ne').mp
        ⟨_, v, position, label, hv, hposition, hlabel, .inl ⟨hpos, rfl⟩⟩
      dsimp only
      omega
    · dsimp only
      omega
    · rw [hconsequent.2]
      exact hlabel
  · rintro ⟨line, ⟨⟨parts, hparts, hks, hk, hw⟩, hc⟩, hfits, ⟨ps, hantecedent, hps⟩, htarget,
      hlabel, hweight⟩
    obtain ⟨v, position, hv, hposition, hlabel⟩ := hlabel
    have hpos := hfits.output.1
    refine ⟨parts, hparts, _, hks, _, hk, _, hw, hfits.length, ps, forall₂_decodes_iff.mpr hps, ?_,
      _, hc, hpos, .is target rule.label, ?_, ?_⟩
    · rintro rfl
      exact (exists_ne_zero_iff hfits.length).mpr hfits.exists_ne_zero
        (List.forall₂_nil_right_iff.mp hps)
    · exact (valuationAt_eq_ok_iff hpos.ne').mpr
        ⟨v, position, rule.label, hv, by omega, hlabel, .inl ⟨hpos, rfl⟩⟩
    · exact Rule.build_eq_ok_iff.mpr
        ⟨hfits.weight, hantecedent, by rw [Rule.consequent, htarget], hweight⟩

private theorem exists_standsFor (hinputs : ∀ h ∈ inputs, ∃ v, r.get h = .ok v)
    (htarget : ∃ v, r.get target = .ok v) {line : RuleLine α} (hfits : line.Fits r inputs target) :
    ∃ rule, line.StandsFor r inputs target rule := by
  obtain ⟨ps, hps⟩ : ∃ ps, List.Forall₂ (fun (h, k) p ↦ Decodes r h k p)
      ((inputs.zip line.indices).filter fun (_, k) ↦ k ≠ 0) ps := by
    refine exists_forall₂ ?_
    rintro ⟨h, k⟩ hm
    obtain ⟨hzip, hk⟩ := List.mem_filter.mp hm
    have hk : k ≠ 0 := of_decide_eq_true hk
    obtain ⟨v, hv⟩ := hinputs h (List.of_mem_zip hzip).1
    exact (exists_decodes_iff hv hk).mpr (hfits.indices h k hzip hk v hv)
  obtain ⟨hpos, hle⟩ := hfits.output
  obtain ⟨v, hv⟩ := htarget
  have hle := hle v hv
  obtain ⟨_, w, position, label, hw, hposition, hlabel, -⟩ :=
    (exists_decodes_iff hv hpos.ne').mpr (by omega)
  exact ⟨⟨line.connective.join ps, target, label, line.weight⟩, ⟨ps, rfl, hps⟩, rfl,
    ⟨w, position, hw, by omega, hlabel⟩, rfl⟩

/-! ### Indices that are decoded -/

/-- The rule that an entry stands for, by what indices are taken to stand for. -/
def readRuleBy (valuate : Handle → Int → Checked α Proposition) (inputs : List Handle)
    (target : Handle) (e : Entry) : Checked α (Rule α) := do
  let line := String.ofList e.key
  match ruleParts? e.key with
  | none => .error (.fisText (.malformedRule line))
  | some parts =>
    let indices ← (words parts.indices).mapM readIndex
    let output ← readIndex parts.output
    let weight ← readScalar parts.weight
    if indices.length ≠ inputs.length then
      .error (.fisText (.indexCount line indices.length inputs.length))
    let pairs := (inputs.zip indices).filter fun (_, index) => index ≠ 0
    let ps ← pairs.mapM fun (h, index) => valuate h index
    if ps.isEmpty then .error (.fisText (.noInputs line))
    let antecedent ← connect e.value ps
    if output ≤ 0 then .error (.fisText (.outputIndex line))
    Rule.build antecedent (← valuate target output) weight

private theorem readRuleBy_valuationAt :
    readRuleBy (valuationAt r) inputs target e = readRule r inputs target e := rfl

private theorem readRuleBy_congr {f g : Handle → Int → Checked α Proposition}
    (h : ∀ h k, k ≠ 0 → IsIndex k → f h k = g h k) :
    readRuleBy f inputs target e = readRuleBy g inputs target e := by
  unfold readRuleBy
  cases ruleParts? e.key with
  | none => rfl
  | some parts =>
    refine bind_congr_of_ok fun ks hks ↦ bind_congr_of_ok fun k hk ↦ bind_congr_of_ok fun w hw ↦ ?_
    have hpairs : ((inputs.zip ks).filter fun (_, k) ↦ k ≠ 0).mapM (fun (h, k) ↦ f h k) =
        ((inputs.zip ks).filter fun (_, k) ↦ k ≠ 0).mapM (fun (h, k) ↦ g h k) := by
      refine mapM_eq_of_forall₂ (List.forall₂_same.mpr ?_)
      rintro ⟨input, k⟩ hm
      obtain ⟨hzip, hne⟩ := List.mem_filter.mp hm
      obtain ⟨word, -, hword⟩ :=
        exists_left_of_mem (mapM_eq_ok_iff.mp hks) (List.of_mem_zip hzip).2
      exact h input k (of_decide_eq_true hne) (isIndex_of_readIndex hword)
    -- The output index is decoded behind the check of its sign only.
    by_cases hpos : k ≤ 0
    · simp only [hpairs, if_pos hpos, error_bind]
    · simp only [hpairs, h target k (by omega) (isIndex_of_readIndex hk)]

end Reading

/-! ### Main results -/

/-- The key of an entry stands in a line. An entry is accepted exactly when its key has the form of
a rule's text, with an integer index for each input, a positive output index that numbers a label of
the target, a weight in `(0, 1]` and one of the two connectives, and when some index is not zero and
all such indices number labels of their inputs. The rule then combines, in the order of the inputs,
what the indices other than zero say, and concludes the numbered label with the given weight.

Indices are decoded only if they are not zero and fit in 64 bits, so that it does not matter what
other ones would stand for; subtracting one from the size of such an index stays within 64 bits. -/
theorem readRule_accepts_fitting [Scalar α] {r : Registry α} {inputs : List Handle}
    {target : Handle} (hinputs : ∀ h ∈ inputs, ∃ v, r.get h = .ok v)
    (htarget : ∃ v, r.get target = .ok v) :
    (∀ text ss, sections (α := α) text = .ok ss → ∀ s ∈ ss, ∀ e ∈ s.entries, '\n' ∉ e.key) ∧
    (∀ e : Entry, '\n' ∉ e.key →
      ((∃ rule, readRule r inputs target e = .ok rule) ↔
        ∃ line : RuleLine α, line.ReadFrom e ∧ line.Fits r inputs target) ∧
      ∀ rule, readRule r inputs target e = .ok rule ↔
        ∃ line : RuleLine α, line.ReadFrom e ∧ line.Fits r inputs target ∧
          line.StandsFor r inputs target rule) ∧
    (∀ valuate : Handle → Int → Checked α Proposition,
      (∀ h k, k ≠ 0 → IsIndex k → valuate h k = valuationAt r h k) →
        ∀ e, readRuleBy valuate inputs target e = readRule r inputs target e) ∧
    ∀ k, IsIndex k → k ≠ 0 →
      1 ≤ UInt64.ofNat k.natAbs ∧ (UInt64.ofNat k.natAbs - 1).toNat + 1 = k.natAbs := by
  refine ⟨fun text ss h s hs e he ↦ newline_not_mem_key h hs he,
    fun e hline ↦ ⟨?_, fun rule ↦ readRule_eq_ok_iff_standsFor hline⟩,
    fun valuate h e ↦ ?_, fun k hk hne ↦ hk.position_eq hne⟩
  · simp only [readRule_eq_ok_iff_standsFor hline]
    constructor
    · rintro ⟨_, line, hread, hfits, -⟩
      exact ⟨line, hread, hfits⟩
    · rintro ⟨line, hread, hfits⟩
      obtain ⟨rule, hrule⟩ := exists_standsFor hinputs htarget hfits
      exact ⟨rule, line, hread, hfits, hrule⟩
  · rw [readRuleBy_congr h, readRuleBy_valuationAt]

/-- The alarm gets a rule that leaves the smoke out and is raised unless the heat is high, whatever
zero is taken to stand for, and no rule is read that leaves out the heat as well. -/
theorem alarm_readRule_accepts_fitting :
    let e : Entry := ⟨"0 -1, 1 (1)".toList, "2".toList⟩
    let rule : Rule Float := ⟨.or [.isNot ⟨1⟩ "high"], ⟨2⟩, "raised", 1⟩
    '\n' ∉ e.key ∧ readRule alarm.registry alarm.inputs alarm.target e = .ok rule ∧
      readRuleBy (fun h k ↦ if k = 0 then .ok (.and []) else valuationAt alarm.registry h k)
        alarm.inputs alarm.target e = .ok rule ∧
      ¬ ∃ rule, readRule alarm.registry alarm.inputs alarm.target
        ⟨"0 0, 1 (1)".toList, "2".toList⟩ = .ok rule := by
  intro e rule
  have hinputs : ∀ h ∈ alarm.inputs, ∃ v, alarm.registry.get h = .ok v :=
    List.forall_mem_cons.mpr ⟨⟨_, rfl⟩, List.forall_mem_singleton.mpr ⟨_, rfl⟩⟩
  have htarget : ∃ v, alarm.registry.get alarm.target = .ok v := ⟨_, rfl⟩
  have hline : '\n' ∉ e.key := by decide
  obtain ⟨-, haccepts, hby, -⟩ := readRule_accepts_fitting hinputs htarget
  obtain ⟨-, hrule⟩ := haccepts e hline
  obtain ⟨hnone, -⟩ := haccepts ⟨"0 0, 1 (1)".toList, "2".toList⟩ (by decide)
  have hread : readRule alarm.registry alarm.inputs alarm.target e = .ok rule := by
    refine (hrule rule).mpr ⟨⟨[0, -1], 1, 1, .disjunction⟩, ?_, ?_, ?_⟩
    · exact ⟨⟨⟨"0 -1".toList, "1".toList, "1".toList⟩, by decide, .cons rfl (.cons rfl .nil), rfl,
        rfl⟩, rfl⟩
    · refine ⟨rfl, by decide, ?_, ⟨by decide, ?_⟩, by decide⟩
      · intro h k hm hk v hv
        have hm : (h, k) ∈ [((⟨0⟩ : Handle), (0 : Int)), (⟨1⟩, -1)] := hm
        simp only [List.mem_cons, Prod.mk.injEq, List.not_mem_nil, or_false] at hm
        rcases hm with ⟨rfl, rfl⟩ | ⟨rfl, rfl⟩
        · exact absurd rfl hk
        · cases hv
          decide
      · rintro v ⟨⟩
        decide
    · exact ⟨⟨_, rfl, .cons ⟨_, 0, "high", rfl, rfl, rfl, .inr ⟨by decide, rfl⟩⟩ .nil⟩, rfl,
        ⟨_, 0, rfl, rfl, rfl⟩, rfl⟩
  refine ⟨hline, hread, (hby _ (fun h k hk _ ↦ if_neg hk) e).trans hread, ?_⟩
  rw [hnone]
  rintro ⟨line, ⟨⟨parts, hparts, hindices, -⟩, -⟩, hfits⟩
  cases hparts
  obtain ⟨k, hk, hne⟩ := hfits.exists_ne_zero
  obtain ⟨word, hword, hread⟩ := exists_left_of_mem hindices hk
  have hword : word ∈ [['0'], ['0']] := hword
  obtain rfl : word = ['0'] := by simpa using hword
  cases hread
  exact hne rfl

end FuzzyInference.FisText
