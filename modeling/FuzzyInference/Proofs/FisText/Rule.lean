import FuzzyInference.Proofs.FisText.Description
import FuzzyInference.Proofs.FuzzySystem.Construction

/-!
# Rules that are read

The line of a rule comes apart into its indices, its output index and its weight again, and the rule
that it describes is built: what the indices say of the inputs, under the connective, and the label
that is concluded. A rule that was built so suits the inputs and the target.
-/

namespace FuzzyInference.FisText

open Result Text

variable {α : Type}

/-! ### Cutting lines -/

private theorem ruleParts?_ruleKey {indices : List Int} (hne : indices ≠ []) (output : Int)
    (weight : List Char) :
    ruleParts? (ruleKey indices output weight) =
      some ⟨spaced (indices.map indexText), indexText output, weight⟩ := by
  have hindex {mark : Char} (hmark : Numeral.isNumeralChar mark = false) (k : Int) :
      ∀ c ∈ indexText k, decide (c = mark) = false :=
    fun c hc ↦ decide_eq_false (ne_of_isNumeralChar ((isWord_indexText k).2 c hc) hmark)
  have hcomma : ∀ c ∈ spaced (indices.map indexText), decide (c = ',') = false :=
    forall_mem_spaced (by decide) (List.forall_mem_map.mpr fun k _ ↦ hindex (by decide) k)
  have hopening : ∀ c ∈ indexText output ++ [' '], decide (c = '(') = false :=
    List.forall_mem_append.mpr ⟨hindex (by decide) output, List.forall_mem_singleton.mpr rfl⟩
  have houtput : Tight (indexText output) := tight_of_isWord (isWord_indexText output)
  obtain ⟨tail, htail⟩ : ∃ tail, tail = indexText output ++ [' '] ++ '(' :: (weight ++ [')']) :=
    ⟨_, rfl⟩
  have hkey : ruleKey indices output weight =
      spaced (indices.map indexText) ++ ',' :: ([' '] ++ tail) := by
    simp [ruleKey, htail]
  have hblank : ∀ c ∈ [' '], isBlank c = true := List.forall_mem_singleton.mpr rfl
  have htrim : trimStart ([' '] ++ tail) = tail := by
    rw [trimStart, List.dropWhile_append_of_pos hblank, ← trimStart, htail,
      List.append_assoc, houtput.trimStart_append]
  have hend : trimEnd (weight ++ [')']) = weight ++ [')'] := dropEndWhile_of_last (by decide)
  rw [ruleParts?, hkey, (tight_indices hne).trimStart_append,
    splitFirst_append hcomma (by simp)]
  simp only [Option.bind_eq_bind, Option.bind_some, htrim]
  rw [htail, splitFirst_append hopening (by simp)]
  simp only [Option.bind_some, hend, List.reverse_append, List.reverse_singleton,
    List.singleton_append, houtput.trimEnd_padded hblank,
    List.reverse_reverse]

/-! ### Valuations -/

section Valuations

variable [Scalar α] {r : Registry α} {steps : Steps α}

private theorem valuationAt_eq_ok {h : Handle} {v : Declaration α} {k : Int} {p : Proposition}
    (hget : r.get h = .ok (v.variable steps)) (hn : (v.labels.map Prod.fst).Nodup)
    (hp : valuation? h v k = some p) : valuationAt r h k = .ok p := by
  rw [valuation?, Option.ite_none_left_eq_some] at hp
  obtain ⟨-, hp⟩ := hp
  obtain ⟨⟨label, shape⟩, hentry, rfl⟩ := Option.map_eq_some_iff.mp hp
  have hlabel : (v.variable steps).labelAt (k.natAbs - 1) = .ok label := by
    rw [Variable.labelAt, names_variable hn, List.getElem?_map, hentry]
    rfl
  rw [valuationAt, hget]
  simp only [mapError_ok, ok_bind, hlabel]
  rfl

private theorem mapM_valuationAt {vs : List (Declaration α)} {ks : List Int} {slot : Nat}
    (hks : List.Forall₂ (fun v k ↦ k.natAbs ≤ v.labels.length) vs ks)
    (hget : ∀ i v, vs[i]? = some v → r.get ⟨slot + i⟩ = .ok (v.variable steps))
    (hn : ∀ v ∈ vs, (v.labels.map Prod.fst).Nodup) :
    ((((List.range' slot vs.length).map Handle.mk).zip ks).filter
      fun pair ↦ decide (pair.2 ≠ 0)).mapM (fun pair ↦ valuationAt r pair.1 pair.2) =
        .ok (valuations slot vs ks) := by
  induction hks generalizing slot with
  | nil => rfl
  | @cons v k vs ks hle _ ih =>
    obtain ⟨hv, hvs⟩ := List.forall_mem_cons.mp hn
    have hnext : ∀ i w, vs[i]? = some w → r.get ⟨slot + 1 + i⟩ = .ok (w.variable steps) := by
      intro i w hw
      rw [show slot + 1 + i = slot + (i + 1) by omega]
      exact hget (i + 1) w hw
    have hrest := ih hnext hvs
    rw [List.length_cons, List.range'_succ, List.map_cons, List.zip_cons_cons, valuations]
    by_cases hk : k = 0
    · rw [List.filter_cons_of_neg (by simp [hk]), hrest, valuation?, if_pos hk]
      rfl
    · obtain ⟨p, hp⟩ := exists_valuation? hk hle ⟨slot⟩
      have hfirst : valuationAt r ⟨slot⟩ k = .ok p := valuationAt_eq_ok (hget 0 v rfl) hv hp
      rw [List.filter_cons_of_pos (by simp [hk]), List.mapM_cons, hfirst, hrest, hp]
      rfl

end Valuations

/-! ### Rules -/

section Rules

variable [Scalar α] {r : Registry α}

omit [Scalar α] in
private theorem connect_number (c : Connective) (ps : List Proposition) :
    connect (α := α) [c.number] ps = .ok (c.join ps) := by
  cases c <;> rfl

private theorem validateAll_of_forall {ps : List Proposition}
    (h : ∀ p ∈ ps, p.validate r = .ok ()) : Proposition.validateAll r ps = .ok () := by
  induction ps with
  | nil => rfl
  | cons p ps ih =>
    obtain ⟨hp, hps⟩ := List.forall_mem_cons.mp h
    rw [Proposition.validateAll, hp, ok_bind, ih hps]

private theorem validate_join {c : Connective} {ps : List Proposition} (hne : ps ≠ [])
    (h : ∀ p ∈ ps, p.validate r = .ok ()) : (c.join ps).validate r = .ok () := by
  have hsome : ps.isEmpty = false := by simpa using hne
  cases c with
  | conjunction =>
    exact Proposition.validate_and_eq_ok_iff.mpr ⟨hsome, validateAll_of_forall h⟩
  | disjunction =>
    exact Proposition.validate_or_eq_ok_iff.mpr ⟨hsome, validateAll_of_forall h⟩

private theorem exists_of_mem_valuations_join {c : Connective} {ps : List Proposition}
    {a : Handle × String} (ha : a ∈ (c.join ps).valuations) : ∃ p ∈ ps, a ∈ p.valuations := by
  have hall : a ∈ Proposition.valuationsAll ps := by
    cases c with
    | conjunction => rwa [Connective.join, Proposition.valuations] at ha
    | disjunction => rwa [Connective.join, Proposition.valuations] at ha
  clear ha
  induction ps with
  | nil =>
    rw [Proposition.valuationsAll] at hall
    cases hall
  | cons p ps ih =>
    rw [Proposition.valuationsAll] at hall
    rcases List.mem_append.mp hall with ha | ha
    · exact ⟨p, List.mem_cons_self, ha⟩
    · obtain ⟨q, hq, ha⟩ := ih ha
      exact ⟨q, List.mem_cons_of_mem _ hq, ha⟩

end Rules

section Registered

variable [Scalar α] {r : Registry α} {d : Document α} {steps : Steps α} {line : RuleLine α}
  (hr : d.Registered steps r) (hd : d.Sound)

include hr hd

private theorem validate_of_mem_valuations {p : Proposition}
    (hp : p ∈ valuations 0 d.inputs line.indices) : p.validate r = .ok () := by
  obtain ⟨i, v, hv, label, hlabel, hp⟩ := exists_of_mem_valuations hp
  rw [Nat.zero_add] at hp
  have hn := (hd.declarations v (List.mem_append_left _ (List.mem_of_getElem? hv))).labels_nodup
  have hhas : r.HasLabel ⟨i⟩ label := ⟨_, hr.get_input hv, by rwa [names_variable hn]⟩
  have hvalid := Proposition.validateLabel_eq_ok_iff_hasLabel.mpr hhas
  rcases hp with rfl | rfl
  · rwa [Proposition.validate]
  · rwa [Proposition.validate]

private theorem mapM_inputs (hline : line.Sound d) :
    ((d.handles.zip line.indices).filter fun pair ↦ decide (pair.2 ≠ 0)).mapM
      (fun pair ↦ valuationAt r pair.1 pair.2) = .ok (valuations 0 d.inputs line.indices) := by
  have hget : ∀ i v, d.inputs[i]? = some v → r.get ⟨0 + i⟩ = .ok (v.variable steps) := by
    intro i v hv
    rw [Nat.zero_add]
    exact hr.get_input hv
  rw [Document.handles, List.range_eq_range']
  exact mapM_valuationAt hline.indices hget fun v hv ↦
    (hd.declarations v (List.mem_append_left _ hv)).labels_nodup

private theorem exists_consequent (hline : line.Sound d) :
    ∃ label, (d.target.labels.map Prod.fst)[line.output.natAbs - 1]? = some label ∧
      valuationAt r d.targetHandle line.output = .ok (.is d.targetHandle label) := by
  have hpos := hline.output_pos
  have hle := hline.output_le
  have hentry := List.getElem?_eq_getElem (l := d.target.labels) (i := line.output.natAbs - 1)
    (by omega)
  refine ⟨_, by rw [List.getElem?_map, hentry]; rfl,
    valuationAt_eq_ok hr.get_target (hd.declarations d.target (by simp)).labels_nodup ?_⟩
  rw [valuation?, if_neg hpos.ne', hentry, Option.map_some]
  exact congrArg some (if_pos hpos)

private theorem suits_of_describes (hline : line.Sound d) {rule : Rule α}
    (hrule : line.Describes d rule) : FuzzySystem.Suits r d.handles d.targetHandle rule := by
  have hne : valuations 0 d.inputs line.indices ≠ [] :=
    valuations_ne_nil hline.indices hline.exists_ne_zero
  have hn := (hd.declarations d.target (by simp)).labels_nodup
  have hlabel : r.HasLabel rule.target rule.label := by
    rw [hrule.target]
    refine ⟨d.target.variable steps, hr.get_target, ?_⟩
    rw [names_variable hn]
    exact List.mem_of_getElem? hrule.label
  refine ⟨Rule.validate_eq_ok_iff.mpr ⟨?_, ?_⟩, hrule.target, fun a ha ↦ ?_⟩
  · rw [hrule.antecedent]
    exact validate_join hne fun p hp ↦ validate_of_mem_valuations hr hd hp
  · exact Proposition.validateLabel_eq_ok_iff_hasLabel.mpr hlabel
  · rw [hrule.antecedent] at ha
    obtain ⟨p, hp, ha⟩ := exists_of_mem_valuations_join ha
    obtain ⟨i, v, hv, label, -, hp⟩ := exists_of_mem_valuations hp
    obtain ⟨hlt, -⟩ := List.getElem?_eq_some_iff.mp hv
    have hsubject : a.1 = ⟨0 + i⟩ := by
      rcases hp with rfl | rfl <;> rw [Proposition.valuations, List.mem_singleton] at ha <;> rw [ha]
    rw [hsubject, Nat.zero_add]
    exact mem_handles_iff.mpr hlt

/-- The line of a sound rule is read as a rule that it describes and that suits the inputs and the
target. -/
theorem exists_readRule {write : α → List Char} (hline : line.Sound d)
    (hwrite : Scalar.ofText? (write line.weight) = some line.weight)
    (hcount : ∀ v ∈ d.inputs ++ [d.target], v.labels.length < 2 ^ 63) :
    ∃ rule, readRule r d.handles d.targetHandle (line.entry write) = .ok rule ∧
      line.Describes d rule ∧ FuzzySystem.Suits r d.handles d.targetHandle rule := by
  -- The indices are numbers of labels, so they are not too large to be read.
  have hindices : ∀ k ∈ line.indices, k.natAbs < 2 ^ 63 := by
    intro k hk
    obtain ⟨v, hv, hle⟩ := exists_left_of_mem hline.indices hk
    exact Nat.lt_of_le_of_lt hle (hcount v (List.mem_append_left _ hv))
  have houtput : line.output.natAbs < 2 ^ 63 := by
    have hpos := hline.output_pos
    have hle := hline.output_le
    have hlt := hcount d.target (by simp)
    omega
  have hweight : readScalar ((write line.weight).map Char.toLower) = .ok line.weight := by
    refine readScalar_eq_ok ?_
    rwa [Scalar.ofText?, Numeral.ofText?_map_toLower]
  have hlength : line.indices.length = d.handles.length := by
    rw [Document.handles, List.length_map, List.length_range, hline.indices.length_eq]
  have hne : valuations 0 d.inputs line.indices ≠ [] :=
    valuations_ne_nil hline.indices hline.exists_ne_zero
  obtain ⟨label, hlabel, hconsequent⟩ := exists_consequent hr hd hline
  obtain ⟨rule, hrule⟩ : ∃ rule : Rule α, rule = ⟨line.connective.join
      (valuations 0 d.inputs line.indices), d.targetHandle, label, line.weight⟩ := ⟨_, rfl⟩
  have hbuild : Rule.build (line.connective.join (valuations 0 d.inputs line.indices))
      (.is d.targetHandle label) line.weight = .ok rule :=
    Rule.build_eq_ok_iff.mpr ⟨⟨hline.weight_pos, hline.weight_le_one⟩, hrule ▸ ⟨rfl, rfl, rfl⟩⟩
  have hdescribes : line.Describes d rule := hrule ▸ ⟨rfl, rfl, hlabel, rfl⟩
  refine ⟨rule, ?_, hdescribes, suits_of_describes hr hd hline hdescribes⟩
  have hparts := ruleParts?_ruleKey hline.indices_ne_nil line.output
    ((write line.weight).map Char.toLower)
  rw [readRule, RuleLine.entry, hparts]
  simp only [bind_eq_ok_iff, error_bind, refuse_eq_ok_iff]
  exact ⟨_, mapM_readIndex hindices, _, readIndex_indexText houtput, _, hweight,
    fun hne ↦ hne hlength, _, mapM_inputs hr hd hline, by simp [hne], _,
    connect_number _ _, not_le.mpr hline.output_pos, _, hconsequent, hbuild⟩

end Registered

end FuzzyInference.FisText
