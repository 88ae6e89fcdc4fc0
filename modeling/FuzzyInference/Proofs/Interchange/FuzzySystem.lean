import FuzzyInference.Interchange.FuzzySystem
import FuzzyInference.Proofs.Interchange.Statement
import FuzzyInference.Proofs.Interchange.Variable
import FuzzyInference.Proofs.Json.Reader

/-!
# Systems are read back

A description is read back from its text, the fields of its context beside its own, if its numbers
are finite and identified by their digits and its containers are not nested too deeply. A text that
a system is read from meets all of this but for the digits, so the system is saved to a text that it
is read from again.
-/

namespace FuzzyInference

open Json

/-! ### Contexts -/

/-- A defuzzification method is found by its tag. -/
@[simp] theorem Defuzzification.ofTag?_tag {op : Defuzzification} : ofTag? op.tag = some op := by
  cases op <;> rfl

namespace Context

variable {ctx : Context}

/-- The fields of a context are texts. -/
theorem exists_of_mem_toFields : ∀ f ∈ ctx.toFields, ∃ tag, f.2 = string tag := by
  simp [toFields]

/-- A context is read back from its fields. -/
theorem ofFields?_toFields {buffered : Bool} : ofFields? buffered ctx.toFields = some ctx := by
  simp [ofFields?, toFields, operator?, Fields.optional?]

end Context

/-! ### Descriptions -/

namespace SystemDescription

variable {d : SystemDescription Float} {room : Nat}

/-- No field of a context is one of the system's own. -/
theorem filter_ownFields {inputs rules target : Json} :
    ([("variables", inputs), ("rules", rules), ("target", target)] ++ d.context.toFields).filter
      (fun (name, _) ↦ !ownFields.contains name) = d.context.toFields := by
  simp [Context.toFields, ownFields]

/-- What holds of the numbers of a description holds of those of its parts. -/
theorem forall_mem_numbers_iff {p : Float → Prop} : (∀ x ∈ d.numbers, p x) ↔
    (∀ v ∈ d.inputs, ∀ x ∈ v.numbers, p x) ∧ (∀ x ∈ d.target.numbers, p x) ∧
      ∀ r ∈ d.rules.rules, p r.weight := by
  rw [numbers, List.forall_mem_append, List.forall_mem_flatMap, List.forall_mem_append,
    List.forall_mem_singleton, List.forall_mem_map, and_assoc]

/-- A description of finite numbers is read back. -/
theorem ofJson?_toJson (h : ∀ x ∈ d.numbers, x.isFinite = true) : ofJson? d.toJson = some d := by
  obtain ⟨hi, ht, hr⟩ := forall_mem_numbers_iff.mp h
  have hinputs : (d.inputs.map Variable.toJson).mapM Variable.ofJson? = some d.inputs :=
    mapM_map_eq fun v hv ↦ Variable.ofJson?_toJson (hi v hv)
  have husable : usableFields d.context.toFields = true := by
    rw [usableFields_iff]
    intro f hf
    obtain ⟨tag, hf⟩ := Context.exists_of_mem_toFields f hf
    rw [hf, usable_string]
  simp only [toJson, ofJson?, fields?, Option.bind_eq_bind, Option.bind_some, filter_ownFields,
    (Option.guard_eq_some' ()).mpr husable, Context.ofFields?_toFields]
  simp [Fields.items?, Json.items?, Fields.required?, Fields.optional?, Context.toFields, hinputs,
    RuleBaseStatement.ofJson?_toJson hr, Variable.ofJson?_toJson ht]

/-- A description whose numbers are identified by their digits is printable. -/
theorem printable_toJson (h : ∀ x ∈ d.numbers, PrintsBack x) : d.toJson.Printable := by
  obtain ⟨hi, ht, hr⟩ := forall_mem_numbers_iff.mp h
  have hinputs : (array (d.inputs.map Variable.toJson)).Printable := by
    rw [Printable, printableItems_iff, List.forall_mem_map]
    intro v hv
    exact Variable.printable_toJson (hi v hv)
  rw [toJson, Printable, printableFields_iff, List.forall_mem_append]
  constructor
  · simp [hinputs, RuleBaseStatement.printable_toJson hr, Variable.printable_toJson ht]
  · intro f hf
    obtain ⟨tag, hf⟩ := Context.exists_of_mem_toFields f hf
    rw [hf]
    exact printable_string

/-- What is written for a description is no larger than what it was read from. -/
theorem fits_toJson_of_ofJson? {v : Json} (hf : v.fits room = true) (h : ofJson? v = some d) :
    d.toJson.fits room = true := by
  cases v with
  | object fields =>
    obtain ⟨hroom, hf⟩ := fits_object_iff.mp hf
    simp only [ofJson?, fields?, Option.bind_eq_bind, Option.bind_some, Option.bind_eq_some_iff,
      Option.pure_def, Option.some.injEq] at h
    obtain ⟨items, hitems, inputs, hinputs, rv, hrv, rules, hrules, tv, htv, target, htarget, -, -,
      context, -, rfl⟩ := h
    obtain ⟨hroom', hitems⟩ := fits_array_iff.mp (hf _ (Fields.mem_of_items? hitems))
    have hi : (array (inputs.map Variable.toJson)).fits (room - 1) = true :=
      fits_array_iff.mpr ⟨hroom', fits_map_of_mapM hinputs hitems
        fun _ _ ↦ Variable.fits_toJson_of_ofJson?⟩
    have hr := RuleBaseStatement.fits_toJson_of_ofJson? (hf _ (Fields.mem_of_required? hrv)) hrules
    have ht := Variable.fits_toJson_of_ofJson? (hf _ (Fields.mem_of_required? htv)) htarget
    rw [toJson, fits_object_iff, List.forall_mem_append]
    refine ⟨hroom, by simp [hi, hr, ht], fun f hf ↦ ?_⟩
    obtain ⟨tag, hf⟩ := Context.exists_of_mem_toFields f hf
    rw [hf, fits_string]
  | _ => cases h

/-- The text of a description is read back. -/
theorem readDescription_indented (hx : ∀ x ∈ d.numbers, x.isFinite = true)
    (hp : ∀ x ∈ d.numbers, PrintsBack x) (hf : d.toJson.fits Reader.maxDepth = true) :
    readDescription ofJson? d.toJson.indented = .ok d := by
  rw [readDescription, ofText?_indented hf (printable_toJson hp), Option.bind_some,
    ofJson?_toJson hx]

/-- A description that is read fits into the depth of the reader when it is written. -/
theorem fits_of_readDescription {text : String} (h : readDescription ofJson? text = .ok d) :
    d.toJson.fits Reader.maxDepth = true := by
  unfold readDescription at h
  split at h
  · next d' hread =>
    cases h
    obtain ⟨v, hv, hd⟩ := Option.bind_eq_some_iff.mp hread
    exact fits_toJson_of_ofJson? (fits_of_ofText? hv) hd
  · cases h

end SystemDescription

/-! ### A ventilation

The heat is stepped by a size that is a whole number, the fan by a count. -/

/-- A description with labels of many kinds. -/
def ventilation : SystemDescription Float where
  inputs := [⟨"heat", .numeric ⟨"heat", 0, 40, .size 2⟩,
    .ofList [("hot", .or (some .probabilisticSum) [.shape (.triangular 20 40 40),
      .and none [.shape (.piecewise [(0, 0), (10, 1)]), .not (.constant 0.25)]]),
      ("cold", .scale (.shape (.zShaped 0 10)) 0.5)]⟩]
  rules := ⟨[⟨.and [.is "heat" "hot", .not [.isNot "heat" "cold"]], .is "fan" "fast", 0.75⟩]⟩
  target := ⟨"fan", .categorical ⟨"fan", ["on", "off"]⟩,
    .ofList [("fast", .singleton (.label "on")), ("slow", .discrete (.ofList [("off", 1)]))]⟩
  context := { disjunction := .boundedSum }

namespace FuzzySystem

/-! ### Main results -/

/-- The text of a description of finite numbers is read back, and so every text that a system is
read from is saved to a text with the same description, which is read and saved as itself. -/
theorem saved_reads_back :
    (∀ d : SystemDescription Float, (∀ x ∈ d.numbers, x.isFinite = true) →
      (∀ x ∈ d.numbers, PrintsBack x) → d.toJson.fits Reader.maxDepth = true →
        readDescription SystemDescription.ofJson? d.toJson.indented = .ok d) ∧
      ∀ text s, ofText text = .ok s →
        ∃ d, readDescription SystemDescription.ofJson? text = .ok d ∧ s.describe = .ok d ∧
          ((∀ x ∈ d.numbers, PrintsBack x) → ∃ saved, s.toText = .ok saved ∧
            readDescription SystemDescription.ofJson? saved = .ok d ∧ ofText saved = .ok s) := by
  refine ⟨fun d ↦ SystemDescription.readDescription_indented, fun text s h ↦ ?_⟩
  obtain ⟨d, hd, hb⟩ := Result.bind_eq_ok_iff.mp h
  have hs := SystemDescription.describe_of_build hb
  refine ⟨d, hd, hs, fun hp ↦ ⟨d.toJson.indented, ?_, ?_⟩⟩
  · rw [toText, hs]
    rfl
  · have hread := SystemDescription.readDescription_indented
      (SystemDescription.isFinite_of_build hb) hp (SystemDescription.fits_of_readDescription hd)
    refine ⟨hread, ?_⟩
    rw [ofText, hread]
    exact hb

/-- The ventilation is read from its text, and from what it is saved to. -/
theorem ventilation_reads_back :
    ∃ s saved, ofText ventilation.toJson.indented = .ok s ∧ s.describe = .ok ventilation ∧
      s.toText = .ok saved ∧ ofText saved = .ok s := by
  have hp : ∀ x ∈ ventilation.numbers, PrintsBack x := by decide +kernel
  have hread := saved_reads_back.1 ventilation (by decide +kernel) hp (by decide +kernel)
  obtain ⟨s, hs⟩ : ∃ s, ventilation.build = .ok s := ⟨_, by rfl⟩
  have htext : ofText ventilation.toJson.indented = .ok s := by
    rw [ofText, hread]
    exact hs
  obtain ⟨d, hd, hdescribe, hsave⟩ := saved_reads_back.2 _ s htext
  obtain rfl : ventilation = d := Except.ok.inj (hread.symm.trans hd)
  obtain ⟨saved, hsaved, -, hagain⟩ := hsave hp
  exact ⟨s, saved, htext, hdescribe, hsaved, hagain⟩

end FuzzySystem

end FuzzyInference
