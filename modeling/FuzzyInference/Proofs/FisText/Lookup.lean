import FuzzyInference.FisText.Reader
import FuzzyInference.Proofs.FisText.Outline
import FuzzyInference.Proofs.FisText.Variable

/-!
# What a reader looks up

A system is read from the values that stand under certain keys in sections of certain names, and
from the entries of the rule section. Texts in which the same is found are read alike.
-/

namespace FuzzyInference.FisText

open Result Text

variable {α : Type}

private theorem isPlain_numbered {word : String} (h : IsPlain word.toList) (n : Nat) :
    IsPlain (word ++ toString n).toList := by
  rw [toList_numbered]
  refine List.forall_mem_append.mpr ⟨h, ?_⟩
  intro c hc
  have hdigit := (Decimal.isDigits_digitChars n).2 c hc
  refine ⟨Numeral.lt_of_isNumeralChar (Numeral.isNumeralChar_of_isDigit hdigit), ?_⟩
  rw [Numeral.toLower_of_isDigit hdigit]
  rintro rfl
  exact absurd hdigit (by decide)

/-! ### Sections with the same values -/

/-- The same values stand under all plain keys. -/
def SameValues (s s' : Section) : Prop :=
  ∀ key : String, IsPlain key.toList → s.get? key = s'.get? key

namespace SameValues

variable {s s' : Section}

/-- What is found in one section is found in the other. -/
theorem get_eq_ok (h : SameValues s s') {key : String} (hkey : IsPlain key.toList)
    {value : List Char} (hvalue : s.get (α := α) key = .ok value) :
    s'.get (α := α) key = .ok value := by
  rw [Section.get, ← h key hkey]
  rw [Section.get] at hvalue
  split at hvalue
  · exact hvalue
  · cases hvalue

private theorem method_eq {β : Type} (h : SameValues s s') {key : String}
    (hkey : IsPlain key.toList) (usual : β) (read : String → Checked α β) :
    method s key usual read = method s' key usual read := by
  rw [method, method, h key hkey]

/-- So is the context that they make up. -/
theorem readContext_eq (h : SameValues s s') :
    readContext (α := α) s = readContext s' := by
  unfold readContext
  rw [h.method_eq (by decide), h.method_eq (by decide), h.method_eq (by decide),
    h.method_eq (by decide), h.method_eq (by decide)]

variable [Scalar α]

private theorem readLabels_eq_ok (h : SameValues s s') {name : String}
    {known t : Table (FuzzySet α)} {next remaining : Nat}
    (ht : readLabels s name known next remaining = .ok t) :
    readLabels s' name known next remaining = .ok t := by
  induction remaining generalizing known next with
  | zero => exact ht
  | succ remaining ih =>
    rw [readLabels] at ht ⊢
    obtain ⟨value, hvalue, hrest⟩ := bind_eq_ok_iff.mp ht
    refine bind_eq_ok_iff.mpr ⟨value, h.get_eq_ok (isPlain_numbered (by decide) next) hvalue, ?_⟩
    obtain ⟨⟨label, set⟩, hmembership, hrest⟩ := bind_eq_ok_iff.mp hrest
    refine bind_eq_ok_iff.mpr ⟨⟨label, set⟩, hmembership, ?_⟩
    simp only [error_bind, refuse_eq_ok_iff] at hrest ⊢
    exact ⟨hrest.1, ih hrest.2⟩

/-- The variable is read alike. -/
theorem readVariable_eq_ok (h : SameValues s s') {steps : Steps α} {v : Variable α}
    (hv : readVariable steps s = .ok v) : readVariable steps s' = .ok v := by
  rw [readVariable] at hv ⊢
  obtain ⟨name, hname, hv⟩ := bind_eq_ok_iff.mp hv
  obtain ⟨bounds, hbounds, hv⟩ := bind_eq_ok_iff.mp hv
  obtain ⟨range, hrange, hv⟩ := bind_eq_ok_iff.mp hv
  refine bind_eq_ok_iff.mpr ⟨name, h.get_eq_ok (by decide) hname,
    bind_eq_ok_iff.mpr ⟨bounds, h.get_eq_ok (by decide) hbounds,
      bind_eq_ok_iff.mpr ⟨range, hrange, ?_⟩⟩⟩
  split at hv
  · simp only [bind_eq_ok_iff] at hv ⊢
    obtain ⟨count, hcount, n, hn, labels, hlabels, hrest⟩ := hv
    exact ⟨count, h.get_eq_ok (by decide) hcount, n, hn, labels, h.readLabels_eq_ok hlabels, hrest⟩
  · cases hv

end SameValues

/-! ### Characters of rules -/

/-- A character that does not occur in the line of a rule: it is no blank, no quote, no comma, no
parenthesis, and no character of numerals. -/
private def isForeign (c : Char) : Bool :=
  !isBlank c && !Numeral.isNumeralChar c && !(['\x27', ',', '(', ')'].contains c)

private theorem not_mem_of_readNumber {β : Type} {read? : List Char → Option β}
    (hread : ∀ cs n, read? cs = some n → Numeral.IsWord cs) {cs : List Char} {n : β}
    (h : readNumber (α := α) read? cs = .ok n) {c : Char} (hc : isForeign c = true) : c ∉ cs := by
  simp only [isForeign, Bool.and_eq_true, Bool.not_eq_true'] at hc
  obtain ⟨⟨hblank, hnumeral⟩, hmarks⟩ := hc
  have hquote : decide (c = '\x27') = false := by
    apply decide_eq_false
    rintro rfl
    cases hmarks
  rw [readNumber] at h
  split at h
  · next hword =>
    intro hm
    have htrim : c ∈ trim cs := mem_dropEndWhile hblank (mem_dropWhile hblank hm)
    have hleft : c ∈ unquote cs := mem_dropEndWhile hquote (mem_dropWhile hquote htrim)
    rw [(hread _ _ hword).2 c hleft] at hnumeral
    cases hnumeral
  · cases h

private theorem mem_of_ruleParts? {line : List Char} {parts : RuleParts}
    (h : ruleParts? line = some parts) {c : Char} (hc : isForeign c = true) (hm : c ∈ line) :
    c ∈ parts.indices ∨ c ∈ parts.output ∨ c ∈ parts.weight := by
  simp only [isForeign, Bool.and_eq_true, Bool.not_eq_true'] at hc
  obtain ⟨⟨hblank, -⟩, hmarks⟩ := hc
  have hne : c ≠ ',' ∧ c ≠ '(' ∧ c ≠ ')' := by
    refine ⟨?_, ?_, ?_⟩ <;> (rintro rfl; cases hmarks)
  have hcut {mark mark' : Char} {before after rest : List Char} (hmark : c ≠ mark)
      (hcut : splitFirst (· = mark) rest = some (before, mark', after)) (hrest : c ∈ rest) :
      c ∈ before ∨ c ∈ after := by
    obtain ⟨rfl, hmark', -⟩ := splitFirst_eq_some hcut
    rw [decide_eq_true_eq] at hmark'
    subst hmark'
    rcases List.mem_append.mp hrest with hrest | hrest
    · exact .inl hrest
    · exact .inr ((List.mem_cons.mp hrest).resolve_left hmark)
  simp only [ruleParts?, Option.bind_eq_bind, Option.bind_eq_some_iff] at h
  obtain ⟨⟨indices, comma, rest⟩, hcomma, ⟨output, opening, rest'⟩, hopening, h⟩ := h
  split at h
  · next weight hweight =>
    cases h
    rcases hcut hne.1 hcomma (mem_dropWhile hblank hm) with hm | hm
    · exact .inl hm
    · rcases hcut hne.2.1 hopening (mem_dropWhile hblank hm) with hm | hm
      · exact .inr (.inl (mem_dropEndWhile hblank hm))
      · right
        right
        have hend := List.mem_reverse.mpr (mem_dropEndWhile hblank hm)
        rw [← trimEnd, hweight] at hend
        exact List.mem_reverse.mpr ((List.mem_cons.mp hend).resolve_left hne.2.2)
  · cases h

private theorem not_mem_of_readRule [Scalar α] {r : Registry α} {inputs : List Handle}
    {target : Handle} {e : Entry} {rule : Rule α} (h : readRule r inputs target e = .ok rule)
    {c : Char} (hc : isForeign c = true) : c ∉ e.key := by
  intro hm
  unfold readRule at h
  split at h
  · cases h
  · next parts hparts =>
    obtain ⟨indices, hindices, h⟩ := bind_eq_ok_iff.mp h
    obtain ⟨output, houtput, h⟩ := bind_eq_ok_iff.mp h
    obtain ⟨weight, hweight, -⟩ := bind_eq_ok_iff.mp h
    have hblank : isBlank c = false := by
      simp only [isForeign, Bool.and_eq_true, Bool.not_eq_true'] at hc
      exact hc.1.1
    rcases mem_of_ruleParts? hparts hc hm with hm | hm | hm
    · obtain ⟨w, hw, hcw⟩ := exists_mem_words hblank hm
      obtain ⟨k, -, hk⟩ := exists_right_of_mem (mapM_eq_ok_iff.mp hindices) hw
      exact not_mem_of_readNumber (fun _ _ ↦ Numeral.isWord_of_int64?) hk hc hcw
    · exact not_mem_of_readNumber (fun _ _ ↦ Numeral.isWord_of_int64?) houtput hc hm
    · exact not_mem_of_readNumber (fun _ _ ↦ isWord_of_ofText?) hweight hc hm

private theorem eq_of_readRule [Scalar α] {r : Registry α} {inputs : List Handle}
    {target : Handle} {e e' : Entry} {rule : Rule α} (h : readRule r inputs target e = .ok rule)
    (he : e.folded = e'.folded) : e' = e := by
  have hinner : 'σ' ∉ e.key := not_mem_of_readRule h (by decide)
  have hfinal : 'ς' ∉ e.key := not_mem_of_readRule h (by decide)
  have hkey : unfinals e'.key = e.key :=
    (congrArg Entry.key he).symm.trans ((unfinals_eq_iff hinner hfinal).mpr rfl)
  have hvalue : e'.value = e.value := (congrArg Entry.value he).symm
  calc e' = ⟨e'.key, e'.value⟩ := rfl
    _ = ⟨e.key, e.value⟩ := by rw [(unfinals_eq_iff hinner hfinal).mp hkey, hvalue]
    _ = e := rfl

private theorem eq_of_mapM_readRule [Scalar α] {r : Registry α} {inputs : List Handle}
    {target : Handle} {es es' : List Entry} {rules : List (Rule α)}
    (h : es.mapM (readRule r inputs target) = .ok rules)
    (he : es.map Entry.folded = es'.map Entry.folded) : es' = es := by
  rw [mapM_eq_ok_iff] at h
  induction h generalizing es' with
  | nil => exact List.map_eq_nil_iff.mp he.symm
  | cons hrule _ ih =>
    cases es' with
    | nil => cases he
    | cons e' es' =>
      rw [List.map_cons, List.map_cons, List.cons.injEq] at he
      rw [eq_of_readRule hrule he.1, ih he.2]

/-! ### Texts in which the same is found -/

private theorem find_eq_ok_iff {ss : List Section} {name : String} {s : Section} :
    find (α := α) ss name = .ok s ↔
      (ss.find? fun s ↦ eqIgnoringCase s.name name.toList) = some s := by
  refine ⟨fun h ↦ ?_, find_eq_ok⟩
  rw [find] at h
  split at h
  · next hfound =>
    cases h
    exact hfound
  · cases h

private theorem map_folded_ruleEntries {ss : List Section} :
    (ruleEntries (α := α) ss).map Entry.folded = (rulesIn (ss.map Section.folded)).getD [] := by
  rw [rulesIn, find?_folded (by decide), Option.map_map, ruleEntries, find]
  cases ss.find? fun s ↦ eqIgnoringCase s.name "Rules".toList <;> rfl

section Found

variable {ss ss' : List Section} {ls ls' : List Line} (h : Interchangeable ls ls')
  (hss : ss.map Section.folded = (grouped ls).2) (hss' : ss'.map Section.folded = (grouped ls').2)
include h hss hss'

private theorem exists_find {name : String} (hname : IsPlain name.toList) {s : Section}
    (hs : find (α := α) ss name = .ok s) :
    ∃ s', find (α := α) ss' name = .ok s' ∧ SameValues s s' := by
  have hvalue (key : String) := h.value_eq (letters name.toList) key
  simp only [valueIn, ← hss, ← hss', find?_folded hname, find_eq_ok_iff.mp hs, Option.map_some]
    at hvalue
  cases hs' : ss'.find? fun s ↦ eqIgnoringCase s.name name.toList with
  | none =>
    rw [hs'] at hvalue
    cases hvalue name
  | some s' =>
    refine ⟨s', find_eq_ok hs', ?_⟩
    intro key hkey
    have he := hvalue key
    rw [hs', Option.map_some, Option.map_some, get?_folded hkey, get?_folded hkey] at he
    exact Option.some.inj he

variable [Scalar α]

private theorem readInputs_eq_ok {steps : Steps α} {r : Registry α} {next remaining : Nat}
    {result : Registry α × List Handle}
    (hr : readInputs ss steps r next remaining = .ok result) :
    readInputs ss' steps r next remaining = .ok result := by
  induction remaining generalizing r next result with
  | zero => exact hr
  | succ remaining ih =>
    rw [readInputs] at hr ⊢
    simp only [bind_eq_ok_iff] at hr ⊢
    obtain ⟨s, hs, v, hv, added, hadded, rest, hrest, hresult⟩ := hr
    obtain ⟨s', hs', hvalues⟩ := exists_find h hss hss' (isPlain_numbered (by decide) next) hs
    exact ⟨s', hs', v, hvalues.readVariable_eq_ok hv, added, hadded, rest, ih hrest, hresult⟩

end Found

/-- Texts in whose outlines the same is found are read as the same system. -/
theorem readSystem_eq_ok [Scalar α] {text text' : String}
    (h : Interchangeable (outline (splitLines text.toList)) (outline (splitLines text'.toList)))
    {steps : Steps α} {s : FuzzySystem α} (hs : readSystem text steps = .ok s) :
    readSystem text' steps = .ok s := by
  simp only [readSystem, bind_eq_ok_iff, error_bind, refuse_eq_ok_iff, require_eq_ok_iff] at hs ⊢
  obtain ⟨ss, hsections, header, hheader, kind, hkind, hmamdani, outputs, houtputs, n, hn, hone,
    inputs, hinputs, count, hcount, ctx, hctx, registered, hregistered, output, houtput, target,
    htarget, added, hadded, rules, hrules, hbuilt⟩ := hs
  obtain ⟨ss', hsections'⟩ :
      ∃ ss', sectionsFrom (α := α) [] (splitLines text'.toList) = .ok ss' := by
    rw [exists_sections_iff, ← h.malformed_iff, ← h.leading_iff, ← exists_sections_iff (α := α)]
    exact ⟨ss, hsections⟩
  have hss := map_folded_eq hsections
  have hss' := map_folded_eq hsections'
  obtain ⟨header', hheader', hvalues⟩ := exists_find h hss hss' (by decide) hheader
  obtain ⟨output', houtput', hvalues'⟩ := exists_find h hss hss' (by decide) houtput
  have hentries : ruleEntries (α := α) ss' = ruleEntries (α := α) ss := by
    apply eq_of_mapM_readRule hrules
    rw [map_folded_ruleEntries, map_folded_ruleEntries, hss, hss', h.rules_eq]
  exact ⟨ss', hsections', header', hheader', kind, hvalues.get_eq_ok (by decide) hkind, hmamdani,
    outputs, hvalues.get_eq_ok (by decide) houtputs, n, hn, hone, inputs,
    hvalues.get_eq_ok (by decide) hinputs, count, hcount, ctx, hvalues.readContext_eq ▸ hctx,
    registered, readInputs_eq_ok h hss hss' hregistered, output', houtput', target,
    hvalues'.readVariable_eq_ok htarget, added, hadded, rules, hentries ▸ hrules, hbuilt⟩

end FuzzyInference.FisText
