import FuzzyInference.FisText.Value
import FuzzyInference.Proofs.Decimal.Numeral
import FuzzyInference.Proofs.Fault.Result
import FuzzyInference.Proofs.FisText.Section
import FuzzyInference.Proofs.FuzzySet.WellFormed

/-!
# Values that are laid out

The values of entries are read as what was written: words in quotes, counts, indices, lists of
numbers, and membership functions. Nothing is asked of the writer of numbers but that they are read
back.
-/

namespace FuzzyInference.FisText

open Result Text
open Numeral (IsWord isNumeralChar of_isNumeralChar isWord_digitChars)

variable {α : Type}

/-- A text in quotes. -/
def inQuotes (cs : List Char) : List Char := '\x27' :: (cs ++ ['\x27'])

/-! ### Words and numbers -/

/-- What is not part of a numeral is no character of one. -/
theorem ne_of_isNumeralChar {c d : Char} (hc : isNumeralChar c = true)
    (hd : isNumeralChar d = false) : c ≠ d := by
  rintro rfl
  rw [hc] at hd
  cases hd

/-- Words have no blanks. -/
theorem bare_of_isWord {cs : List Char} (h : IsWord cs) : Bare cs :=
  fun c hc ↦ by simpa using of_isNumeralChar (p := fun c ↦ !isBlank c) (by decide) (h.2 c hc)

/-- Words begin and end with other characters than blanks. -/
theorem tight_of_isWord {cs : List Char} (h : IsWord cs) : Tight cs := (bare_of_isWord h).tight h.1

/-- Quotes are taken off. -/
theorem unquote_inQuotes {cs : List Char} (h : '\x27' ∉ cs) : unquote (inQuotes cs) = cs := by
  have htight : Tight (inQuotes cs) := .enclosed (by decide) (by decide)
  have hkept : ∀ c ∈ cs, decide (c = '\x27') = false := by
    intro c hc
    exact decide_eq_false fun he ↦ h (he ▸ hc)
  have hstart : (inQuotes cs).dropWhile (· = '\x27') = cs ++ ['\x27'] ∨ cs = [] := by
    cases cs with
    | nil => exact .inr rfl
    | cons c cs =>
      refine .inl ?_
      rw [inQuotes, List.dropWhile_cons_of_pos (by simp), List.cons_append,
        List.dropWhile_cons_of_neg (by simpa using hkept c List.mem_cons_self)]
  rcases hstart with hstart | rfl
  · rw [unquote, htight.trim_eq, hstart, dropEndWhile_append (by simp),
      dropEndWhile_of_forall hkept]
  · rfl

private theorem unquote_of_isWord {cs : List Char} (h : IsWord cs) : unquote cs = cs := by
  have hkept : ∀ c ∈ cs, decide (c = '\x27') = false :=
    fun c hc ↦ decide_eq_false (ne_of_isNumeralChar (h.2 c hc) (by decide))
  rw [unquote, (tight_of_isWord h).trim_eq, dropWhile_of_forall hkept,
    dropEndWhile_of_forall hkept]

private theorem readNumber_eq_ok {β : Type} {read? : List Char → Option β} {cs : List Char} {n : β}
    (h : IsWord cs) (hread : read? cs = some n) : readNumber (α := α) read? cs = .ok n := by
  rw [readNumber, unquote_of_isWord h, hread]

/-- A count is read back. -/
theorem readCount_digitChars {n : Nat} (hn : n < 2 ^ 64) :
    readCount (α := α) (Decimal.digitChars n) = .ok n := by
  have hbound : n ≤ Nat.pow 2 64 - 1 := Nat.le_sub_one_of_lt hn
  exact readNumber_eq_ok (isWord_digitChars n) (Numeral.natUpTo?_digitChars hbound)

/-- The text of an index. -/
def indexText (k : Int) : List Char :=
  (if k < 0 then ['-'] else []) ++ Decimal.digitChars k.natAbs

/-- An index is a word. -/
theorem isWord_indexText (k : Int) : IsWord (indexText k) := by
  obtain ⟨hne, hall⟩ := isWord_digitChars k.natAbs
  refine ⟨List.append_ne_nil_of_right_ne_nil _ hne, List.forall_mem_append.mpr ⟨?_, hall⟩⟩
  split
  · exact List.forall_mem_singleton.mpr rfl
  · exact nofun

/-- Digits have no case. -/
theorem map_toLower_digitChars (n : Nat) :
    (Decimal.digitChars n).map Char.toLower = Decimal.digitChars n := by
  obtain ⟨-, hall⟩ := Decimal.isDigits_digitChars n
  rw [List.map_congr_left fun c hc ↦ Numeral.toLower_of_isDigit (hall c hc), List.map_id']

/-- An index has no case. -/
theorem map_toLower_indexText (k : Int) : (indexText k).map Char.toLower = indexText k := by
  rw [indexText, List.map_append, map_toLower_digitChars]
  split <;> rfl

/-- An index is read back. -/
theorem readIndex_indexText {k : Int} (hk : k.natAbs < 2 ^ 63) :
    readIndex (α := α) (indexText k) = .ok k :=
  readNumber_eq_ok (isWord_indexText k) (Numeral.int64?_digitChars hk)

/-- The indices of a list are words without blanks. -/
theorem words_indexText (ks : List Int) : ∀ w ∈ ks.map indexText, w ≠ [] ∧ Bare w :=
  List.forall_mem_map.mpr fun k _ ↦ ⟨(isWord_indexText k).1, bare_of_isWord (isWord_indexText k)⟩

/-- A list of indices begins and ends with one. -/
theorem tight_indices {ks : List Int} (hne : ks ≠ []) : Tight (spaced (ks.map indexText)) :=
  tight_spaced (by simpa using hne) (words_indexText ks)

/-- A list of indices is read back. -/
theorem mapM_readIndex {ks : List Int} (hks : ∀ k ∈ ks, k.natAbs < 2 ^ 63) :
    (words (spaced (ks.map indexText))).mapM (readIndex (α := α)) = .ok ks := by
  rw [words_spaced (words_indexText ks), mapM_eq_ok_iff, List.forall₂_map_left_iff,
    List.forall₂_same]
  exact fun k hk ↦ readIndex_indexText (hks k hk)

variable [Scalar α]

/-- A text that denotes a scalar is a word. -/
theorem isWord_of_ofText? {cs : List Char} {x : α} (h : Scalar.ofText? cs = some x) :
    IsWord cs := by
  obtain ⟨n, hn, -⟩ := Option.map_eq_some_iff.mp h
  exact Numeral.isWord_of_ofText? hn

/-- A scalar is read from every text that denotes it. -/
theorem readScalar_eq_ok {cs : List Char} {x : α} (h : Scalar.ofText? cs = some x) :
    readScalar cs = .ok x :=
  readNumber_eq_ok (isWord_of_ofText? h) h

/-! ### Lists of numbers -/

section Lists

variable {write : α → List Char} {xs : List α}

/-- The characters of a list of numbers: blanks and those of numerals. -/
theorem forall_mem_spaced_write {p : Char → Prop} (hblank : p ' ')
    (hnumeral : ∀ c, isNumeralChar c = true → p c)
    (h : ∀ x ∈ xs, Scalar.ofText? (write x) = some x) : ∀ c ∈ spaced (xs.map write), p c := by
  refine forall_mem_spaced hblank (List.forall_mem_map.mpr fun x hx c hc ↦ ?_)
  exact hnumeral c ((isWord_of_ofText? (h x hx)).2 c hc)

private theorem words_write (h : ∀ x ∈ xs, Scalar.ofText? (write x) = some x) :
    ∀ w ∈ xs.map write, w ≠ [] ∧ Bare w :=
  List.forall_mem_map.mpr fun x hx ↦
    ⟨(isWord_of_ofText? (h x hx)).1, bare_of_isWord (isWord_of_ofText? (h x hx))⟩

private theorem mapM_words_spaced (h : ∀ x ∈ xs, Scalar.ofText? (write x) = some x) :
    (words (dropEndWhile (· = ']') (spaced (xs.map write)))).mapM readScalar = .ok xs := by
  have hend : ∀ c ∈ spaced (xs.map write), decide (c = ']') = false :=
    forall_mem_spaced_write (by decide)
      (fun _ hc ↦ decide_eq_false (ne_of_isNumeralChar hc (by decide))) h
  rw [dropEndWhile_of_forall hend, words_spaced (words_write h), mapM_eq_ok_iff,
    List.forall₂_map_left_iff, List.forall₂_same]
  exact fun x hx ↦ readScalar_eq_ok (h x hx)

private theorem ne_bracket_of_mem_spaced (h : ∀ x ∈ xs, Scalar.ofText? (write x) = some x) :
    ∀ c ∈ spaced (xs.map write), decide (c = '[') = false :=
  forall_mem_spaced_write (by decide)
    (fun _ hc ↦ decide_eq_false (ne_of_isNumeralChar hc (by decide))) h

/-- A list of numbers is read back. -/
theorem readScalars_spaced (h : ∀ x ∈ xs, Scalar.ofText? (write x) = some x) :
    readScalars (spaced (xs.map write)) = .ok xs := by
  have htrim : trim (spaced (xs.map write)) = spaced (xs.map write) := by
    by_cases hne : xs.map write = []
    · rw [hne]
      rfl
    · exact (tight_spaced hne (words_write h)).trim_eq
  rw [readScalars, htrim, dropWhile_of_forall (ne_bracket_of_mem_spaced h), mapM_words_spaced h]

/-- So is one in brackets. -/
theorem readScalars_inBrackets (h : ∀ x ∈ xs, Scalar.ofText? (write x) = some x) :
    readScalars (inBrackets (spaced (xs.map write))) = .ok xs := by
  have htight : Tight (inBrackets (spaced (xs.map write))) := .enclosed (by decide) (by decide)
  have hstart : ∀ c ∈ spaced (xs.map write) ++ [']'], decide (c = '[') = false :=
    List.forall_mem_append.mpr ⟨ne_bracket_of_mem_spaced h, List.forall_mem_singleton.mpr rfl⟩
  rw [readScalars, htight.trim_eq, inBrackets, List.dropWhile_cons_of_pos (by simp),
    dropWhile_of_forall hstart, dropEndWhile_append (by simp), mapM_words_spaced h]

end Lists

/-! ### Membership functions -/

/-- The kind and the parameters that are written for a curve. There is no kind for polygons: what is
written for one is not read. -/
def membership : Shape α → String × List α
  | .triangular a b c => ("trimf", [a, b, c])
  | .trapezoidal a b c d => ("trapmf", [a, b, c, d])
  | .gaussian width center => ("gaussmf", [width, center])
  | .twoSidedGaussian width₁ center₁ width₂ center₂ =>
    ("gauss2mf", [width₁, center₁, width₂, center₂])
  | .bell a b c => ("gbellmf", [a, b, c])
  | .sigmoid slope center => ("sigmf", [slope, center])
  | .sigmoidProduct slope₁ center₁ slope₂ center₂ => ("psigmf", [slope₁, center₁, slope₂, center₂])
  | .sigmoidDifference slope₁ center₁ slope₂ center₂ =>
    ("dsigmf", [slope₁, center₁, slope₂, center₂])
  | .sShaped a b => ("smf", [a, b])
  | .zShaped a b => ("zmf", [a, b])
  | .piShaped a b c d => ("pimf", [a, b, c, d])
  | .piecewise points => ("", points.flatMap fun (x, y) ↦ [x, y])

/-- The kinds of membership functions. -/
private def kinds : List String :=
  ["trimf", "trapmf", "gaussmf", "gauss2mf", "gbellmf", "sigmf", "psigmf", "dsigmf", "smf", "zmf",
    "pimf"]

omit [Scalar α] in
/-- All curves but polygons have a kind, which is a word. -/
theorem isWord_kind {shape : Shape α} (hshape : ∀ points, shape ≠ .piecewise points) :
    IsWord (membership shape).1.toList := by
  have hmem : (membership shape).1 ∈ kinds := by
    cases shape with
    | piecewise points => exact absurd rfl (hshape points)
    | _ => simp [membership, kinds]
  have hkinds : ∀ kind ∈ kinds, IsWord kind.toList := by decide
  exact hkinds _ hmem

/-- The text of a membership function: the label and the kind in quotes, and the parameters in
brackets. -/
def membershipText (label kind parameters : List Char) : List Char :=
  inQuotes label ++ (':' :: (inQuotes kind ++ (',' :: inBrackets parameters)))

section Cutting

variable {β : Type} {accept : List Char → Option β} {before after : List Char}

private theorem cutAtLastQuote_append_eq_none (h : '\x27' ∉ before)
    (hafter : cutAtLastQuote accept after = none) :
    cutAtLastQuote accept (before ++ after) = none := by
  induction before with
  | nil => exact hafter
  | cons c before ih =>
    rw [List.mem_cons, not_or] at h
    rw [List.cons_append, cutAtLastQuote, ih h.2, if_neg (Ne.symm h.1)]

private theorem cutAtLastQuote_quote_eq_none (h : accept after = none)
    (hafter : cutAtLastQuote accept after = none) :
    cutAtLastQuote accept ('\x27' :: after) = none := by
  rw [cutAtLastQuote, hafter, if_pos rfl, h, Option.map_none]

private theorem cutAtLastQuote_append {found : β} (h : accept after = some found)
    (hafter : cutAtLastQuote accept after = none) :
    cutAtLastQuote accept (before ++ '\x27' :: after) = some (before, found) := by
  induction before with
  | nil => rw [List.nil_append, cutAtLastQuote, hafter, if_pos rfl, h, Option.map_some]
  | cons c before ih => rw [List.cons_append, cutAtLastQuote, ih]

end Cutting

private theorem afterMark_cons {mark c : Char} {cs : List Char} (hc : isBlank c = false) :
    afterMark mark (c :: cs) = if c = mark then some cs else none := by
  rw [afterMark, trimStart, List.dropWhile_cons_of_neg (by simp [hc])]

private theorem membershipParts?_text {label kind parameters : List Char} (hkind : IsWord kind)
    (hparameters : '\x27' ∉ parameters) :
    membershipParts? (membershipText label kind parameters) =
      some (label, kind, parameters) := by
  have hquote : '\x27' ∉ kind := fun hm ↦ ne_of_isNumeralChar (hkind.2 _ hm) (by decide) rfl
  -- What follows the kind, and what follows the label.
  obtain ⟨list, hlist⟩ : ∃ list, list = ',' :: inBrackets parameters := ⟨_, rfl⟩
  obtain ⟨rest, hrest⟩ : ∃ rest, rest = '\x27' :: (kind ++ '\x27' :: list) := ⟨_, rfl⟩
  have htext : membershipText label kind parameters =
      '\x27' :: (label ++ '\x27' :: ':' :: rest) := by
    simp [membershipText, inQuotes, hrest, hlist]
  have hnone {β : Type} (accept : List Char → Option β) : cutAtLastQuote accept list = none := by
    have hlistQuote : '\x27' ∉ list := by simpa [hlist, inBrackets] using hparameters
    have hend : cutAtLastQuote accept [] = none := rfl
    have h := cutAtLastQuote_append_eq_none hlistQuote hend
    rwa [List.append_nil] at h
  have hfound : kindAndParameters? (':' :: rest) = some (kind, parameters) := by
    have hparameterList : parameterList? list = some parameters := by
      rw [hlist, parameterList?, afterMark_cons (by decide), if_pos rfl]
      simp [inBrackets, afterMark_cons (show isBlank '[' = false by decide)]
    rw [kindAndParameters?, afterMark_cons (by decide), if_pos rfl, hrest]
    simp only [Option.bind_eq_bind, Option.bind_some]
    rw [afterMark_cons (by decide), if_pos rfl]
    exact cutAtLastQuote_append hparameterList (hnone _)
  -- Neither the quotes around the kind nor a quote behind them are followed by a kind.
  have hkindNone : kindAndParameters? (kind ++ '\x27' :: list) = none := by
    obtain ⟨k, ks, rfl⟩ := List.exists_cons_of_ne_nil hkind.1
    have hblank := bare_of_isWord hkind k List.mem_cons_self
    have hcolon : k ≠ ':' := ne_of_isNumeralChar (hkind.2 k List.mem_cons_self) (by decide)
    rw [kindAndParameters?, List.cons_append, afterMark_cons hblank, if_neg hcolon]
    rfl
  have hlistNone : kindAndParameters? list = none := by
    rw [hlist, kindAndParameters?, afterMark_cons (by decide), if_neg (by decide)]
    rfl
  have hafter : cutAtLastQuote kindAndParameters? (':' :: rest) = none := by
    have hkindEnd := cutAtLastQuote_append_eq_none hquote
      (cutAtLastQuote_quote_eq_none hlistNone (hnone _))
    have hkindStart := cutAtLastQuote_quote_eq_none hkindNone hkindEnd
    rw [← hrest] at hkindStart
    have hcolonQuote : '\x27' ∉ [':'] := by decide
    exact cutAtLastQuote_append_eq_none hcolonQuote hkindStart
  rw [htext, membershipParts?]
  exact cutAtLastQuote_append hfound hafter

/-- A membership function is read back. -/
theorem readMembership_text [Scalar.OrderedFinite α] {label : List Char} {shape : Shape α}
    {write : α → List Char} (hshape : ∀ points, shape ≠ .piecewise points)
    (hvalid : shape.WellFormed)
    (hwrite : ∀ x ∈ (membership shape).2, Scalar.ofText? (write x) = some x) :
    readMembership (membershipText label (membership shape).1.toList
      (spaced ((membership shape).2.map write))) = .ok (String.ofList label, .shape shape) := by
  have hparameters : '\x27' ∉ spaced ((membership shape).2.map write) := by
    have hall := forall_mem_spaced_write (p := (· ≠ '\x27')) (by decide)
      (fun _ hc ↦ ne_of_isNumeralChar hc (by decide)) hwrite
    exact fun hm ↦ hall _ hm rfl
  have hparts : membershipParts? (membershipText label (membership shape).1.toList
      (spaced ((membership shape).2.map write))) =
        some (label, (membership shape).1.toList, spaced ((membership shape).2.map write)) :=
    membershipParts?_text (isWord_kind hshape) hparameters
  have hshapeOf : shapeOf (membership shape).1 (membership shape).2 = .ok shape := by
    cases shape with
    | piecewise points => exact absurd rfl (hshape points)
    | _ => rfl
  have hchecked : (FuzzySet.shape shape).checked = .ok (.shape shape) := by
    have hvalidate : (FuzzySet.shape shape).validate = .ok () :=
      FuzzySet.validate_eq_ok_iff.mpr (FuzzySet.wellFormed_shape_iff.mpr hvalid)
    rw [FuzzySet.checked, hvalidate]
  rw [readMembership, hparts]
  simp only [readScalars_spaced hwrite, ok_bind, String.ofList_toList, hshapeOf, hchecked]
  rfl

end FuzzyInference.FisText
