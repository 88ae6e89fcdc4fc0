import FuzzyInference.Proofs.Decimal.Written

/-!
# Floating constants

The grammar of decimal floating constants in C, and which numbers are written as one: all finite
numbers are, behind a sign if they are negative, and neither an infinity nor a value that is no
number is.
-/

namespace FuzzyInference.CSource

open Decimal

/-- The exponent of a constant: digits behind a mark and perhaps a sign. -/
inductive IsExponentPart : List Char → Prop
  | unsigned {cs : List Char} : IsDigits cs → IsExponentPart ('e' :: cs)
  | signed {sign : Char} {cs : List Char} :
    sign = '+' ∨ sign = '-' → IsDigits cs → IsExponentPart ('e' :: sign :: cs)

/-- A decimal floating constant: digits with a point somewhere and perhaps an exponent, or digits
without a point and an exponent. -/
inductive IsFloatingConstant : List Char → Prop
  | fractional {whole fraction : List Char} :
    IsDigits (whole ++ fraction) → IsFloatingConstant (whole ++ '.' :: fraction)
  | fractionalScaled {whole fraction exponent : List Char} :
    IsDigits (whole ++ fraction) → IsExponentPart exponent →
      IsFloatingConstant (whole ++ '.' :: (fraction ++ exponent))
  | scaled {whole exponent : List Char} :
    IsDigits whole → IsExponentPart exponent → IsFloatingConstant (whole ++ exponent)

/-- A floating constant, or one behind a sign. -/
def IsNumericLiteral (text : String) : Prop :=
  IsFloatingConstant text.toList ∨ ∃ cs, text.toList = '-' :: cs ∧ IsFloatingConstant cs

/-- The characters that constants consist of. -/
private def constantChar (c : Char) : Bool := c.isDigit || ['.', 'e', '+', '-'].contains c

private theorem constantChar_of_isDigits {cs : List Char} (h : IsDigits cs) :
    ∀ c ∈ cs, constantChar c = true := by
  intro c hc
  rw [constantChar, h.2 c hc, Bool.true_or]

private theorem constantChar_of_isExponentPart {cs : List Char} (h : IsExponentPart cs) :
    ∀ c ∈ cs, constantChar c = true := by
  cases h with
  | unsigned hd => exact List.forall_mem_cons.mpr ⟨by decide, constantChar_of_isDigits hd⟩
  | signed hs hd =>
    refine List.forall_mem_cons.mpr ⟨by decide, List.forall_mem_cons.mpr ⟨?_,
      constantChar_of_isDigits hd⟩⟩
    rcases hs with rfl | rfl <;> decide

private theorem constantChar_of_isFloatingConstant {cs : List Char} (h : IsFloatingConstant cs) :
    ∀ c ∈ cs, constantChar c = true := by
  cases h with
  | fractional hd =>
    have hd := List.forall_mem_append.mp (constantChar_of_isDigits hd)
    exact List.forall_mem_append.mpr ⟨hd.1, List.forall_mem_cons.mpr ⟨by decide, hd.2⟩⟩
  | fractionalScaled hd he =>
    have hd := List.forall_mem_append.mp (constantChar_of_isDigits hd)
    exact List.forall_mem_append.mpr ⟨hd.1, List.forall_mem_cons.mpr ⟨by decide,
      List.forall_mem_append.mpr ⟨hd.2, constantChar_of_isExponentPart he⟩⟩⟩
  | scaled hd he =>
    exact List.forall_mem_append.mpr
      ⟨constantChar_of_isDigits hd, constantChar_of_isExponentPart he⟩

private theorem constantChar_of_isNumericLiteral {text : String} (h : IsNumericLiteral text) :
    ∀ c ∈ text.toList, constantChar c = true := by
  rcases h with h | ⟨cs, he, h⟩
  · exact constantChar_of_isFloatingConstant h
  · rw [he]
    exact List.forall_mem_cons.mpr ⟨by decide, constantChar_of_isFloatingConstant h⟩

/-! ### Decimals -/

private theorem isFloatingConstant_positionalText {layout : Layout}
    (hp : layout.pointZero = true) {d : Decimal} (hd : 0 < d.digits ∨ d.exponent ≤ 0) :
    IsFloatingConstant (d.positionalText layout) := by
  obtain ⟨whole, fraction, hw, hne⟩ := written_positionalText hp hd
  rw [hw.eq]
  have hwhole : IsDigits whole := by
    cases hw.whole with
    | zero => exact ⟨by simp, by simp⟩
    | digits _ hd => exact hd
  cases hw.fraction with
  | none => exact absurd rfl hne
  | digits hf =>
    rw [List.append_nil]
    exact .fractional (hwhole.append hf.2)

private theorem isFloatingConstant_exponentText (layout : Layout) (d : Decimal) :
    IsFloatingConstant (d.exponentText layout) := by
  have hdigits := isDigits_digitChars d.digits
  have hexponent : IsExponentPart ('e' ::
      ((if d.leadingExponent < 0 then ['-'] else if layout.signedExponent then ['+'] else []) ++
        digitChars d.leadingExponent.natAbs)) := by
    have he := isDigits_digitChars d.leadingExponent.natAbs
    split
    · exact .signed (.inr rfl) he
    · split
      · exact .signed (.inl rfl) he
      · exact .unsigned he
  unfold exponentText
  simp only [List.append_assoc, List.cons_append]
  split
  · next first second rest hcs =>
    rw [hcs] at hdigits
    have hdigits : IsDigits ([first] ++ second :: rest) := hdigits
    exact .fractionalScaled hdigits hexponent
  · exact .scaled hdigits hexponent

private theorem isFloatingConstant_text {layout : Layout} (hp : layout.pointZero = true)
    {d : Decimal} (hd : 0 < d.digits ∨ d.exponent ≤ 0) : IsFloatingConstant (d.text layout) := by
  unfold text
  split
  · exact isFloatingConstant_positionalText hp hd
  · exact isFloatingConstant_exponentText layout d

/-- The magnitude of a number is written as a floating constant. -/
theorem isFloatingConstant_magnitude (x : Float) :
    IsFloatingConstant (Layout.literal.magnitude x) :=
  isFloatingConstant_text rfl (digits_pos_shortest _ _)

/-! ### Main results -/

/-- A number is written as a floating constant, behind a sign if it is negative, exactly when it is
finite. -/
theorem isNumericLiteral_render_iff {x : Float} :
    IsNumericLiteral (Layout.literal.render x) ↔ x.isFinite = true := by
  constructor
  · intro h
    have hchars := constantChar_of_isNumericLiteral h
    rw [Layout.isFinite_iff]
    rw [Layout.render] at hchars
    cases hn : x.isNaN with
    | true =>
      rw [hn, if_pos rfl] at hchars
      exact absurd (hchars 'N' (by decide)) (by decide)
    | false =>
      rw [hn, if_neg (by decide)] at hchars
      cases hi : x.isInf with
      | false => exact ⟨rfl, rfl⟩
      | true =>
        rw [hi, if_pos rfl] at hchars
        split at hchars
        · exact absurd (hchars 'n' (by decide)) (by decide)
        · exact absurd (hchars 'n' (by decide)) (by decide)
  · intro h
    rw [IsNumericLiteral, Layout.toList_render h]
    cases Layout.signBit x with
    | false => exact .inl (isFloatingConstant_magnitude x)
    | true => exact .inr ⟨_, rfl, isFloatingConstant_magnitude x⟩

end FuzzyInference.CSource
