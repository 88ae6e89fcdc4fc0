import FuzzyInference.Json.Printer
import FuzzyInference.Json.Token
import FuzzyInference.Proofs.Decimal.Numeral
import Mathlib.Algebra.Group.Int.Defs
import Mathlib.Data.List.TakeWhile

/-!
# Reading written numbers

A number is read back from its text: a whole number as a whole number, and any other one as such,
even if its value is whole, since its text has a fraction or an exponent.
-/

namespace FuzzyInference.Json.Token

open Decimal
open Numeral (signed ofText?_signed)

variable {cs whole fraction exponent rest : List Char}

/-! ### The form of a number -/

private theorem dropDigits?_append (h : IsDigits cs) (hr : rest.dropWhile Char.isDigit = rest) :
    dropDigits? (cs ++ rest) = some rest := by
  obtain ⟨hne, hall⟩ := h
  cases cs with
  | nil => exact absurd rfl hne
  | cons c cs =>
    rw [List.forall_mem_cons] at hall
    rw [List.cons_append, dropDigits?, if_pos hall.1, List.dropWhile_append_of_pos hall.2, hr]

private theorem dropWhole?_append (h : IsWhole cs) (hr : rest.dropWhile Char.isDigit = rest) :
    dropWhole? (cs ++ rest) = some rest := by
  cases h with
  | zero => rfl
  | @digits c cs hc hd =>
    obtain ⟨-, hall⟩ := hd
    rw [List.forall_mem_cons] at hall
    rw [List.cons_append, dropWhole?]
    · rw [isPositiveDigit, hall.1, Bool.true_and, if_pos (by simpa using hc),
        List.dropWhile_append_of_pos hall.2, hr]
    · exact hc

private theorem dropWhile_exponent (h : IsExponent cs) : cs.dropWhile Char.isDigit = cs := by
  cases h <;> rfl

private theorem dropWhile_fraction (hf : IsFraction fraction) (he : IsExponent exponent) :
    (fraction ++ exponent).dropWhile Char.isDigit = fraction ++ exponent := by
  cases hf with
  | none => exact dropWhile_exponent he
  | digits => rfl

private theorem dropFraction?_append (hf : IsFraction fraction) (he : IsExponent exponent) :
    dropFraction? (fraction ++ exponent) = some exponent := by
  cases hf with
  | none => cases he <;> rfl
  | digits hd => exact dropDigits?_append hd (dropWhile_exponent he)

private theorem dropExponent?_eq (h : IsExponent cs) : dropExponent? cs = some [] := by
  cases h with
  | none => rfl
  | @digits sign ds hs hd =>
    have hdrop : dropDigits? (ds ++ []) = some [] := dropDigits?_append hd rfl
    rw [List.append_nil] at hdrop
    rcases hs with rfl | rfl <;> exact hdrop

private theorem exists_digit_of_written (h : Written cs whole fraction exponent) :
    ∃ c ds, cs = c :: ds ∧ c.isDigit = true := by
  obtain ⟨rfl, hw, -, -⟩ := h
  cases hw with
  | zero => exact ⟨'0', _, rfl, rfl⟩
  | @digits c ds hc hd => exact ⟨c, _, rfl, hd.2 c List.mem_cons_self⟩

private theorem isNumber_of_written (h : Written cs whole fraction exponent) :
    isNumber cs = true ∧ isNumber ('-' :: cs) = true := by
  obtain ⟨c, ds, hcs, hc⟩ := exists_digit_of_written h
  have hdrop : ((dropWhole? cs).bind dropFraction?).bind dropExponent? = some [] := by
    rw [h.eq, dropWhole?_append h.whole (dropWhile_fraction h.fraction h.exponent),
      Option.bind_some, dropFraction?_append h.fraction h.exponent, Option.bind_some,
      dropExponent?_eq h.exponent]
  have hsign : c ≠ '-' := by
    rintro rfl
    cases hc
  unfold isNumber
  constructor
  · split
    · cases hcs
      exact absurd rfl hsign
    · simp [hdrop]
  · simp [hdrop]

private theorem endsWord_of_isDigit {c : Char} (hc : c.isDigit = true) : endsWord c = false := by
  have hne (d : Char) (hd : d.isDigit = false) : c ≠ d := by
    rintro rfl
    rw [hc] at hd
    cases hd
  have hmark : ofMark? c = none := by
    unfold ofMark?
    split <;> first | rfl | exact absurd hc (by decide)
  simp only [endsWord, isSpace, hmark, hne '"' rfl, hne ' ' rfl, hne '\t' rfl, hne '\n' rfl,
    hne '\r' rfl, decide_false, Bool.or_self, Option.isSome_none]

private theorem endsWord_of_written (h : Written cs whole fraction exponent) :
    ∀ c ∈ cs, endsWord c = false := by
  have hdigits {ds : List Char} (hd : IsDigits ds) : ∀ c ∈ ds, endsWord c = false :=
    fun c hm ↦ endsWord_of_isDigit (hd.2 c hm)
  obtain ⟨rfl, hw, hf, he⟩ := h
  simp only [List.forall_mem_append]
  refine ⟨?_, ?_, ?_⟩
  · cases hw with
    | zero => exact List.forall_mem_singleton.mpr rfl
    | digits _ hd => exact hdigits hd
  · cases hf with
    | none => exact fun c hm ↦ absurd hm List.not_mem_nil
    | digits hd => exact List.forall_mem_cons.mpr ⟨by decide, hdigits hd⟩
  · cases he with
    | none => exact fun c hm ↦ absurd hm List.not_mem_nil
    | digits hs hd =>
      refine List.forall_mem_cons.mpr ⟨by decide, List.forall_mem_cons.mpr ⟨?_, hdigits hd⟩⟩
      rcases hs with rfl | rfl <;> decide

private theorem ofWord?_of_isNumber {c : Char} {ds : List Char} (hc : c.isDigit = true ∨ c = '-')
    (hn : isNumber (c :: ds) = true) :
    ofWord? (c :: ds) = some (plain (numberValue (c :: ds))) := by
  have hliteral (s : String) (d : Char) (es : List Char) (hs : s.toList = d :: es)
      (hd : d.isDigit = false ∧ d ≠ '-') : String.ofList (c :: ds) ≠ s := by
    rintro rfl
    rw [String.toList_ofList] at hs
    cases hs
    simp [hd] at hc
  unfold ofWord?
  split
  · next h => exact absurd h (hliteral _ 'n' _ rfl (by decide))
  · next h => exact absurd h (hliteral _ 't' _ rfl (by decide))
  · next h => exact absurd h (hliteral _ 'f' _ rfl (by decide))
  · rw [if_pos hn]

/-! ### The value of a number -/

private theorem magnitude?_digitChars (n : Nat) :
    Numeral.magnitude? (digitChars n) = some ⟨n, 0⟩ := by
  obtain ⟨hne, hall⟩ := isDigits_digitChars n
  have hdrop : (digitChars n).dropWhile Char.isDigit = [] :=
    List.dropWhile_eq_nil_iff.mpr hall
  have htake : (digitChars n).takeWhile Char.isDigit = digitChars n :=
    List.takeWhile_eq_self_iff.mpr hall
  have hvalue : Numeral.ofDigits (digitChars n) = n := Nat.ofDigitChars_ten_toDigits
  rw [Numeral.magnitude?, hdrop, htake]
  simp [hne, Numeral.exponent?, Numeral.decimalOf, hvalue]

private theorem ofWord?_signed (h : Written cs whole fraction exponent) (negative : Bool) :
    ofWord? (signed negative cs) = some (plain (numberValue (signed negative cs))) := by
  obtain ⟨c, ds, rfl, hc⟩ := exists_digit_of_written h
  obtain ⟨hplain, hminus⟩ := isNumber_of_written h
  cases negative with
  | false => exact ofWord?_of_isNumber (.inl hc) hplain
  | true => exact ofWord?_of_isNumber (.inr rfl) hminus

private theorem endsWord_signed (h : Written cs whole fraction exponent) (negative : Bool) :
    ∀ c ∈ signed negative cs, endsWord c = false := by
  have hall := endsWord_of_written h
  cases negative with
  | false => exact hall
  | true => exact List.forall_mem_cons.mpr ⟨by decide, hall⟩

private theorem written_digitChars (n : Nat) : Written (digitChars n) (digitChars n) [] [] :=
  ⟨by simp, isWhole_digitChars n, .none, .none⟩

private theorem leafText_integer (n : Int) :
    leafText (integer n) = signed (decide (n < 0)) (digitChars n.natAbs) := by
  rw [leafText, signed]
  by_cases hn : n < 0 <;> simp [hn]

/-- No character of a whole number ends a word. -/
theorem endsWord_integer (n : Int) : ∀ c ∈ leafText (integer n), endsWord c = false := by
  rw [leafText_integer]
  exact endsWord_signed (written_digitChars _) _

/-- A whole number of 64 bits is read back. -/
theorem ofWord?_integer {n : Int} (hlow : -(2 ^ 63) ≤ n) (hhigh : n < 2 ^ 64) :
    ofWord? (leafText (integer n)) = some (plain (integer n)) := by
  have hw := written_digitChars n.natAbs
  obtain ⟨c, ds, hcs, hc⟩ := exists_digit_of_written hw
  have hvalue : Numeral.ofText? (signed (decide (n < 0)) (digitChars n.natAbs)) =
      some (.decimal (decide (n < 0)) ⟨n.natAbs, 0⟩) := by
    rw [hcs, ofText?_signed (.inl hc), ← hcs, magnitude?_digitChars, Option.map_some]
  have hall : (signed (decide (n < 0)) (digitChars n.natAbs)).all
      (fun c ↦ c.isDigit || c = '-') = true := by
    have hdigits := (isDigits_digitChars n.natAbs).2
    rw [List.all_eq_true]
    intro d hd
    cases hneg : decide (n < 0) with
    | false =>
      rw [hneg] at hd
      simp [hdigits d hd]
    | true =>
      rw [hneg] at hd
      rcases List.mem_cons.mp hd with rfl | hd
      · rfl
      · simp [hdigits d hd]
  rw [leafText_integer, ofWord?_signed hw, numberValue, hvalue]
  have hbound : (if decide (n < 0) = true then 0 < n.natAbs && n.natAbs ≤ Nat.pow 2 63
      else n.natAbs < Nat.pow 2 64) = true := by
    rw [show Nat.pow 2 63 = 2 ^ 63 from rfl, show Nat.pow 2 64 = 2 ^ 64 from rfl]
    by_cases hneg : n < 0
    · simp only [hneg, decide_true, if_true, Bool.and_eq_true, decide_eq_true_eq]
      omega
    · simp only [hneg, decide_false, Bool.false_eq_true, if_false, decide_eq_true_eq]
      omega
  have hsign : (if decide (n < 0) = true then -(n.natAbs : Int) else n.natAbs) = n := by
    by_cases hneg : n < 0
    · rw [if_pos (decide_eq_true hneg)]
      omega
    · rw [if_neg (by simpa using hneg)]
      omega
  simp only [hall, Bool.true_and]
  rw [if_pos hbound, hsign]

private theorem written_magnitude (x : Float) :
    ∃ whole fraction exponent,
      Written (Layout.interchange.magnitude x) whole fraction exponent ∧
        fraction ++ exponent ≠ [] :=
  written_text rfl rfl (digits_pos_shortest _ _)

private theorem render_eq {x : Float} (hx : x.isFinite = true) :
    (Layout.interchange.render x).toList =
      signed (Layout.signBit x) (Layout.interchange.magnitude x) :=
  Layout.toList_render hx

/-- No character of a number ends a word. -/
theorem endsWord_real {x : Float} (hx : x.isFinite = true) :
    ∀ c ∈ leafText (real x), endsWord c = false := by
  obtain ⟨_, _, _, hw, -⟩ := written_magnitude x
  rw [leafText, render_eq hx]
  exact endsWord_signed hw _

/-- A number that its digits identify is read back, and not as a whole number. -/
theorem ofWord?_real {x : Float} (hx : x.isFinite = true)
    (h : Scalar.ofText? (Layout.interchange.render x).toList = some x) :
    ofWord? (leafText (real x)) = some (plain (real x)) := by
  obtain ⟨whole, fraction, exponent, hw, hne⟩ := written_magnitude x
  obtain ⟨c, ds, hcs, hc⟩ := exists_digit_of_written hw
  -- A point or the mark of an exponent tells the word from a whole number.
  have hmark : (signed (Layout.signBit x) (Layout.interchange.magnitude x)).all
      (fun c ↦ c.isDigit || c = '-') = false := by
    have hmem : ∃ d ∈ fraction ++ exponent, (d.isDigit || decide (d = '-')) = false := by
      cases hw.fraction with
      | digits => exact ⟨'.', by simp, by decide⟩
      | none =>
        cases hw.exponent with
        | digits => exact ⟨'e', by simp, by decide⟩
        | none => exact absurd rfl hne
    obtain ⟨d, hd, hfalse⟩ := hmem
    rw [List.all_eq_false]
    refine ⟨d, ?_, by simp [hfalse]⟩
    have hcs : d ∈ Layout.interchange.magnitude x := by
      rw [hw.eq]
      exact List.mem_append_right _ hd
    cases Layout.signBit x with
    | false => exact hcs
    | true => exact List.mem_cons_of_mem _ hcs
  rw [leafText, render_eq hx, ofWord?_signed hw, numberValue, hmark]
  rw [Scalar.ofText?, render_eq hx, hcs, ofText?_signed (.inl hc), ← hcs, Option.map_map] at h
  obtain ⟨d, hd, hvalue⟩ := Option.map_eq_some_iff.mp h
  have hvalue : (Numeral.decimal (Layout.signBit x) d).value = x := hvalue
  rw [hcs, ofText?_signed (.inl hc), ← hcs, hd]
  simp only [Option.map_some, Bool.false_and, Bool.false_eq_true, if_false, hvalue]
  rw [if_pos hx]

end FuzzyInference.Json.Token
