import FuzzyInference.Decimal.Layout

/-!
# Fixed decimal places

A machine number rounded to a given number of decimal places. The exact binary value is rounded,
and a value halfway between two decimals goes to the one with the even last digit.
-/

namespace FuzzyInference.Decimal

/-- A quotient rounded to the nearest natural number, halves to the even one. -/
def roundDiv (num den : Nat) : Nat :=
  let q := num / den
  match compare (2 * (num % den)) den with
  | .lt => q
  | .gt => q + 1
  | .eq => if q % 2 = 0 then q else q + 1

/-- Digits with `places` of them behind a decimal point, and no point for none. -/
def placesText (n places : Nat) : List Char :=
  let digits := digitChars n
  let padded := List.replicate (places + 1 - digits.length) '0' ++ digits
  let whole := padded.take (padded.length - places)
  if places = 0 then whole else whole ++ '.' :: padded.drop (padded.length - places)

/-- The text of a machine number with exactly `places` decimals. -/
def fixedText (places : Nat) (x : Float) : String :=
  if x.isNaN || x.isInf then Layout.plain.render x
  else
    let d := Dyadic.ofFloat x
    let n := roundDiv (Dyadic.numerator d.mantissa d.exponent * Nat.pow 10 places)
      (Dyadic.denominator d.exponent)
    String.ofList (if Layout.signBit x then '-' :: placesText n places else placesText n places)

end FuzzyInference.Decimal
