import FuzzyInference.Decimal.Shortest

/-!
# Layouts of numbers

How a selected decimal is written. A `Layout` records the decisions of one output format: where
positional notation ends, whether a whole number keeps a decimal point, how an exponent is marked,
and which way ties between equally short decimals go.
-/

namespace FuzzyInference

/-- The decisions of one format for machine numbers. -/
structure Layout where
  /-- Whether a number whose leading digit stands at `10 ^ e` is written without an exponent. -/
  positional : Int → Bool
  /-- Whole numbers in positional notation end in a point and a zero. -/
  pointZero : Bool
  /-- Positive exponents carry a plus sign. -/
  signedExponent : Bool
  /-- The choice between two equally near decimals of one length. -/
  tie : Tie

namespace Layout

/-- Numbers in sentences: never an exponent, and whole numbers without a point. -/
def plain : Layout where
  positional _ := true
  pointZero := false
  signedExponent := false
  tie := .up

/-- Numeric literals of program text: always a point or an exponent, positional from `10 ^ -4` up
to below `10 ^ 16`. -/
def literal : Layout where
  positional e := -4 ≤ e && e < 16
  pointZero := true
  signedExponent := false
  tie := .up

/-- Numbers of interchange texts: always a point or an exponent, positional from `10 ^ -5` up to
below `10 ^ 16`, and a sign on every exponent. -/
def interchange : Layout where
  positional e := -5 ≤ e && e < 16
  pointZero := true
  signedExponent := true
  tie := .even

end Layout

namespace Decimal

/-- The decimal digits of a natural number, most significant first. -/
def digitChars (n : Nat) : List Char := Nat.toDigits 10 n

/-- The exponent of ten at which the leading digit stands. -/
def leadingExponent (d : Decimal) : Int := d.exponent + (digitChars d.digits).length - 1

/-- Digits with a decimal point in their place. -/
def positionalText (layout : Layout) (d : Decimal) : List Char :=
  let digits := digitChars d.digits
  if 0 ≤ d.exponent then
    digits ++ List.replicate d.exponent.toNat '0' ++ if layout.pointZero then ['.', '0'] else []
  else
    let places := (-d.exponent).toNat
    if places < digits.length then
      digits.take (digits.length - places) ++ '.' :: digits.drop (digits.length - places)
    else '0' :: '.' :: List.replicate (places - digits.length) '0' ++ digits

/-- Digits with the point after the first one, and an exponent. -/
def exponentText (layout : Layout) (d : Decimal) : List Char :=
  let e := d.leadingExponent
  let point := match digitChars d.digits with
    | first :: second :: rest => first :: '.' :: second :: rest
    | short => short
  let sign := if e < 0 then ['-'] else if layout.signedExponent then ['+'] else []
  point ++ 'e' :: sign ++ digitChars e.natAbs

/-- A decimal laid out. -/
def text (layout : Layout) (d : Decimal) : List Char :=
  if d.digits = 0 || layout.positional d.leadingExponent then d.positionalText layout
  else d.exponentText layout

end Decimal

namespace Layout

/-- The sign bit is set, on a zero as well. -/
def signBit (x : Float) : Bool := x.toBits.toNat.testBit 63

/-- The characters of a number's magnitude, without a sign. -/
def magnitude (layout : Layout) (x : Float) : List Char :=
  ((Dyadic.ofFloat x).shortest layout.tie).text layout

/-- The text of a machine number. -/
def render (layout : Layout) (x : Float) : String :=
  if x.isNaN then "NaN"
  else if x.isInf then (if x < 0 then "-inf" else "inf")
  else String.ofList (if signBit x then '-' :: layout.magnitude x else layout.magnitude x)

/-- The text of a list of numbers: bracketed, and separated by a comma and a blank. -/
def renderList (layout : Layout) (xs : List Float) : String :=
  "[" ++ String.intercalate ", " (xs.map layout.render) ++ "]"

end Layout

end FuzzyInference
