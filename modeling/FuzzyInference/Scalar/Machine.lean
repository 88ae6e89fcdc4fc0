import FuzzyInference.Scalar.Basic

/-!
# Machine scalars

Binary64 numbers as scalars: the instance that programs run on.
-/

namespace FuzzyInference.Scalar

/-- The binary64 number nearest to `digits * 10 ^ exponent`. Powers of ten far outside the range of
the format are not computed: their result is zero or the infinity. -/
def nearestFloat (digits : Nat) (exponent : Int) : Float :=
  let magnitude := (digits.log2 : Int) * 30103 / 100000 + exponent
  if digits = 0 || magnitude < -400 then 0
  else if 400 < magnitude then 1 / 0
  else Float.ofScientific digits (exponent < 0) exponent.natAbs

/-- The place of a float in the total order of scalars: its bits read as a sign and a magnitude,
so that a negative zero comes before a positive one. -/
def rank (x : Float) : Int :=
  let bits := x.toBits.toNat
  if bits.testBit 63 then (Nat.pow 2 63 : Int) - bits - 1 else bits

instance : Scalar Float where
  decidableLT := inferInstance
  decidableLE := inferInstance
  ofNat := Float.ofNat
  ofDecimal := nearestFloat
  infinity := 1 / 0
  nan := 0 / 0
  isFinite := Float.isFinite
  abs := Float.abs
  exp := Float.exp
  pow := Float.pow
  ceilNat x := if x ≤ 0 then 0 else x.ceil.toUInt64.toNat
  totalLE x y := y.isNaN || (!x.isNaN && rank x ≤ rank y)

end FuzzyInference.Scalar
