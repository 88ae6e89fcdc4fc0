/-!
# Dyadic numbers

The exact value of a finite binary64 number, as an integer multiple of a power of two, and its
comparison with decimals. Everything here is integer arithmetic.
-/

namespace FuzzyInference

/-- The non-negative number `mantissa * 2 ^ exponent`. -/
structure Dyadic where
  /-- The integer that the power of two multiplies. -/
  mantissa : Nat
  /-- The exponent of two. -/
  exponent : Int
  /-- The neighbouring machine number below is only half as far away as the one above. -/
  narrowBelow : Bool
  deriving Repr, DecidableEq

/-- The non-negative number `digits * 10 ^ exponent`. -/
structure Decimal where
  /-- The integer that the power of ten multiplies. -/
  digits : Nat
  /-- The exponent of ten. -/
  exponent : Int
  deriving Repr, DecidableEq

namespace Dyadic

/-- The magnitude of a finite machine number. -/
def ofFloat (x : Float) : Dyadic :=
  let bits : Nat := x.toBits.toNat
  let field : Nat := bits / Nat.pow 2 52 % Nat.pow 2 11
  let fraction := bits % Nat.pow 2 52
  if field = 0 then ⟨fraction, -1074, false⟩
  else ⟨Nat.pow 2 52 + fraction, (field : Int) - 1075, fraction = 0 && 1 < field⟩

/-- Numerator of `n * 2 ^ k`, over the denominator `denominator k`. -/
def numerator (n : Nat) (k : Int) : Nat := n * Nat.pow 2 k.toNat

/-- Denominator of a multiple of `2 ^ k`. -/
def denominator (k : Int) : Nat := Nat.pow 2 (-k).toNat

/-- `n * 2 ^ k` compared with a decimal. -/
def compareScaled (n : Nat) (k : Int) (d : Decimal) : Ordering :=
  compare (numerator n k * Nat.pow 10 (-d.exponent).toNat)
    (d.digits * Nat.pow 10 d.exponent.toNat * denominator k)

/-- A decimal lies among the reals whose nearest machine number is this one. The two ends of that
interval belong to it exactly when the mantissa is even. -/
def readsBack (x : Dyadic) (d : Decimal) : Bool :=
  let low := compareScaled (4 * x.mantissa - if x.narrowBelow then 1 else 2) (x.exponent - 2) d
  let high := compareScaled (4 * x.mantissa + 2) (x.exponent - 2) d
  if x.mantissa % 2 = 0 then low.isLE && high.isGE else low.isLT && high.isGT

/-- The number of whole multiples of `10 ^ k` below or at the number. -/
def countBelow (x : Dyadic) (k : Int) : Nat :=
  numerator x.mantissa x.exponent * Nat.pow 10 (-k).toNat /
    (Nat.pow 10 k.toNat * denominator x.exponent)

end Dyadic

end FuzzyInference
