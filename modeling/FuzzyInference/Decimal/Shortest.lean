import FuzzyInference.Decimal.Dyadic

/-!
# Shortest decimals

The decimal with the fewest digits that reads back to a given machine number. For one digit, two
digits and so on, the two multiples of the power of ten at hand that enclose the number are tried;
the first length at which one reads back wins, and of two such the nearer.
-/

namespace FuzzyInference

/-- Which of two equally near decimals is chosen. -/
inductive Tie where
  /-- The larger one. -/
  | up
  /-- The one whose last digit is even. -/
  | even
  deriving Repr, DecidableEq

namespace Decimal

/-- A decimal of at most this many digits identifies every machine number. -/
def maxDigits : Nat := 17

/-- The same number without trailing zeros; `fuel` bounds how many are dropped. -/
def stripZeros : Nat → Decimal → Decimal
  | 0, d => d
  | fuel + 1, d =>
    if d.digits % 10 = 0 then stripZeros fuel ⟨d.digits / 10, d.exponent + 1⟩ else d

end Decimal

namespace Dyadic

/-- An exponent `k` with `x < 10 ^ k`, the least one for a positive number. The first guess comes
from the binary logarithm and is at most one too small. -/
def decimalScale (x : Dyadic) : Int :=
  let guess := ((x.mantissa.log2 : Int) + x.exponent) * 30103 / 100000 + 1
  if x.countBelow guess = 0 then guess else guess + 1

/-- Of two neighbouring multiples of `10 ^ k` around the number, the one to be written. -/
def choose (tie : Tie) (x : Dyadic) (k : Int) : Option Decimal :=
  let below : Decimal := ⟨x.countBelow k, k⟩
  let above : Decimal := ⟨x.countBelow k + 1, k⟩
  match x.readsBack below, x.readsBack above with
  | false, false => none
  | true, false => some below
  | false, true => some above
  | true, true =>
    -- twice the number against the sum of the two candidates
    match compareScaled (2 * x.mantissa) x.exponent ⟨below.digits + above.digits, k⟩ with
    | .lt => some below
    | .gt => some above
    | .eq =>
      match tie with
      | .up => some above
      | .even => some (if below.digits % 2 = 0 then below else above)

/-- The exact value as a decimal. -/
def toDecimal (x : Dyadic) : Decimal :=
  ⟨numerator x.mantissa x.exponent * Nat.pow 5 (-x.exponent).toNat, min x.exponent 0⟩

/-- The decimal with the fewest digits that reads back to the number, without trailing zeros. -/
def shortest (tie : Tie) (x : Dyadic) : Decimal :=
  if x.mantissa = 0 then ⟨0, 0⟩
  else
    let scale := x.decimalScale
    let found := (List.range Decimal.maxDigits).findSome? fun (n : Nat) =>
      x.choose tie (scale - 1 - n)
    (found.getD x.toDecimal).stripZeros 400

end Dyadic

end FuzzyInference
