import FuzzyInference.Decimal.Dyadic
import FuzzyInference.Scalar.Basic

/-!
# Numerals

Reading numbers from text: decimals with an optional sign, point and exponent, the words for the
infinity and for no number, and bounded whole numbers. A numeral is read exactly; `Numeral.value`
is the scalar nearest to it.
-/

namespace FuzzyInference

/-- What a numeric text denotes. -/
inductive Numeral where
  /-- No number. -/
  | nan
  /-- An infinity. -/
  | infinity (negative : Bool)
  /-- A signed decimal; zero keeps its sign. -/
  | decimal (negative : Bool) (magnitude : Decimal)
  deriving Repr, DecidableEq

namespace Numeral

/-- The scalar nearest to a numeral. -/
def value {α : Type} [Scalar α] : Numeral → α
  | nan => Scalar.nan
  | infinity negative => if negative then -Scalar.infinity else Scalar.infinity
  | decimal negative d =>
    let magnitude := Scalar.ofDecimal d.digits d.exponent
    if negative then -magnitude else magnitude

/-- The number that a run of ASCII digits denotes. -/
def ofDigits (digits : List Char) : Nat :=
  digits.foldl (fun n c => 10 * n + (c.toNat - '0'.toNat)) 0

/-- A run of digits as a number; an empty run or any other character is refused. -/
def digits? (cs : List Char) : Option Nat :=
  if cs ≠ [] && cs.all Char.isDigit then some (ofDigits cs) else none

/-- An optional sign taken off the front. -/
def splitSign : List Char → Bool × List Char
  | '-' :: rest => (true, rest)
  | '+' :: rest => (false, rest)
  | cs => (false, cs)

/-- The decimal with the given digits before and behind the point, times a power of ten. -/
def decimalOf (whole fraction : List Char) (exponent : Int) : Decimal :=
  ⟨ofDigits (whole ++ fraction), exponent - fraction.length⟩

/-- What follows the digits of a decimal: nothing, or an exponent. -/
def exponent? : List Char → Option Int
  | [] => some 0
  | mark :: rest =>
    if mark = 'e' || mark = 'E' then
      let (negative, digits) := splitSign rest
      (digits? digits).map fun n => if negative then -(n : Int) else n
    else none

/-- An unsigned decimal. Digits may be missing on one side of the point, not on both. -/
def magnitude? (cs : List Char) : Option Decimal :=
  let whole := cs.takeWhile Char.isDigit
  match cs.dropWhile Char.isDigit with
  | '.' :: rest =>
    let fraction := rest.takeWhile Char.isDigit
    if whole = [] && fraction = [] then none
    else (exponent? (rest.dropWhile Char.isDigit)).map (decimalOf whole fraction)
  | rest => if whole = [] then none else (exponent? rest).map (decimalOf whole [])

/-- The numeral that a text is, with no blanks around it. Words are read in any case. -/
def ofText? (cs : List Char) : Option Numeral :=
  let (negative, rest) := splitSign cs
  let word := String.ofList (rest.map Char.toLower)
  if word = "nan" then some nan
  else if word = "inf" || word = "infinity" then some (infinity negative)
  else (magnitude? rest).map (decimal negative)

/-- A whole number from 0 up to and including `bound`; a plus sign may stand in front. -/
def natUpTo? (bound : Nat) (cs : List Char) : Option Nat :=
  let digits := match cs with
    | '+' :: rest => rest
    | cs => cs
  (digits? digits).filter (· ≤ bound)

/-- A whole number of 64 bits, its sign included. -/
def int64? (cs : List Char) : Option Int :=
  let (negative, digits) := splitSign cs
  (digits? digits).bind fun n =>
    if negative then if n ≤ Nat.pow 2 63 then some (-(n : Int)) else none
    else if n < Nat.pow 2 63 then some n else none

end Numeral

/-- The scalar that a text denotes, when it is a numeral with no blanks around it. -/
def Scalar.ofText? {α : Type} [Scalar α] (cs : List Char) : Option α :=
  (Numeral.ofText? cs).map Numeral.value

end FuzzyInference
