import FuzzyInference.Scalar.Basic
import FuzzyInference.Decimal.Numeral
import FuzzyInference.Text.Blank

/-!
# Points

The points of a universe of discourse: numbers, or the labels of a categorical universe.
-/

namespace FuzzyInference

/-- A number or a label. -/
inductive Point (α : Type) where
  /-- A number. -/
  | number (x : α)
  /-- A label. -/
  | label (name : String)
  deriving Repr, BEq

namespace Point

variable {α : Type}

/-- The number that a point is. -/
def number? : Point α → Option α
  | number x => some x
  | label _ => none

/-- The label that a point is. -/
def label? : Point α → Option String
  | number _ => none
  | label name => some name

/-- A point is the one that a key names. A label is named by itself; a number is named by every
numeral of the same value, with or without blanks around it. -/
def matchesKey [Scalar α] (key : String) : Point α → Bool
  | number x =>
    match (Scalar.ofText? (Text.trim key.toList) : Option α) with
    | some k => k == x
    | none => false
  | label name => name == key

end Point

end FuzzyInference
