import FuzzyInference.Scalar.Machine

/-!
# JSON values

The values of the interchange format. Whole numbers of at most 64 bits and all other numbers are
kept apart, since a count is told from a size by that. Objects keep their fields in order,
repetitions included.
-/

namespace FuzzyInference

/-- A JSON value. -/
inductive Json where
  /-- The null value. -/
  | null
  /-- A truth value. -/
  | bool (b : Bool)
  /-- A whole number that is written without a point and an exponent. -/
  | integer (n : Int)
  /-- Any other number; it is finite. -/
  | real (x : Float)
  /-- A text. -/
  | string (s : String)
  /-- A list of values. -/
  | array (items : List Json)
  /-- Named values. -/
  | object (fields : List (String × Json))
  /-- A well-formed value that stands for nothing: a number beyond all machine numbers, a text with
  an unpaired surrogate, or a value nested too deeply. It may stand where a reader passes over it,
  and is never written. -/
  | unusable
  deriving Inhabited

namespace Json

/-- A machine number as a value; what is not finite becomes null. -/
def ofFloat (x : Float) : Json := if x.isFinite then real x else null

mutual

/-- No part of the value is unusable. -/
def usable : Json → Bool
  | array items => usableItems items
  | object fields => usableFields fields
  | unusable => false
  | _ => true

/-- No value of a list has an unusable part. -/
def usableItems : List Json → Bool
  | [] => true
  | item :: items => usable item && usableItems items

/-- No field has an unusable part. -/
def usableFields : List (String × Json) → Bool
  | [] => true
  | (_, value) :: fields => usable value && usableFields fields

end

end Json

end FuzzyInference
