import FuzzyInference.Decimal.Fixed
import FuzzyInference.Point

/-!
# Fields

Texts and numbers written into fields of a least width, which is counted in characters. A precision
cuts a text off and fixes the decimals of a number; texts stand at the left of their field and
numbers at the right, unless the field says otherwise.
-/

namespace FuzzyInference.Text

/-- Where a text stands in its field. -/
inductive Alignment where
  /-- At the left. -/
  | left
  /-- In the middle, or half a place left of it. -/
  | center
  /-- At the right. -/
  | right
  deriving Repr, DecidableEq

/-- How something is written into a field. -/
structure Field where
  /-- The least width. -/
  width : Nat := 0
  /-- The greatest length of a text, or the number of decimals. -/
  precision? : Option Nat := none
  /-- Where the text stands. -/
  alignment? : Option Alignment := none

namespace Field

/-- A text with blanks around it up to the width of the field. -/
def pad (f : Field) (usual : Alignment) (text : String) : String :=
  let missing := f.width - text.length
  let before := match f.alignment?.getD usual with
    | .left => 0
    | .center => missing / 2
    | .right => missing
  let blanks := fun n => String.ofList (List.replicate n ' ')
  blanks before ++ text ++ blanks (missing - before)

/-- A text in a field. -/
def writeText (f : Field) (text : String) : String :=
  f.pad .left (match f.precision? with
    | some n => String.ofList (text.toList.take n)
    | none => text)

/-- A number in a field. -/
def writeNumber (f : Field) (x : Float) : String :=
  f.pad .right (match f.precision? with
    | some n => Decimal.fixedText n x
    | none => Layout.plain.render x)

/-- A point in a field. -/
def writePoint (f : Field) : Point Float → String
  | .number x => f.writeNumber x
  | .label name => f.writeText name

end Field

end FuzzyInference.Text
