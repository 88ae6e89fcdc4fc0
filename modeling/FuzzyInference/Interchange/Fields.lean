import FuzzyInference.Json.Basic
import FuzzyInference.Table

/-!
# Fields

How the parts of a description are found in a JSON value. A record is an object, or an array of what
stands in its fields, in their order. Fields that a description does not know are passed over; a
field that it knows may stand only once.

A variant is told by its tag: the field `type` of an object, or the first item of an array. It is
buffered before it is read, so nothing in it may be unusable, and a tag inside of it may be a
number.
-/

namespace FuzzyInference.Json

/-- The number that a value is. -/
def float? : Json → Option Float
  | integer n =>
    let magnitude := Scalar.nearestFloat n.natAbs 0
    some (if n < 0 then -magnitude else magnitude)
  | real x => some x
  | _ => none

/-- The text that a value is. -/
def string? : Json → Option String
  | string s => some s
  | _ => none

/-- The items of an array. -/
def items? : Json → Option (List Json)
  | array items => some items
  | _ => none

/-- Fields in order. -/
abbrev Fields := List (String × Json)

/-- The fields of an object. -/
def fields? : Json → Option Fields
  | object fields => some fields
  | _ => none

/-- The tag of an alternative without fields. It stands alone, or for the only name in an object,
over null or, in a buffered value, an empty object. -/
def unitTag? (buffered : Bool) : Json → Option String
  | string tag => some tag
  | object [(tag, null)] => some tag
  | object [(tag, object [])] => if buffered then some tag else none
  | _ => none

/-- The tags of variants in their order, each with the names of its fields. -/
abbrev Variants := List (String × List String)

namespace Fields

/-- The fields of a record, given their names in order. An array may end before the last ones. -/
def record? (names : List String) : Json → Option Fields
  | object fields => some fields
  | array items => if items.length ≤ names.length then some (names.zip items) else none
  | _ => none

/-- A field that may be missing but not repeated: the inner option tells whether it is there. -/
def optional? (fields : Fields) (name : String) : Option (Option Json) :=
  match fields.filter (·.1 == name) with
  | [] => some none
  | [(_, value)] => some (some value)
  | _ => none

/-- A field that must stand exactly once. -/
def required? (fields : Fields) (name : String) : Option Json := (fields.optional? name).join

/-- A number under a name. -/
def float? (fields : Fields) (name : String) : Option Float :=
  (fields.required? name).bind Json.float?

/-- A text under a name. -/
def string? (fields : Fields) (name : String) : Option String :=
  (fields.required? name).bind Json.string?

/-- A list under a name. -/
def items? (fields : Fields) (name : String) : Option (List Json) :=
  (fields.required? name).bind Json.items?

/-- The tag that a value is: a text or, in a buffered value, the number of a variant. -/
def tag? (buffered : Bool) (variants : Variants) : Json → Option String
  | string tag => some tag
  | integer n => if buffered ∧ 0 ≤ n then variants[n.toNat]?.map Prod.fst else none
  | _ => none

/-- The fields of a variant and the tag that tells which variant it is. -/
def tagged? (buffered : Bool) (variants : Variants) (value : Json) : Option (String × Fields) := do
  guard value.usable
  match value with
  | object fields => return (← tag? buffered variants (← required? fields "type"), fields)
  | array (first :: items) =>
    let tag ← tag? buffered variants first
    return (tag, ← record? (← variants.lookup tag) (array items))
  | _ => none

end Fields

/-- A variant as an object: its tag, and its fields behind that. -/
def variant (tag : String) (fields : Fields) : Json := object (("type", string tag) :: fields)

/-- A table of values as an object. -/
def ofTable {β : Type} (encode : β → Json) (t : Table β) : Json :=
  object (t.entries.map fun (name, value) => (name, encode value))

/-- The table that an object is; the last of several values under one name counts. -/
def table? {β : Type} (decode : Json → Option β) (value : Json) : Option (Table β) := do
  let entries ← (← value.fields?).mapM fun (name, v) => (decode v).map fun b => (name, b)
  return Table.ofList entries

end FuzzyInference.Json
