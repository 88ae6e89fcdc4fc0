import FuzzyInference.Decimal.Layout
import FuzzyInference.Json.Basic
import FuzzyInference.Json.Quoted

/-!
# Writing JSON

Values as text, in two forms: compact, without any blanks, and indented, with a line for each item
and field and two blanks for each level of nesting.
-/

namespace FuzzyInference.Json

/-- The text of a value that is neither an array nor an object. -/
def leafText : Json → List Char
  | bool b => (if b then "true" else "false").toList
  | integer n => (if n < 0 then ['-'] else []) ++ Decimal.digitChars n.natAbs
  | real x => (Layout.interchange.render x).toList
  | string s => quote s
  | _ => "null".toList

mutual

/-- The compact text of a value. -/
def compactText : Json → List Char
  | array items => '[' :: compactItems items ++ [']']
  | object fields => '\x7b' :: compactFields fields ++ ['\x7d']
  | leaf => leafText leaf

/-- The compact texts of values, with commas between them. -/
def compactItems : List Json → List Char
  | [] => []
  | [item] => compactText item
  | item :: items => compactText item ++ ',' :: compactItems items

/-- The compact texts of fields, with commas between them. -/
def compactFields : List (String × Json) → List Char
  | [] => []
  | [(name, value)] => quote name ++ ':' :: compactText value
  | (name, value) :: fields =>
    quote name ++ ':' :: (compactText value ++ ',' :: compactFields fields)

end

/-- The start of a line at a level of nesting. -/
def newline (level : Nat) : List Char := '\n' :: List.replicate (2 * level) ' '

mutual

/-- The indented text of a value that begins at a level of nesting. -/
def indentedText (level : Nat) : Json → List Char
  | array [] => ['[', ']']
  | array (item :: items) =>
    '[' :: newline (level + 1) ++ indentedText (level + 1) item ++
      indentedItems (level + 1) items ++ newline level ++ [']']
  | object [] => ['\x7b', '\x7d']
  | object ((name, value) :: fields) =>
    '\x7b' :: newline (level + 1) ++ quote name ++ [':', ' '] ++
      indentedText (level + 1) value ++ indentedFields (level + 1) fields ++ newline level ++
      ['\x7d']
  | leaf => leafText leaf

/-- The indented texts of further values at a level, each behind a comma on a line of its own. -/
def indentedItems (level : Nat) : List Json → List Char
  | [] => []
  | item :: items => ',' :: newline level ++ indentedText level item ++ indentedItems level items

/-- The indented texts of further fields at a level, each behind a comma on a line of its own. -/
def indentedFields (level : Nat) : List (String × Json) → List Char
  | [] => []
  | (name, value) :: fields =>
    ',' :: newline level ++ quote name ++ [':', ' '] ++ indentedText level value ++
      indentedFields level fields

end

/-- The compact text of a value. -/
def compact (v : Json) : String := String.ofList v.compactText

/-- The indented text of a value. -/
def indented (v : Json) : String := String.ofList (v.indentedText 0)

end FuzzyInference.Json
