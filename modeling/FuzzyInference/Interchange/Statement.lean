import FuzzyInference.Interchange.Fields
import FuzzyInference.RuleBase.Basic

/-!
# Statements and rules in JSON

A statement is a variant; the operands of a negation, a conjunction or a disjunction are a list. A
rule without a weight has the weight one.
-/

namespace FuzzyInference

open Json

namespace Statement

mutual

/-- A statement as a value. -/
def toJson : Statement → Json
  | is subject label => variant "is" [("variable", string subject), ("value", string label)]
  | isNot subject label => variant "is not" [("variable", string subject), ("value", string label)]
  | not children => variant "not" [("children", array (toJsonAll children))]
  | and children => variant "and" [("children", array (toJsonAll children))]
  | or children => variant "or" [("children", array (toJsonAll children))]

/-- Statements as values, in their order. -/
def toJsonAll : List Statement → List Json
  | [] => []
  | s :: rest => toJson s :: toJsonAll rest

end

/-- The statement that a variant with a given tag is, once the operands among its fields are
known. -/
def assemble? (tag : String) (fields : Fields) (children? : Option (List Statement)) :
    Option Statement :=
  match tag with
  | "is" => do return is (← fields.string? "variable") (← fields.string? "value")
  | "is not" => do return isNot (← fields.string? "variable") (← fields.string? "value")
  | "not" => do
    discard (fields.required? "children")
    return not (← children?)
  | "and" => do
    discard (fields.required? "children")
    return and (← children?)
  | "or" => do
    discard (fields.required? "children")
    return or (← children?)
  | _ => none

/-- The variants, with the names of their fields. -/
def variants : Variants :=
  [("is", ["variable", "value"]), ("is not", ["variable", "value"]), ("not", ["children"]),
    ("and", ["children"]), ("or", ["children"])]

mutual

/-- The statement that a value is, which may be buffered. -/
def read? (buffered : Bool) : Json → Option Statement
  | .object fields => do
    let (tag, fields') ← Fields.tagged? buffered variants (.object fields)
    assemble? tag fields' (children? fields)
  | .array (first :: items) => do
    let (tag, fields) ← Fields.tagged? buffered variants (.array (first :: items))
    assemble? tag fields (childrenAmong? (fields.map Prod.fst) items)
  | _ => none

/-- The statements that the field `children` holds. -/
def children? : List (String × Json) → Option (List Statement)
  | [] => none
  | (name, value) :: fields => if name = "children" then ofItems? value else children? fields

/-- The statements that the item under the name `children` holds. -/
def childrenAmong? : List String → List Json → Option (List Statement)
  | name :: names, value :: values =>
    if name = "children" then ofItems? value else childrenAmong? names values
  | _, _ => none

/-- The statements that an array holds. -/
def ofItems? : Json → Option (List Statement)
  | .array items => ofJsonAll? items
  | _ => none

/-- The statements that a list of values is. -/
def ofJsonAll? : List Json → Option (List Statement)
  | [] => some []
  | value :: values => do
    let s ← read? true value
    let rest ← ofJsonAll? values
    return s :: rest

end

/-- The statement that a value is. -/
def ofJson? : Json → Option Statement := read? false

end Statement

namespace RuleStatement

/-- A rule as a value. -/
def toJson (s : RuleStatement Float) : Json :=
  object [("antecedent", s.antecedent.toJson), ("consequent", s.consequent.toJson),
    ("weight", ofFloat s.weight)]

/-- The names of the fields, in order. -/
def fieldNames : List String := ["antecedent", "consequent", "weight"]

/-- The rule that a value is. -/
def ofJson? (value : Json) : Option (RuleStatement Float) := do
  let fields ← Fields.record? fieldNames value
  let antecedent ← Statement.ofJson? (← fields.required? "antecedent")
  let consequent ← Statement.ofJson? (← fields.required? "consequent")
  let weight ← match ← fields.optional? "weight" with
    | none => pure 1
    | some value => value.float?
  return ⟨antecedent, consequent, weight⟩

end RuleStatement

namespace RuleBaseStatement

/-- Rules as a value. -/
def toJson (s : RuleBaseStatement Float) : Json :=
  object [("rule_list", array (s.rules.map RuleStatement.toJson))]

/-- The rules that a value is. -/
def ofJson? (value : Json) : Option (RuleBaseStatement Float) := do
  let fields ← Fields.record? ["rule_list"] value
  return ⟨← (← fields.items? "rule_list").mapM RuleStatement.ofJson?⟩

end RuleBaseStatement

end FuzzyInference
