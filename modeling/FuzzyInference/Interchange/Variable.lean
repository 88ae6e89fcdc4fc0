import FuzzyInference.Interchange.FuzzySet
import FuzzyInference.Variable

/-!
# Domains and variables in JSON

A numeric domain is sampled by a count, which is a whole number, or by a size, which is any other
number. The labels of a variable are an object in the order of the labels.
-/

namespace FuzzyInference

open Json

namespace Steps

/-- Counts and sizes as numbers. -/
def toJson : Steps Float → Json
  | count n => integer n
  | size h => ofFloat h

/-- The count or size that a number is. -/
def ofJson? : Json → Option (Steps Float)
  | integer n => if 0 ≤ n then some (count n.toNat) else (integer n).float?.map size
  | value => value.float?.map size

end Steps

namespace Domain

/-- A domain as a value. -/
def toJson : Domain Float → Json
  | numeric d =>
    variant "FloatDomain"
      [("name", string d.name), ("min", ofFloat d.low), ("max", ofFloat d.high),
        ("steps", d.steps.toJson)]
  | categorical d =>
    variant "CategoricalDomain"
      [("name", string d.name), ("values", array (d.labels.map string))]

/-- The variants, with the names of their fields. -/
def variants : Variants :=
  [("FloatDomain", ["name", "min", "max", "steps"]), ("CategoricalDomain", ["name", "values"])]

/-- The domain that a value is. -/
def ofJson? (value : Json) : Option (Domain Float) := do
  match ← Fields.tagged? false variants value with
  | ("FloatDomain", fields) =>
    let name ← fields.string? "name"
    let low ← fields.float? "min"
    let high ← fields.float? "max"
    let steps ← Steps.ofJson? (← fields.required? "steps")
    return numeric ⟨name, low, high, steps⟩
  | ("CategoricalDomain", fields) =>
    let name ← fields.string? "name"
    let labels ← (← fields.items? "values").mapM string?
    return categorical ⟨name, labels⟩
  | _ => none

end Domain

namespace Variable

/-- A variable as a value. -/
def toJson (v : Variable Float) : Json :=
  object [("name", string v.name), ("domain", v.domain.toJson),
    ("values", ofTable FuzzySet.toJson v.labels)]

/-- The names of the fields, in order. -/
def fieldNames : List String := ["name", "domain", "values"]

/-- The variable that a value is. -/
def ofJson? (value : Json) : Option (Variable Float) := do
  let fields ← Fields.record? fieldNames value
  let name ← fields.string? "name"
  let domain ← Domain.ofJson? (← fields.required? "domain")
  let labels ← table? FuzzySet.ofJson? (← fields.required? "values")
  return ⟨name, domain, labels⟩

end Variable

end FuzzyInference
