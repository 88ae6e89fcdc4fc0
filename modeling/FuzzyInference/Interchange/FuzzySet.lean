import FuzzyInference.FuzzySet.Basic
import FuzzyInference.Interchange.Fields

/-!
# Fuzzy sets in JSON

A set is a variant whose tag names the shape or the composition. A union or an intersection that
takes its operator from the context has no field for it.
-/

namespace FuzzyInference

open Json

namespace Point

/-- A point as a value: a number or a text. -/
def toJson : Point Float → Json
  | number x => ofFloat x
  | label name => string name

/-- The point that a value is. -/
def ofJson? : Json → Option (Point Float)
  | string name => some (label name)
  | value => value.float?.map number

end Point

namespace Shape

/-- The parameters of a shape under their names. -/
def parameters {α : Type} : Shape α → List (String × α)
  | triangular a b c => [("a", a), ("b", b), ("c", c)]
  | trapezoidal a b c d => [("a", a), ("b", b), ("c", c), ("d", d)]
  | gaussian width center => [("a", width), ("c", center)]
  | twoSidedGaussian width₁ center₁ width₂ center₂ =>
    [("a1", width₁), ("c1", center₁), ("a2", width₂), ("c2", center₂)]
  | bell a b c => [("a", a), ("b", b), ("c", c)]
  | sigmoid slope center => [("a", slope), ("c", center)]
  | sigmoidProduct slope₁ center₁ slope₂ center₂ =>
    [("a1", slope₁), ("c1", center₁), ("a2", slope₂), ("c2", center₂)]
  | sigmoidDifference slope₁ center₁ slope₂ center₂ =>
    [("a1", slope₁), ("c1", center₁), ("a2", slope₂), ("c2", center₂)]
  | sShaped a b => [("a", a), ("b", b)]
  | zShaped a b => [("a", a), ("b", b)]
  | piShaped a b c d => [("a", a), ("b", b), ("c", c), ("d", d)]
  | piecewise _ => []

/-- The fields of a shape behind its tag. -/
def toFields : Shape Float → Fields
  | piecewise points => [("points", array (points.map fun (x, y) => array [ofFloat x, ofFloat y]))]
  | shape => shape.parameters.map fun (name, x) => (name, ofFloat x)

/-- The point of a polygon that a value is: a pair of numbers. -/
def polygonPoint? : Json → Option (Float × Float)
  | array [x, y] => do return (← x.float?, ← y.float?)
  | _ => none

/-- The shape of a given name whose parameters stand among some fields. -/
def ofFields? (name : String) (fields : Fields) : Option (Shape Float) :=
  let get := fields.float?
  match name with
  | "triangular" => do return triangular (← get "a") (← get "b") (← get "c")
  | "trapezoidal" => do return trapezoidal (← get "a") (← get "b") (← get "c") (← get "d")
  | "gaussian" => do return gaussian (← get "a") (← get "c")
  | "gaussian2" => do
    return twoSidedGaussian (← get "a1") (← get "c1") (← get "a2") (← get "c2")
  | "bell" => do return bell (← get "a") (← get "b") (← get "c")
  | "sigmoid" => do return sigmoid (← get "a") (← get "c")
  | "sigmoid_product" => do
    return sigmoidProduct (← get "a1") (← get "c1") (← get "a2") (← get "c2")
  | "sigmoid_difference" => do
    return sigmoidDifference (← get "a1") (← get "c1") (← get "a2") (← get "c2")
  | "s_shaped" => do return sShaped (← get "a") (← get "b")
  | "z_shaped" => do return zShaped (← get "a") (← get "b")
  | "pi_shaped" => do return piShaped (← get "a") (← get "b") (← get "c") (← get "d")
  | "piecewise" => do return piecewise (← (← fields.items? "points").mapM polygonPoint?)
  | _ => none

end Shape

namespace FuzzySet

/-- The field for the operator of a union or an intersection, if it names one. -/
def operatorField (tag? : Option String) : Fields :=
  match tag? with
  | some tag => [("method", string tag)]
  | none => []

mutual

/-- A set as a value. -/
def toJson : FuzzySet Float → Json
  | singleton x => variant "singleton" [("x", x.toJson)]
  | discrete table => variant "discrete" [("d", ofTable ofFloat table)]
  | constant value => variant "constant" [("value", ofFloat value)]
  | shape curve => variant curve.name curve.toFields
  | not set => variant "not" [("set", toJson set)]
  | scale set factor => variant "scale" [("set", toJson set), ("k", ofFloat factor)]
  | implication op truth set =>
    variant "implication"
      [("method", string op.tag), ("degree", ofFloat truth), ("set", toJson set)]
  | or op? sets =>
    variant "or" (operatorField (op?.map Disjunction.tag) ++ [("sets", array (toJsonAll sets))])
  | and op? sets =>
    variant "and" (operatorField (op?.map Conjunction.tag) ++ [("sets", array (toJsonAll sets))])

/-- Sets as values, in their order. -/
def toJsonAll : List (FuzzySet Float) → List Json
  | [] => []
  | set :: sets => toJson set :: toJsonAll sets

end

/-- The variants, with the names of their fields. -/
def variants : Variants :=
  [("singleton", ["x"]), ("discrete", ["d"]), ("constant", ["value"]),
    ("triangular", ["a", "b", "c"]), ("trapezoidal", ["a", "b", "c", "d"]),
    ("gaussian", ["a", "c"]), ("gaussian2", ["a1", "c1", "a2", "c2"]), ("bell", ["a", "b", "c"]),
    ("sigmoid", ["a", "c"]), ("sigmoid_product", ["a1", "c1", "a2", "c2"]),
    ("sigmoid_difference", ["a1", "c1", "a2", "c2"]), ("s_shaped", ["a", "b"]),
    ("z_shaped", ["a", "b"]), ("pi_shaped", ["a", "b", "c", "d"]), ("piecewise", ["points"]),
    ("not", ["set"]), ("scale", ["set", "k"]), ("implication", ["method", "degree", "set"]),
    ("or", ["method", "sets"]), ("and", ["method", "sets"])]

/-- The operator of a union or an intersection, which may be missing or null. -/
def operator? {β : Type} (ofTag? : String → Option β) (fields : Fields) : Option (Option β) := do
  match ← fields.optional? "method" with
  | none => return none
  | some .null => return none
  | some value => return some (← ofTag? (← value.unitTag? true))

/-- The set that a variant with a given tag is, once the operands among its fields are known. -/
def assemble? (tag : String) (fields : Fields) (set? : Option (FuzzySet Float))
    (sets? : Option (List (FuzzySet Float))) : Option (FuzzySet Float) :=
  match tag with
  | "singleton" => do return singleton (← Point.ofJson? (← fields.required? "x"))
  | "discrete" => do return discrete (← table? float? (← fields.required? "d"))
  | "constant" => do return constant (← fields.float? "value")
  | "not" => do
    discard (fields.required? "set")
    return not (← set?)
  | "scale" => do
    discard (fields.required? "set")
    return scale (← set?) (← fields.float? "k")
  | "implication" => do
    discard (fields.required? "set")
    let op ← Implication.ofTag? (← (← fields.required? "method").unitTag? true)
    return implication op (← fields.float? "degree") (← set?)
  | "or" => do
    discard (fields.required? "sets")
    return or (← operator? Disjunction.ofTag? fields) (← sets?)
  | "and" => do
    discard (fields.required? "sets")
    return and (← operator? Conjunction.ofTag? fields) (← sets?)
  | name => (Shape.ofFields? name fields).map shape

mutual

/-- The set that a value is, which may be buffered. -/
def read? (buffered : Bool) : Json → Option (FuzzySet Float)
  | .object fields => do
    let (tag, fields') ← Fields.tagged? buffered variants (.object fields)
    assemble? tag fields' (operand? fields) (operands? fields)
  | .array (first :: items) => do
    let (tag, fields) ← Fields.tagged? buffered variants (.array (first :: items))
    let names := fields.map Prod.fst
    assemble? tag fields (operandAmong? names items) (operandsAmong? names items)
  | _ => none

/-- The set that the field `set` holds. -/
def operand? : List (String × Json) → Option (FuzzySet Float)
  | [] => none
  | (name, value) :: fields => if name = "set" then read? true value else operand? fields

/-- The sets that the field `sets` holds. -/
def operands? : List (String × Json) → Option (List (FuzzySet Float))
  | [] => none
  | (name, value) :: fields => if name = "sets" then ofItems? value else operands? fields

/-- The set that the item under the name `set` is. -/
def operandAmong? : List String → List Json → Option (FuzzySet Float)
  | name :: names, value :: values =>
    if name = "set" then read? true value else operandAmong? names values
  | _, _ => none

/-- The sets that the item under the name `sets` holds. -/
def operandsAmong? : List String → List Json → Option (List (FuzzySet Float))
  | name :: names, value :: values =>
    if name = "sets" then ofItems? value else operandsAmong? names values
  | _, _ => none

/-- The sets that an array holds. -/
def ofItems? : Json → Option (List (FuzzySet Float))
  | .array items => ofJsonAll? items
  | _ => none

/-- The sets that a list of values is. -/
def ofJsonAll? : List Json → Option (List (FuzzySet Float))
  | [] => some []
  | value :: values => do
    let set ← read? true value
    let sets ← ofJsonAll? values
    return set :: sets

end

/-- The set that a value is. -/
def ofJson? : Json → Option (FuzzySet Float) := read? false

end FuzzySet

end FuzzyInference
