import FuzzyInference.CSource.Token

/-!
# C functions

Functions of floating numbers: what their bodies consist of, and how they are written. A statement
stands on a line of its own, indented by four blanks for each body around it.
-/

namespace FuzzyInference.CSource

/-- A statement of a function body. -/
inductive Statement (α : Type) where
  /-- The function returns a value. -/
  | result (value : Expression α)
  /-- The function returns a value if a condition holds. -/
  | resultIf (condition value : Expression α)
  /-- A local integer without a value yet. -/
  | index (name : String)
  /-- A local integer. -/
  | whole (name : String) (value : Expression α)
  /-- Local floating numbers. -/
  | floating (locals : List (String × Expression α))
  /-- A value is added to a local number. -/
  | increase (name : String) (value : Expression α)
  /-- A body is repeated while an index runs from zero up to below a bound. -/
  | loop (index bound : String) (body : List (Statement α))
  /-- A blank line. -/
  | gap

/-- A function of floating numbers that returns one. -/
structure Function (α : Type) where
  /-- The function is not seen outside its unit. -/
  internal : Bool
  /-- The name. -/
  name : String
  /-- The names of the parameters, in order. -/
  parameters : List String
  /-- What the function does. -/
  body : List (Statement α)

/-- A line of code, indented by `depth` bodies. -/
def indented (depth : Nat) (code : String) : String :=
  String.ofList (List.replicate (4 * depth) ' ') ++ code

variable {α : Type}

mutual

/-- The lines of a statement inside `depth` bodies. -/
def Statement.lines (write : α → String) (depth : Nat) : Statement α → List String
  | .result value => [indented depth ("return " ++ render write value ++ ";")]
  | .resultIf condition value =>
    [indented depth ("if (" ++ render write condition ++ ")"),
      indented (depth + 1) ("return " ++ render write value ++ ";")]
  | .index name => [indented depth ("int " ++ name ++ ";")]
  | .whole name value => [indented depth ("int " ++ name ++ " = " ++ render write value ++ ";")]
  | .floating locals =>
    let parts := locals.map fun (name, value) => name ++ " = " ++ render write value
    [indented depth ("double " ++ String.intercalate ", " parts ++ ";")]
  | .increase name value => [indented depth (name ++ " += " ++ render write value ++ ";")]
  | .loop index bound body =>
    indented depth ("for (" ++ index ++ " = 0; " ++ index ++ " < " ++ bound ++ "; " ++ index ++
        "++) \x7b") ::
      (bodyLines write (depth + 1) body ++ [indented depth "\x7d"])
  | .gap => [""]

/-- The lines of a body inside `depth` bodies. -/
def bodyLines (write : α → String) (depth : Nat) : List (Statement α) → List String
  | [] => []
  | statement :: rest => statement.lines write depth ++ bodyLines write depth rest

end

namespace Function

/-- The line that declares a function. -/
def signature (f : Function α) : String :=
  (if f.internal then "static double " else "double ") ++ f.name ++ "(" ++
    String.intercalate ", " (f.parameters.map ("double " ++ ·)) ++ ")"

/-- The lines of a function. -/
def lines (write : α → String) (f : Function α) : List String :=
  f.signature :: "\x7b" :: (bodyLines write 1 f.body ++ ["\x7d"])

end Function

end FuzzyInference.CSource
