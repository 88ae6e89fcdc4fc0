import FuzzyInference.Fault.Basic
import FuzzyInference.Point
import FuzzyInference.Table

/-!
# Assignments

Values for variables, by name. The last of several values for one variable counts.
-/

namespace FuzzyInference

/-- The values that some variables are given. -/
structure Assignment (α : Type) where
  /-- The values by variable name. -/
  values : Table (Point α)

namespace Assignment

variable {α : Type}

/-- The assignment that results from giving the listed values in order. -/
def ofList (values : List (String × Point α)) : Assignment α := ⟨.ofList values⟩

/-- The value that a variable is given. -/
def get (a : Assignment α) (name : String) : Except LookupFault (Point α) :=
  match a.values.get? name with
  | some value => .ok value
  | none => .error (.noInput name)

/-- An assignment with one more value. -/
def insert (a : Assignment α) (name : String) (value : Point α) : Assignment α :=
  ⟨a.values.insert name value⟩

/-- Two assignments give the same values to the same variables. -/
def same [Scalar α] (a b : Assignment α) : Bool := a.values.agrees (· == ·) b.values

end Assignment

end FuzzyInference
