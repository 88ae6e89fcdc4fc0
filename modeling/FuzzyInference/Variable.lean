import FuzzyInference.Domain

/-!
# Linguistic variables

A variable has a domain, and labels that stand for fuzzy sets on it. The labels keep the order in
which they were given, which is what references by position go by.
-/

namespace FuzzyInference

/-- A named quantity and the labels that describe it. -/
structure Variable (α : Type) where
  /-- The name of the variable. -/
  name : String
  /-- The universe of its values. -/
  domain : Domain α
  /-- The sets that its labels stand for. -/
  labels : Table (FuzzySet α)

namespace Variable

variable {α : Type} [Scalar α]

/-- The domain must be valid, and then every set, in the order of the labels. -/
def validate (v : Variable α) : Checked α Unit := do
  v.domain.validate.mapError .domain
  (FuzzySet.validateAll v.labels.values).mapError .set

/-- A variable, provided that it is valid. -/
def checked (v : Variable α) : Checked α (Variable α) := do
  v.validate
  return v

/-- The set that a label stands for. -/
def get (v : Variable α) (label : String) : Except LookupFault (FuzzySet α) :=
  match v.labels.get? label with
  | some set => .ok set
  | none => .error (.noLabel v.name label)

/-- The label at a position, counted from zero. -/
def labelAt (v : Variable α) (index : Nat) : Except LookupFault String :=
  match v.labels.names[index]? with
  | some label => .ok label
  | none => .error (.noLabelAt v.name index)

/-- Two variables have the same name and domain, and labels for the same sets in any order. -/
def same (v w : Variable α) : Bool :=
  v.name == w.name && v.domain == w.domain && v.labels.agrees (· == ·) w.labels

instance : BEq (Variable α) := ⟨same⟩

end Variable

end FuzzyInference
