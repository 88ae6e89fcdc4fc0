import FuzzyInference.Fault.Basic

/-!
# Operators by tag

The operator that a tag names in its family, or the fault that there is none.
-/

namespace FuzzyInference

variable {α : Type}

/-- What a tag was found to name in a family. -/
def OperatorFamily.expect {β : Type} (family : OperatorFamily) (tag : String) :
    Option β → Checked α β
  | some op => .ok op
  | none => .error (.unknownTag family tag)

/-- The conjunction that a tag names. -/
def Conjunction.named (tag : String) : Checked α Conjunction :=
  OperatorFamily.conjunction.expect tag (ofTag? tag)

/-- The disjunction that a tag names. -/
def Disjunction.named (tag : String) : Checked α Disjunction :=
  OperatorFamily.disjunction.expect tag (ofTag? tag)

/-- The implication that a tag names. -/
def Implication.named (tag : String) : Checked α Implication :=
  OperatorFamily.implication.expect tag (ofTag? tag)

/-- The defuzzification method that a tag names. -/
def Defuzzification.named (tag : String) : Checked α Defuzzification :=
  OperatorFamily.defuzzification.expect tag (ofTag? tag)

end FuzzyInference
