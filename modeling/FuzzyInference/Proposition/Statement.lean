import FuzzyInference.Proposition.Basic

/-!
# Statements

Propositions that name their variables. A statement stands on its own, apart from any registry: it
is what is printed and stored. A proposition is stated by looking up the names of its variables, and
a statement is resolved by looking up the variables of its names.
-/

namespace FuzzyInference

/-- A condition on variables, which are referred to by name. -/
inductive Statement where
  /-- The variable has the quality that the label names. -/
  | is (subject label : String)
  /-- The variable has not the quality that the label names. -/
  | isNot (subject label : String)
  /-- The negation of a statement; only with exactly one operand does it mean something. -/
  | not (children : List Statement)
  /-- All statements hold. -/
  | and (children : List Statement)
  /-- One of the statements holds. -/
  | or (children : List Statement)
  deriving Repr, Inhabited

namespace Statement

mutual

/-- The text of a statement. Operands are parenthesized. -/
def text : Statement → String
  | is subject label => subject ++ " is " ++ label
  | isNot subject label => subject ++ " is not " ++ label
  | not children => "not " ++ joined " " children
  | and children => joined " and " children
  | or children => joined " or " children

/-- Parenthesized statements with a separator between them. -/
def joined (separator : String) : List Statement → String
  | [] => ""
  | s :: rest => "(" ++ text s ++ ")" ++ joinedBehind separator rest

/-- Parenthesized statements, each with the separator in front. -/
def joinedBehind (separator : String) : List Statement → String
  | [] => ""
  | s :: rest => separator ++ "(" ++ text s ++ ")" ++ joinedBehind separator rest

end

mutual

/-- Two statements are built alike. -/
def same : Statement → Statement → Bool
  | is x l, is y m => x == y && l == m
  | isNot x l, isNot y m => x == y && l == m
  | not ss, not ts => sameAll ss ts
  | and ss, and ts => sameAll ss ts
  | or ss, or ts => sameAll ss ts
  | _, _ => false

/-- Two lists hold statements that are built alike. -/
def sameAll : List Statement → List Statement → Bool
  | [], [] => true
  | s :: ss, t :: ts => same s t && sameAll ss ts
  | _, _ => false

end

instance : BEq Statement := ⟨same⟩

variable {α : Type} [Scalar α]

/-- The handle of the named variable, which must have the label. -/
def resolveSubject (r : Registry α) (subject label : String) : Checked α Handle := do
  let h ← (r.byName subject).mapError Fault.lookup
  Proposition.validateLabel r h label
  return h

mutual

/-- The proposition that a statement makes about the variables of a registry. -/
def resolve (r : Registry α) : Statement → Checked α Proposition
  | is subject label => return .is (← resolveSubject r subject label) label
  | isNot subject label => return .isNot (← resolveSubject r subject label) label
  | not [child] => return .not (← resolve r child)
  | not _ => .error (.rule .negationArity)
  | and children => do
    let ps ← resolveAll r children
    if ps.isEmpty then .error (.rule .emptyCombination) else return .and ps
  | or children => do
    let ps ← resolveAll r children
    if ps.isEmpty then .error (.rule .emptyCombination) else return .or ps

/-- The propositions that several statements make, in their order. -/
def resolveAll (r : Registry α) : List Statement → Checked α (List Proposition)
  | [] => return []
  | s :: rest => do
    let p ← resolve r s
    let ps ← resolveAll r rest
    return p :: ps

end

end Statement

namespace Proposition

variable {α : Type} [Scalar α]

mutual

/-- The statement of a proposition, with the names that the registry has for its handles. -/
def describe (r : Registry α) : Proposition → Except LookupFault Statement
  | is h label => return .is (← r.get h).name label
  | isNot h label => return .isNot (← r.get h).name label
  | not p => return .not [← describe r p]
  | and ps => return .and (← describeAll r ps)
  | or ps => return .or (← describeAll r ps)

/-- The statements of several propositions, in their order. -/
def describeAll (r : Registry α) : List Proposition → Except LookupFault (List Statement)
  | [] => return []
  | p :: ps => do
    let s ← describe r p
    let rest ← describeAll r ps
    return s :: rest

end

end Proposition

end FuzzyInference
