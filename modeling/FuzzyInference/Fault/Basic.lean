import FuzzyInference.Operator.Basic

/-!
# Faults

Everything that can go wrong, by cause. A fault carries what its message names; how it is worded is
a matter of `Fault.message`.
-/

namespace FuzzyInference

/-- What is wrong with a fuzzy set. -/
inductive SetFault (α : Type) where
  /-- A parameter is not a finite number. -/
  | notFinite (shape : String) (parameters : List α)
  /-- The knots of a shape decrease somewhere. -/
  | notOrdered (shape : String) (knots : List α)
  /-- A shape is divided by a width of zero. -/
  | zeroWidth (shape : String)
  /-- A polygon has no points. -/
  | noPoints
  /-- A union or an intersection has no operands. -/
  | noOperands
  deriving Repr, BEq

/-- What is wrong with a domain, or with asking it for a value. -/
inductive DomainFault (α : Type) where
  /-- The bounds are not finite numbers in ascending order. -/
  | bounds (domain : String) (low high : α)
  /-- The step size is not a positive number. -/
  | stepSize (domain : String) (size : α)
  /-- A categorical domain has no labels. -/
  | noLabels (domain : String)
  /-- The method is not defined on labels. -/
  | notOnLabels (method : Defuzzification) (domain : String)
  deriving Repr, BEq

/-- A name or a position that leads to nothing. -/
inductive LookupFault where
  /-- The handle stands for no variable of the registry. -/
  | unregistered
  /-- No variable has the name. -/
  | unknownVariable (name : String)
  /-- The variable has no such label. -/
  | noLabel (name label : String)
  /-- The variable has fewer labels. -/
  | noLabelAt (name : String) (index : Nat)
  /-- The variable has been given no value. -/
  | noInput (name : String)
  deriving Repr, BEq

/-- What is wrong with a proposition, a rule, or a request for rules. -/
inductive RuleFault (α : Type) where
  /-- A conjunction or disjunction joins no propositions. -/
  | emptyCombination
  /-- A negation does not stand before exactly one proposition. -/
  | negationArity
  /-- The weight is not in `(0, 1]`. -/
  | weight (weight : α)
  /-- The conclusion is not a plain valuation. -/
  | compoundConclusion
  /-- Labels in such numbers cannot be paired. -/
  | unpairable (antecedents consequents : Nat)
  /-- The labels of a categorical variable have no order. -/
  | unorderedLabels (name : String)
  deriving Repr, BEq

/-- What is wrong with a system, or with a row of values for it. -/
inductive SystemFault where
  /-- A variable of that name is registered already. -/
  | duplicateVariable (name : String)
  /-- The target is among the inputs. -/
  | targetIsInput
  /-- A rule concludes on another variable than the target. -/
  | otherConclusion (name : String)
  /-- A rule reads a variable that is not an input. -/
  | notAnInput (name : String)
  /-- A row has not one value for each input. -/
  | rowWidth (values inputs : Nat)
  deriving Repr, BEq

/-- What is wrong with a `.fis` text. -/
inductive FisTextFault (α : Type) where
  /-- A line stands before the first section. -/
  | outsideSection (line : String)
  /-- A line has no separator. -/
  | malformedEntry (header line : String)
  /-- A section is missing. -/
  | missingSection (name : String)
  /-- A key is missing from a section. -/
  | missingKey (header key : String)
  /-- A text is not a number. -/
  | notANumber (text : String)
  /-- The system is of another type. -/
  | inferenceType (kind : String)
  /-- The system has not exactly one output. -/
  | outputCount (count : Nat)
  /-- A method of the family is not known. -/
  | unsupportedMethod (family method : String)
  /-- A range has not two bounds. -/
  | rangeBounds (name : String) (range : List α)
  /-- A label is given twice. -/
  | repeatedLabel (name label : String)
  /-- A membership function is not of the form `'label':'kind',[parameters]`. -/
  | malformedMembership (text : String)
  /-- A membership function has the wrong number of parameters. -/
  | arity (kind : String) (expected given : Nat)
  /-- A kind of membership function is not known. -/
  | unknownMembership (kind : String)
  /-- A rule is not of the form `indices, output (weight)`. -/
  | malformedRule (line : String)
  /-- A rule has not one index for each input. -/
  | indexCount (line : String) (indices inputs : Nat)
  /-- All indices of a rule are zero. -/
  | noInputs (line : String)
  /-- The output index of a rule is not positive. -/
  | outputIndex (line : String)
  /-- A connective is neither `1` nor `2`. -/
  | unknownConnective (text : String)
  deriving Repr, BEq

/-- Why a system cannot be rendered as program text. -/
inductive SourceFault where
  /-- A name is not usable as an identifier. -/
  | identifier (name : String)
  /-- A variable has the name of a generated function. -/
  | shadowing (name : String)
  /-- The defuzzification method has no rendering. -/
  | method (method : Defuzzification)
  /-- The target is categorical. -/
  | categoricalTarget (name : String)
  /-- An input is categorical. -/
  | categoricalInput (name : String)
  /-- A singleton stands on a label. -/
  | labelledSingleton
  /-- A key of a discrete set is not a number. -/
  | discreteKey (key : String)
  /-- A polygon has no points. -/
  | noPoints
  deriving Repr, BEq

/-- The cause of a failure. -/
inductive Fault (α : Type) where
  /-- An operator tag is not known in its family. -/
  | unknownTag (family : OperatorFamily) (tag : String)
  /-- A fuzzy set is invalid. -/
  | set (cause : SetFault α)
  /-- A domain is invalid. -/
  | domain (cause : DomainFault α)
  /-- A lookup failed. -/
  | lookup (cause : LookupFault)
  /-- A rule is invalid. -/
  | rule (cause : RuleFault α)
  /-- A system is invalid. -/
  | system (cause : SystemFault)
  /-- A `.fis` text is invalid. -/
  | fisText (cause : FisTextFault α)
  /-- A system has no rendering as program text. -/
  | source (cause : SourceFault)
  /-- A text is not the description that was expected. -/
  | malformedDescription
  /-- A file does not exist. -/
  | fileNotFound
  deriving Repr, BEq

/-- The classes that faults fall into. -/
inductive FaultKind where
  /-- An unknown tag, an unsupported feature or a malformed description. -/
  | configuration
  /-- An unknown variable or label. -/
  | lookup
  /-- A structure that violates its construction rules. -/
  | validation
  /-- A failure of the file system. -/
  | io
  deriving Repr, DecidableEq

namespace Fault

variable {α : Type}

/-- The class of a fault. -/
def kind : Fault α → FaultKind
  | unknownTag .. | source _ | malformedDescription => .configuration
  | set _ | system _ => .validation
  | lookup _ => .lookup
  | fileNotFound => .io
  | domain (.stepSize ..) | domain (.notOnLabels ..) => .configuration
  | domain (.bounds ..) | domain (.noLabels _) => .validation
  | rule .negationArity | rule (.unorderedLabels _) => .configuration
  | rule .emptyCombination | rule (.weight _) | rule .compoundConclusion
  | rule (.unpairable ..) => .validation
  | fisText (.repeatedLabel ..) | fisText (.indexCount ..) | fisText (.noInputs _)
  | fisText (.outputIndex _) => .validation
  | fisText _ => .configuration

end Fault

/-- Results that may be faults. -/
abbrev Checked (α β : Type) := Except (Fault α) β

end FuzzyInference
