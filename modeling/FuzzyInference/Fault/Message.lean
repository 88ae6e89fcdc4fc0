import FuzzyInference.Fault.Basic
import FuzzyInference.Decimal.Layout

/-!
# Messages

The wording of faults on machine numbers. Lists of parameters are written as numeric literals;
single numbers are written plainly.
-/

namespace FuzzyInference

/-- The wording of a fault of a set. -/
def SetFault.text : SetFault Float → String
  | notFinite shape parameters =>
    s!"{shape} set parameters must be finite: " ++ Layout.literal.renderList parameters
  | notOrdered shape knots =>
    s!"{shape} set parameters must be in non-decreasing order: " ++ Layout.literal.renderList knots
  | zeroWidth shape => s!"{shape} set width must be non-zero"
  | noPoints => "piecewise set needs at least one point"
  | noOperands => "n-ary set operators need at least one operand"

/-- The wording of a fault of a domain. -/
def DomainFault.text : DomainFault Float → String
  | bounds domain low high =>
    s!"domain {domain} needs finite bounds with min < max, got [" ++ Layout.plain.render low ++
      ", " ++ Layout.plain.render high ++ "]"
  | stepSize domain size =>
    s!"domain {domain} step size must be a positive number, got " ++ Layout.plain.render size
  | noLabels domain => s!"categorical domain {domain} has no values"
  | notOnLabels method domain =>
    s!"defuzzification method {method.tag} is not available for categorical domain {domain}"

/-- The wording of a failed lookup. -/
def LookupFault.text : LookupFault → String
  | unregistered => "variable is not registered in this system"
  | unknownVariable name => s!"unknown variable: {name}"
  | noLabel name label => s!"variable {name} has no value {label}"
  | noLabelAt name index => s!"variable {name} has no value at position {index}"
  | noInput name => s!"no input value for variable {name}"

/-- The wording of a fault of a rule. -/
def RuleFault.text : RuleFault Float → String
  | emptyCombination => "and/or propositions need at least one child"
  | negationArity => "a not proposition takes exactly one child"
  | weight w => "rule weight must be in (0, 1], got " ++ Layout.plain.render w
  | compoundConclusion => "complex consequent rules are not supported"
  | unpairable antecedents consequents =>
    s!"unable to automatically choose a {antecedents} to {consequents} mapping"
  | unorderedLabels name =>
    s!"automatic rules need a numeric domain, {name} is categorical"

/-- The wording of a fault of a system. -/
def SystemFault.text : SystemFault → String
  | duplicateVariable name => s!"duplicate variable name: {name}"
  | targetIsInput => "the target variable cannot also be an input"
  | otherConclusion name => s!"rule concludes on {name} instead of the target variable"
  | notAnInput name => s!"rule antecedent reads {name}, which is not an input"
  | rowWidth values inputs => s!"row has {values} values for {inputs} input variables"

/-- The wording of a fault of a `.fis` text. -/
def FisTextFault.text : FisTextFault Float → String
  | outsideSection line => s!"entry outside of any section: {line}"
  | malformedEntry name line => s!"malformed entry in [{name}]: {line}"
  | missingSection name => s!"missing section [{name}]"
  | missingKey name key => s!"section [{name}] has no key {key}"
  | notANumber text => s!"not a number: {text}"
  | inferenceType kind => s!"unsupported inference type: {kind}"
  | outputCount count => s!"only systems with one output are supported, found {count}"
  | unsupportedMethod family method => s!"unsupported {family} method: {method}"
  | rangeBounds name range =>
    s!"range of {name} must have two bounds: " ++ Layout.literal.renderList range
  | repeatedLabel name label => s!"variable {name} repeats value {label}"
  | malformedMembership text => s!"malformed membership function: {text}"
  | arity kind expected given => s!"{kind} takes {expected} parameters, got {given}"
  | unknownMembership kind => s!"unknown membership function: {kind}"
  | malformedRule line => s!"malformed rule: {line}"
  | indexCount line indices inputs => s!"rule {line} has {indices} indices for {inputs} inputs"
  | noInputs line => s!"rule {line} involves no input"
  | outputIndex line => s!"rule {line} must conclude on a positive output index"
  | unknownConnective text => s!"unknown rule connective: {text}"

/-- The wording of why there is no program text. -/
def SourceFault.text : SourceFault → String
  | identifier name => s!"{name} is not usable as a C identifier"
  | shadowing name => s!"variable {name} would shadow a generated function"
  | method m => s!"only centroid defuzzification can be generated, not {m.tag}"
  | categoricalTarget name => s!"target {name} is categorical, which cannot be generated"
  | categoricalInput name => s!"input {name} is categorical, which cannot be generated"
  | labelledSingleton => "labelled singletons cannot be generated"
  | discreteKey key => s!"discrete key {key} cannot be generated"
  | noPoints => "empty piecewise set"

/-- What the message of a fault of each class begins with. -/
def FaultKind.heading : FaultKind → String
  | configuration => "configuration error: "
  | lookup => "lookup error: "
  | validation => "validation error: "
  | io => ""

namespace Fault

/-- The wording of a fault, without the heading of its class. -/
def text : Fault Float → String
  | unknownTag family tag => s!"invalid {family.name} method: {tag}"
  | set cause => cause.text
  | domain cause => cause.text
  | lookup cause => cause.text
  | rule cause => cause.text
  | system cause => cause.text
  | fisText cause => cause.text
  | source cause => cause.text
  | malformedDescription => "malformed description"
  | fileNotFound => "No such file or directory (os error 2)"

/-- The message of a fault: the heading of its class and the wording of its cause. -/
def message (fault : Fault Float) : String := fault.kind.heading ++ fault.text

end Fault

end FuzzyInference
