import FuzzyInference.FisText.Rule
import FuzzyInference.Operator.Named
import FuzzyInference.FuzzySystem.Basic

/-!
# Systems from `.fis` texts

A text has a section `System` with the type of inference, the numbers of inputs and outputs and the
methods, a section for each input and one for the output, and a section of rules, which may be
missing. All domains are sampled alike.
-/

namespace FuzzyInference.FisText

variable {α : Type}

/-- The number of points that a domain is sampled at unless another mesh is asked for. -/
def defaultCount : Nat := 100

/-- The method that the value under a key stands for, and the usual one if there is none. Methods
are told apart in lower case. -/
def method {β : Type} (s : Section) (key : String) (usual : β)
    (read : String → Checked α β) : Checked α β :=
  match s.get? key with
  | none => .ok usual
  | some value => read (String.ofList (Text.toLower (unquote value)))

/-- The operator that a method of a family stands for. -/
def operatorOf {β : Type} (family : String) (table : List (String × β)) (name : String) :
    Checked α β :=
  match table.lookup name with
  | some op => .ok op
  | none => .error (.fisText (.unsupportedMethod family name))

/-- The conjunctions by their method names. -/
def conjunctionMethods : List (String × Conjunction) := [("min", .minimum), ("prod", .product)]

/-- The disjunctions by their method names. -/
def disjunctionMethods : List (String × Disjunction) :=
  [("max", .maximum), ("probor", .probabilisticSum)]

/-- The implications by their method names. -/
def implicationMethods : List (String × Implication) := [("min", .minimum), ("prod", .product)]

/-- The aggregations by their method names. -/
def aggregationMethods : List (String × Disjunction) :=
  [("max", .maximum), ("probor", .probabilisticSum), ("sum", .boundedSum)]

/-- The context that the methods of a section make up. -/
def readContext (s : Section) : Checked α Context := do
  let conjunction ←
    method s "andmethod" .minimum (operatorOf "AND" conjunctionMethods)
  let disjunction ←
    method s "ormethod" .maximum (operatorOf "OR" disjunctionMethods)
  let implication ←
    method s "impmethod" .minimum (operatorOf "implication" implicationMethods)
  let aggregation ←
    method s "aggmethod" .maximum (operatorOf "aggregation" aggregationMethods)
  let defuzzification ← method s "defuzzmethod" .centroid Defuzzification.named
  return { defuzzification, aggregation, implication, conjunction, disjunction }

variable [Scalar α]

/-- The labels of a variable: `remaining` more membership functions, the first of them numbered
`next`. A label must not stand among those in front of it. -/
def readLabels (s : Section) (name : String) (known : Table (FuzzySet α)) (next : Nat) :
    Nat → Checked α (Table (FuzzySet α))
  | 0 => .ok known
  | remaining + 1 => do
    let (label, set) ← readMembership (← s.get s!"mf{next}")
    if known.names.contains label then .error (.fisText (.repeatedLabel name label))
    readLabels s name (known.insert label set) (next + 1) remaining

/-- The variable that a section describes. -/
def readVariable (steps : Steps α) (s : Section) : Checked α (Variable α) := do
  let name := String.ofList (unquote (← s.get "name"))
  let range ← readScalars (← s.get "range")
  match range with
  | [low, high] =>
    let count ← readCount (← s.get "nummfs")
    let labels ← readLabels s name .empty 1 count
    let domain ← (Domain.numeric ⟨name, low, high, steps⟩).checked
    Variable.checked ⟨name, domain, labels⟩
  | _ => .error (.fisText (.rangeBounds name range))

/-- A registry with the variables of `remaining` more input sections, the first of them numbered
`next`, and the handles of these. -/
def readInputs (sections : List Section) (steps : Steps α) (r : Registry α) (next : Nat) :
    Nat → Checked α (Registry α × List Handle)
  | 0 => .ok (r, [])
  | remaining + 1 => do
    let v ← readVariable steps (← find sections s!"Input{next}")
    let (r, h) ← r.add v
    let (r, hs) ← readInputs sections steps r (next + 1) remaining
    return (r, h :: hs)

/-- The entries of the rule section, if there is one. -/
def ruleEntries (sections : List Section) : List Entry :=
  match (find sections "Rules" : Checked α Section) with
  | .ok s => s.entries
  | .error _ => []

/-- The system that a text describes, with every domain sampled by `steps`. -/
def readSystem (text : String) (steps : Steps α) : Checked α (FuzzySystem α) := do
  let sections ← sections text
  let header ← find sections "System"
  let kind := unquote (← header.get "type")
  unless Text.eqIgnoringCase kind "mamdani".toList do
    .error (.fisText (.inferenceType (String.ofList kind)))
  let outputs ← readCount (← header.get "numoutputs")
  if outputs ≠ 1 then .error (.fisText (.outputCount outputs))
  let count ← readCount (← header.get "numinputs")
  let context ← readContext header
  let (registry, inputs) ← readInputs sections steps .empty 1 count
  let (registry, target) ← registry.add (← readVariable steps (← find sections "Output1"))
  let rules ← (ruleEntries (α := α) sections).mapM (readRule registry inputs target)
  let system ← FuzzySystem.build registry inputs ⟨rules⟩ target
  return system.withContext context

end FuzzyInference.FisText
