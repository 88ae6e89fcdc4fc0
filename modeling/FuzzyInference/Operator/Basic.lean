/-!
# Operator families

The choices that a fuzzy system makes: how degrees are conjoined and disjoined, how a rule's degree
acts on its conclusion, and how the resulting set is reduced to one value. Each choice has a tag,
which is its name in every text.
-/

namespace FuzzyInference

/-- The family that an operator tag is looked up in. -/
inductive OperatorFamily where
  /-- Conjunctions. -/
  | conjunction
  /-- Disjunctions. -/
  | disjunction
  /-- Implications. -/
  | implication
  /-- Defuzzification methods. -/
  | defuzzification
  deriving Repr, DecidableEq

/-- The name of a family in messages. -/
def OperatorFamily.name : OperatorFamily → String
  | conjunction => "AND"
  | disjunction => "OR"
  | implication => "implication"
  | defuzzification => "defuzzification"

/-- How the degrees of several conditions that must all hold are combined. -/
inductive Conjunction where
  /-- The least degree. -/
  | minimum
  /-- The product of the degrees. -/
  | product
  /-- What the degrees leave over when the missing part of each is taken from one. -/
  | lukasiewicz
  deriving Repr, DecidableEq

namespace Conjunction

/-- The tag of a conjunction. -/
def tag : Conjunction → String
  | minimum => "min"
  | product => "product"
  | lukasiewicz => "lukasiewicz"

/-- The conjunction with a given tag. -/
def ofTag? (tag : String) : Option Conjunction :=
  [minimum, product, lukasiewicz].find? (·.tag = tag)

instance : Inhabited Conjunction := ⟨minimum⟩

end Conjunction

/-- How the degrees of alternatives are combined; also how the outputs of rules are aggregated. -/
inductive Disjunction where
  /-- The greatest degree. -/
  | maximum
  /-- The probability that one of several independent events happens. -/
  | probabilisticSum
  /-- The sum of the degrees, at most one. -/
  | boundedSum
  deriving Repr, DecidableEq

namespace Disjunction

/-- The tag of a disjunction. -/
def tag : Disjunction → String
  | maximum => "max"
  | probabilisticSum => "psum"
  | boundedSum => "bsum"

/-- The disjunction with a given tag. -/
def ofTag? (tag : String) : Option Disjunction :=
  [maximum, probabilisticSum, boundedSum].find? (·.tag = tag)

instance : Inhabited Disjunction := ⟨maximum⟩

end Disjunction

/-- How the degree to which a rule fires acts on the set that it concludes. -/
inductive Implication where
  /-- The set is cut off at the degree. -/
  | minimum
  /-- The set is multiplied by the degree. -/
  | product
  deriving Repr, DecidableEq

namespace Implication

/-- The tag of an implication. -/
def tag : Implication → String
  | minimum => "min"
  | product => "prod"

/-- The implication with a given tag. -/
def ofTag? (tag : String) : Option Implication :=
  [minimum, product].find? (·.tag = tag)

instance : Inhabited Implication := ⟨minimum⟩

end Implication

/-- How a fuzzy set is reduced to a single value. -/
inductive Defuzzification where
  /-- The centre of gravity. -/
  | centroid
  /-- The leftmost point at which the running sum of the degrees reaches half of the total. -/
  | bisector
  /-- The median of the points of greatest degree. -/
  | middleOfMaxima
  /-- The smallest point of greatest degree. -/
  | smallestOfMaxima
  /-- The largest point of greatest degree. -/
  | largestOfMaxima
  deriving Repr, DecidableEq

namespace Defuzzification

/-- The tag of a defuzzification method. -/
def tag : Defuzzification → String
  | centroid => "centroid"
  | bisector => "bisector"
  | middleOfMaxima => "mom"
  | smallestOfMaxima => "som"
  | largestOfMaxima => "lom"

/-- The defuzzification method with a given tag. -/
def ofTag? (tag : String) : Option Defuzzification :=
  [centroid, bisector, middleOfMaxima, smallestOfMaxima, largestOfMaxima].find? (·.tag = tag)

instance : Inhabited Defuzzification := ⟨centroid⟩

end Defuzzification

end FuzzyInference
