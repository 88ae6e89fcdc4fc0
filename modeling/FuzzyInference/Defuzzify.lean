import FuzzyInference.Operator.Combine

/-!
# Defuzzification

The reduction of a membership function, sampled on a list of points, to a single point. Points and
memberships come as two lists of equal length. Where no point can be named the result is `nan`: on
no points at all, and for the centroid of a function that is zero everywhere.
-/

namespace FuzzyInference

variable {α : Type} [Scalar α]

namespace Scalar

/-- The partial sums of a list that start from `total`, the first element included. -/
def runningSums (total : α) : List α → List α
  | [] => []
  | x :: xs => (total + x) :: runningSums (total + x) xs

/-- The middle element, or the mean of the two middle ones, of an ordered list. -/
def median (sorted : List α) : α :=
  let n := sorted.length
  if n = 0 then nan
  else if n % 2 = 1 then sorted.getD (n / 2) nan
  else (sorted.getD (n / 2 - 1) nan + sorted.getD (n / 2) nan) / 2

end Scalar

/-- The first index from `low` on and below `high` at which `p` fails, or `high`, by bisection:
`p` is taken to hold up to some index and to fail from there on. -/
def searchFirst (p : Nat → Bool) (low high : Nat) : Nat :=
  if low < high then
    let middle := low + (high - low) / 2
    if p middle then searchFirst p (middle + 1) high else searchFirst p low middle
  else low
termination_by high - low

namespace Defuzzification

/-- The sum of the points, weighted by their memberships, and the sum of the memberships. -/
def moments (points memberships : List α) : α × α :=
  (points.zip memberships).foldl (fun (weighted, total) (x, m) => (weighted + x * m, total + m))
    (0, 0)

/-- The centre of gravity of the points. -/
def centroidOf (points memberships : List α) : α :=
  let (weighted, total) := moments points memberships
  if total == 0 then Scalar.nan else weighted / total

/-- The index at which the running sum of the memberships first reaches half of the total, found
by bisection and kept within the list. -/
def bisectorIndex (memberships : List α) : Nat :=
  let sums := (Scalar.runningSums 0 memberships).toArray
  let half := sums.getD (sums.size - 1) 0 / 2
  min (searchFirst (fun i => sums.getD i 0 < half) 0 sums.size) (sums.size - 1)

/-- The greatest membership, and an infinity below all numbers when there is none. -/
def peak (memberships : List α) : α := memberships.foldl Scalar.max (-Scalar.infinity)

/-- The points whose membership is the greatest one, in their order. -/
def maxima (points memberships : List α) : List α :=
  let top := peak memberships
  ((points.zip memberships).filter fun (_, m) => m == top).map Prod.fst

/-- The point that a sampled membership function is reduced to. -/
def reduce (method : Defuzzification) (points memberships : List α) : α :=
  if points.isEmpty then Scalar.nan
  else
    match method with
    | centroid => centroidOf points memberships
    | bisector => points.getD (bisectorIndex memberships) Scalar.nan
    | middleOfMaxima => Scalar.median (maxima points memberships)
    | smallestOfMaxima => (Scalar.minimum? (maxima points memberships)).getD Scalar.nan
    | largestOfMaxima => (Scalar.maximum? (maxima points memberships)).getD Scalar.nan

end Defuzzification

end FuzzyInference
