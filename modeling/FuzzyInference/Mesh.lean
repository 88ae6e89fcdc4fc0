import FuzzyInference.Scalar.Basic

/-!
# Meshes

The points at which an interval is sampled. A counted mesh is evenly spaced and ends exactly on the
upper bound; a stepped mesh holds the multiples of the step, from the lower bound on, that stay
below the upper one. The points of a mesh are handed out one after another by a walk, which can tell
how many of them are left. Memory is taken to suffice for every mesh.
-/

namespace FuzzyInference

/-- How finely an interval is sampled. -/
inductive Steps (α : Type) where
  /-- That many points. -/
  | count (n : Nat)
  /-- Points at that distance. -/
  | size (h : α)
  deriving Repr, BEq

namespace Mesh

/-! ### Walks -/

/-- A walk along points that are numbered from zero. -/
structure Walk (α : Type) where
  /-- The point at an index. -/
  point : Nat → α
  /-- The number of all points. -/
  length : Nat
  /-- The index of the next point. -/
  index : Nat := 0

namespace Walk

variable {α : Type}

/-- The next point and the walk behind it, if there is a next point. -/
def next? (w : Walk α) : Option (α × Walk α) :=
  if w.index < w.length then some (w.point w.index, { w with index := w.index + 1 }) else none

/-- The number of points that are left. A walk beyond its end has no such number. -/
def remaining? (w : Walk α) : Option Nat :=
  if w.index ≤ w.length then some (w.length - w.index) else none

/-- A walk has a next point before its end only, and moves on by one. -/
theorem next?_eq_some_iff {w rest : Walk α} {x : α} : w.next? = some (x, rest) ↔
    w.index < w.length ∧ w.point w.index = x ∧ { w with index := w.index + 1 } = rest := by
  by_cases h : w.index < w.length
  · simp [next?, h]
  · simp [next?, h]

/-- The points that are left, behind those that were collected so far. -/
def collect (points : Array α) (w : Walk α) : Array α :=
  match _h : w.next? with
  | none => points
  | some (x, rest) => rest.collect (points.push x)
termination_by w.length - w.index
decreasing_by
  obtain ⟨hlt, -, rfl⟩ := next?_eq_some_iff.mp _h
  exact Nat.sub_lt_sub_left hlt w.index.lt_succ_self

/-- The points that are left, collected where there is room for all of them. -/
def toList (w : Walk α) : List α :=
  (w.collect (Array.emptyWithCapacity (w.remaining?.getD 0))).toList

end Walk

/-! ### Points -/

variable {α : Type} [Scalar α]

/-- The distance between two neighbours of `n` points evenly spaced over an interval, and zero for
fewer than two points. -/
def spacing (low high : α) (n : Nat) : α :=
  if 1 < n then (high - low) / Scalar.ofNat (n - 1) else 0

/-- The point at index `i` of `n` evenly spaced points; the last of several is the upper bound. -/
def countedPoint (low high : α) (n i : Nat) : α :=
  if i + 1 = n ∧ 1 < n then high else low + spacing low high n * Scalar.ofNat i

/-- A walk along `n` points evenly spaced over an interval. -/
def countedWalk (low high : α) (n : Nat) : Walk α :=
  { point := countedPoint low high n, length := n }

/-- `n` points evenly spaced over an interval, both bounds included. -/
def counted (low high : α) (n : Nat) : List α := (countedWalk low high n).toList

/-- The number of multiples of a step that fit below the upper bound. -/
def steppedLength (low high step : α) : Nat := Scalar.ceilNat ((high - low) / step)

/-- A walk along the multiples of a step from the lower bound on. -/
def steppedWalk (low high step : α) : Walk α :=
  { point := fun i => low + step * Scalar.ofNat i, length := steppedLength low high step }

/-- The points `low`, `low + step`, `low + 2 * step` and so on below the upper bound. -/
def stepped (low high step : α) : List α := (steppedWalk low high step).toList

/-- The mesh of an interval. -/
def points (low high : α) : Steps α → List α
  | .count n => counted low high n
  | .size h => stepped low high h

end Mesh

end FuzzyInference
