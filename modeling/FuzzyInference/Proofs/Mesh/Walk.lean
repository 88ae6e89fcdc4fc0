import FuzzyInference.Mesh

/-!
# Walks along meshes

A walk hands out its points one after another and then stops. Wherever it has come to, the points
behind it and those still ahead make up all of its points, and the number of points left that it
reports is the number of those ahead, so that the subtraction behind it never falls below zero.

Collecting the points of a walk yields the points at all indices below its length.
-/

namespace FuzzyInference.Mesh

namespace Walk

variable {α : Type} {w v : Walk α} {x : α} {xs : List α}

/-- The points at all indices from the next one on. -/
def ahead (w : Walk α) : List α := (List.range' w.index (w.length - w.index)).map w.point

/-! ### One step -/

/-- A walk stops exactly at its end. -/
theorem next?_eq_none_iff : w.next? = none ↔ w.length ≤ w.index := by
  rw [next?, ite_eq_right_iff]
  simp

/-- A step does not lead beyond the end. -/
theorem index_le_of_next? (h : w.next? = some (x, v)) : v.index ≤ v.length := by
  obtain ⟨hlt, -, rfl⟩ := next?_eq_some_iff.mp h
  exact hlt

/-- A step hands out the first point ahead. -/
theorem ahead_of_next? (h : w.next? = some (x, v)) : w.ahead = x :: v.ahead := by
  obtain ⟨hlt, rfl, rfl⟩ := next?_eq_some_iff.mp h
  have hleft : w.length - w.index = w.length - (w.index + 1) + 1 := by omega
  rw [ahead, hleft, List.range'_succ]
  rfl

/-- Where a walk stops, no points are ahead. -/
theorem ahead_of_next?_eq_none (h : w.next? = none) : w.ahead = [] := by
  rw [ahead, Nat.sub_eq_zero_of_le (next?_eq_none_iff.mp h), List.range'_zero, List.map_nil]

/-- Up to its end a walk reports the number of points ahead. -/
theorem remaining?_eq_length_ahead (hw : w.index ≤ w.length) :
    w.remaining? = some w.ahead.length := by
  rw [remaining?, if_pos hw, ahead, List.length_map, List.length_range']

/-! ### All points -/

/-- Collecting adds the points ahead to those collected so far. -/
theorem toList_collect (points : Array α) (w : Walk α) :
    (w.collect points).toList = points.toList ++ w.ahead := by
  fun_induction collect points w with
  | case1 points w hstop => rw [ahead_of_next?_eq_none hstop, List.append_nil]
  | case2 points w x v hnext ih =>
    rw [ih, ahead_of_next? hnext, Array.toList_push, List.append_assoc, List.singleton_append]

/-- The list of the points of a walk is that of the points ahead. -/
theorem toList_eq_ahead (w : Walk α) : w.toList = w.ahead :=
  toList_collect _ w

/-! ### Runs -/

/-- A walk hands out points, one by one, and comes to what is left of it. -/
inductive HandsOut : Walk α → List α → Walk α → Prop where
  /-- No point has been asked for. -/
  | nothing (w : Walk α) : HandsOut w [] w
  /-- The next point is handed out, and the other ones behind it. -/
  | next {w v rest : Walk α} {x : α} {xs : List α} (hnext : w.next? = some (x, v))
    (hrest : HandsOut v xs rest) : HandsOut w (x :: xs) rest

/-- A run does not lead beyond the end. -/
theorem HandsOut.index_le (h : w.HandsOut xs v) (hw : w.index ≤ w.length) :
    v.index ≤ v.length := by
  induction h with
  | nothing w => exact hw
  | next hnext _ ih => exact ih (index_le_of_next? hnext)

/-- The points that a run hands out come first among those that were ahead. -/
theorem HandsOut.ahead_eq (h : w.HandsOut xs v) : w.ahead = xs ++ v.ahead := by
  induction h with
  | nothing w => rfl
  | next hnext _ ih => rw [ahead_of_next? hnext, ih, List.cons_append]

/-- A walk can hand out all points ahead, and stops behind them. -/
theorem exists_handsOut_ahead (w : Walk α) : ∃ v, w.HandsOut w.ahead v ∧ v.next? = none := by
  induction hleft : w.length - w.index generalizing w with
  | zero =>
    have hstop : w.next? = none := next?_eq_none_iff.mpr (Nat.le_of_sub_eq_zero hleft)
    refine ⟨w, ?_, hstop⟩
    rw [ahead_of_next?_eq_none hstop]
    exact .nothing w
  | succ n ih =>
    have hnext : w.next? = some (w.point w.index, { w with index := w.index + 1 }) :=
      next?_eq_some_iff.mpr ⟨by omega, rfl, rfl⟩
    obtain ⟨v, hrun, hstop⟩ := ih { w with index := w.index + 1 } (by simp only; omega)
    refine ⟨v, ?_, hstop⟩
    rw [ahead_of_next? hnext]
    exact .next hnext hrun

/-- Wherever the walk comes to, it goes on to hand out the rest of the given points and stops, and
the number that it reports is that of the rest. -/
def CountsDown (w : Walk α) (points : List α) : Prop :=
  ∀ xs v, w.HandsOut xs v → ∃ ys last, v.HandsOut ys last ∧ last.next? = none ∧
    points = xs ++ ys ∧ v.remaining? = some ys.length

/-- A walk that is not beyond its end counts its points down. -/
theorem countsDown_toList (hw : w.index ≤ w.length) : w.CountsDown w.toList := by
  intro xs v hrun
  obtain ⟨last, hrest, hstop⟩ := v.exists_handsOut_ahead
  exact ⟨v.ahead, last, hrest, hstop, w.toList_eq_ahead.trans hrun.ahead_eq,
    remaining?_eq_length_ahead (hrun.index_le hw)⟩

end Walk

/-! ### Walks along meshes -/

variable {α : Type} [Scalar α] {low high step : α} {n : Nat}

/-- A counted mesh holds the points at all indices below the count. -/
theorem counted_eq_map : counted low high n = (List.range n).map (countedPoint low high n) := by
  rw [List.range_eq_range']
  exact (countedWalk low high n).toList_eq_ahead

/-- A stepped mesh holds the multiples at all indices below its length. -/
theorem stepped_eq_map : stepped low high step =
    (List.range (steppedLength low high step)).map fun i ↦ low + step * Scalar.ofNat i := by
  rw [List.range_eq_range']
  exact (steppedWalk low high step).toList_eq_ahead

/-- A walk along a counted mesh counts its points down. -/
theorem countedWalk_countsDown : (countedWalk low high n).CountsDown (counted low high n) :=
  Walk.countsDown_toList n.zero_le

/-- A walk along a stepped mesh counts its points down. -/
theorem steppedWalk_countsDown :
    (steppedWalk low high step).CountsDown (stepped low high step) :=
  Walk.countsDown_toList (Nat.zero_le _)

end FuzzyInference.Mesh
