import FuzzyInference.Proofs.CSource.Prelude

/-!
# The meaning of written combinations

What a conjunction or a disjunction of written operands means. An operand may be written bare, as a
difference from one without parentheses. A sum and the arguments of a function keep the meaning of a
bare operand; the probabilistic sum, which writes each operand behind a minus sign, does not: it
takes the complement of a bare operand with the opposite sign.
-/

namespace FuzzyInference.CSource

open Expression

variable {functions : Functions Exact} {env : Environment Exact}

/-- An operand is written as a product or the like, or bare, as a difference from one. -/
def Stands (functions : Functions Exact) (env : Environment Exact) (bare : Bool)
    (e : Expression Exact) (x : Exact) : Prop :=
  if bare then ∃ rest y, e = literal 1 ++ .minus :: rest ∧ Means functions env 2 rest y ∧ x = 1 - y
  else Means functions env 2 e x

namespace Stands

variable {b : Bool} {e l : Expression Exact} {x y : Exact}

/-- An expression that is at most a product is no bare operand. -/
theorem of_means {n : Nat} (hn : n ≤ 2) (h : Means functions env n e x) :
    Stands functions env false e x :=
  h.of_le hn

/-- A difference from one is a bare operand. -/
theorem bare (h : Means functions env 2 e x) :
    Stands functions env true (literal 1 ++ .minus :: e) (1 - x) :=
  ⟨e, x, rfl, h, rfl⟩

/-- Every operand is at most a sum. -/
theorem means (h : Stands functions env b e x) : Means functions env 3 e x := by
  cases b with
  | false => exact Means.of_le (by decide) h
  | true =>
    obtain ⟨rest, y, rfl, hy, rfl⟩ := h
    exact ((Means.number 1).of_le (by decide)).minus hy

/-- Every operand may be added. -/
theorem plus (h : Stands functions env b e x) (hl : Means functions env 3 l y) :
    Means functions env 3 (l ++ .plus :: e) (y + x) := by
  cases b with
  | false => exact hl.plus h
  | true =>
    obtain ⟨rest, z, rfl, hz, rfl⟩ := h
    -- The sum and the difference group from the left.
    have hsum := (hl.plus ((Means.number 1).of_le (by decide))).minus hz
    rw [show (1 : Exact) = .number 1 from by simp, Exact.add_number_sub] at hsum
    simpa using hsum

/-- What a complement of an operand comes to: the opposite if the operand is bare. -/
theorem complement (h : Stands functions env b e x) :
    Means functions env 3 (literal 1 ++ .minus :: e) (if b then -(1 - x) else 1 - x) := by
  have hone : Means functions env 3 (literal 1) (1 : Exact) := (Means.number 1).of_le (by decide)
  cases b with
  | false => exact hone.minus h
  | true =>
    obtain ⟨rest, y, rfl, hy, rfl⟩ := h
    have hd := (hone.minus ((Means.number 1).of_le (by decide))).minus hy
    rw [show (1 : Exact) = .number 1 from by simp, Exact.one_sub_one_sub] at hd
    simpa using hd

end Stands

/-- Expressions are written operands, bare or not, of given values. -/
def StandAll (functions : Functions Exact) (env : Environment Exact) :
    List (Expression Exact) → List (Bool × Exact) → Prop :=
  List.Forall₂ fun e o ↦ Stands functions env o.1 e o.2

/-! ### Chains of operators -/

/-- Expressions with a word between them are the first one and the others behind that word. -/
theorem joined_cons {α : Type} (w : Token α) (e : Expression α) (es : List (Expression α)) :
    joined w (e :: es) = e ++ es.flatMap (w :: ·) := by
  induction es generalizing e with
  | nil => simp [joined]
  | cons e' es ih =>
    rw [joined, ih e', List.flatMap_cons, List.cons_append]
    nofun

private theorem sum_from {es : List (Expression Exact)} {os : List (Bool × Exact)}
    (h : StandAll functions env es os) {l : Expression Exact} {x : Exact}
    (hl : Means functions env 3 l x) :
    Means functions env 3 (l ++ es.flatMap (.plus :: ·)) ((os.map Prod.snd).foldl (· + ·) x) := by
  induction h generalizing l x with
  | nil => simpa using hl
  | cons he _ ih => simpa using ih (he.plus hl)

/-- A chain of additions means the sum. -/
theorem sum_means {es : List (Expression Exact)} {os : List (Bool × Exact)}
    (h : StandAll functions env es os) (hne : es ≠ []) :
    Means functions env 3 (joined .plus es) (Scalar.sum (os.map Prod.snd)) := by
  cases h with
  | nil => exact absurd rfl hne
  | cons he hes =>
    rw [joined_cons, List.map_cons, Scalar.sum, List.foldl_cons,
      show (0 : Exact) = .number 0 from by simp, Exact.zero_add]
    exact sum_from hes he.means

private theorem product_from {es : List (Expression Exact)} {xs : List Exact}
    (h : List.Forall₂ (Means functions env 0) es xs) {l : Expression Exact} {x : Exact}
    (hl : Means functions env 2 l x) :
    Means functions env 2 (l ++ es.flatMap (.times :: ·)) (xs.foldl (· * ·) x) := by
  induction h generalizing l x with
  | nil => simpa using hl
  | cons he _ ih => simpa using ih (hl.times (he.of_le (by decide)))

/-- A chain of multiplications means the product. -/
theorem product_means {es : List (Expression Exact)} {xs : List Exact}
    (h : List.Forall₂ (Means functions env 0) es xs) (hne : es ≠ []) :
    Means functions env 2 (joined .times es) (Scalar.product xs) := by
  cases h with
  | nil => exact absurd rfl hne
  | cons he hes =>
    rw [joined_cons, Scalar.product, List.foldl_cons, show (1 : Exact) = .number 1 from by simp,
      Exact.one_mul]
    exact product_from hes (he.of_le (by decide))

/-- A single operand of a nested call stays as it is. -/
def onlyBare : List Bool → Bool
  | [b] => b
  | _ => false

private theorem nested_from {function : String} {f : Exact → Exact → Exact}
    (henv : env function = none) (hf : ∀ x y, functions function [x, y] = some (f x y))
    {es : List (Expression Exact)} {os : List (Bool × Exact)} (h : StandAll functions env es os)
    {l : Expression Exact} {x : Exact} (hl : Means functions env 0 l x) :
    Means functions env 0 (es.foldl (fun acc operand ↦ call function [acc, operand]) l)
      ((os.map Prod.snd).foldl f x) := by
  induction h generalizing l x with
  | nil => simpa using hl
  | @cons e o es os he hes ih =>
    have hc : Means functions env 0 (call function [l, e]) (f x o.2) :=
      .call henv (by simp) (.cons (hl.passes (by decide))
        (.cons (he.means.passes (by decide)) .nil)) (hf _ _)
    simpa using ih hc

private theorem nested_stands {function : String} {f : Exact → Exact → Exact}
    (henv : env function = none) (hf : ∀ x y, functions function [x, y] = some (f x y))
    {e : Expression Exact} {o : Bool × Exact} {es : List (Expression Exact)}
    {os : List (Bool × Exact)} (he : Stands functions env o.1 e o.2)
    (hes : StandAll functions env es os) :
    Stands functions env (onlyBare ((o :: os).map Prod.fst)) (nested function (e :: es))
      ((os.map Prod.snd).foldl f o.2) := by
  cases hes with
  | nil => exact he
  | @cons e' o' es os he' hes =>
    have hc : Means functions env 0 (call function [e, e']) (f o.2 o'.2) :=
      .call henv (by simp) (.cons (he.means.passes (by decide))
        (.cons (he'.means.passes (by decide)) .nil)) (hf _ _)
    exact .of_means (Nat.zero_le 2) (nested_from henv hf hes hc)

/-! ### Operators -/

/-- A conjunction of operands is written bare. -/
def conjunctionBare (op : Conjunction) (bare : List Bool) : Bool :=
  match op with
  | .minimum => onlyBare bare
  | .product | .lukasiewicz => false

/-- A disjunction of operands is written bare. -/
def disjunctionBare (op : Disjunction) (bare : List Bool) : Bool :=
  match op with
  | .maximum => onlyBare bare
  | .probabilisticSum => true
  | .boundedSum => false

/-- The factor that an operand of a probabilistic sum contributes as it is written. -/
def writtenComplement {α : Type} [Scalar α] (o : Bool × α) : α :=
  if o.1 then -(1 - o.2) else 1 - o.2

/-- What a disjunction of operands comes to as it is written. -/
def writtenDisjunction {α : Type} [Scalar α] (op : Disjunction) (os : List (Bool × α)) : α :=
  match op with
  | .maximum | .boundedSum => op.combine (os.map Prod.snd)
  | .probabilisticSum => 1 - Scalar.product (os.map writtenComplement)

/-- No variable has the name of a function that expressions call. -/
def Unshadowed (env : Environment Exact) : Prop :=
  ∀ function ∈ ["fmin", "fmax", "fz_lerp", "fz_triangular", "fz_trapezoidal", "fz_gaussian",
    "fz_gaussian2", "fz_bell", "fz_sigmoid", "fz_s_shaped"], env function = none

variable {es : List (Expression Exact)} {os : List (Bool × Exact)}

/-- A written conjunction means the conjunction of its operands. -/
theorem conjunction_stands (hk : KnowsPrelude functions) (hu : Unshadowed env) (op : Conjunction)
    (h : StandAll functions env es os) (hne : es ≠ []) :
    Stands functions env (conjunctionBare op (os.map Prod.fst)) (conjunction op es)
      (op.combine (os.map Prod.snd)) := by
  cases op with
  | minimum =>
    cases h with
    | nil => exact absurd rfl hne
    | cons he hes => exact nested_stands (hu _ (by simp)) hk.fmin he hes
  | product =>
    have hg : List.Forall₂ (Means functions env 0) (es.map grouped) (os.map Prod.snd) := by
      rw [List.forall₂_map_left_iff, List.forall₂_map_right_iff]
      exact h.imp fun _ _ he ↦ he.means.group (by decide)
    exact .of_means (Nat.le_refl 2) (product_means hg (by simpa using hne))
  | lukasiewicz =>
    have hsum := sum_means h hne
    have hlen : es.length = os.length := h.length_eq
    have hpos : 0 < es.length := List.length_pos_iff.mpr hne
    have hd := hsum.minus ((Means.number (Scalar.ofNat (es.length - 1))).of_le (by decide))
    have hc : Means functions env 0 (conjunction .lukasiewicz es) _ :=
      .call (hu _ (by simp)) (by simp) (.cons ((Means.number 0).passes (by decide))
        (.cons (hd.passes (by decide)) .nil)) (hk.fmax _ _)
    have hn : (Scalar.ofNat (es.length - 1) : Exact) = Scalar.ofNat os.length - 1 := by
      simp [← hlen, Nat.cast_sub hpos]
    rw [hn] at hc
    exact .of_means (Nat.zero_le 2) (by simpa [Conjunction.combine] using hc)

/-- A written disjunction means what its operands come to as they are written. -/
theorem disjunction_stands (hk : KnowsPrelude functions) (hu : Unshadowed env) (op : Disjunction)
    (h : StandAll functions env es os) (hne : es ≠ []) :
    Stands functions env (disjunctionBare op (os.map Prod.fst)) (disjunction op es)
      (writtenDisjunction op os) := by
  cases op with
  | maximum =>
    cases h with
    | nil => exact absurd rfl hne
    | cons he hes => exact nested_stands (hu _ (by simp)) hk.fmax he hes
  | probabilisticSum =>
    have hg : List.Forall₂ (Means functions env 0)
        (es.map fun e ↦ grouped (literal 1 ++ .minus :: e)) (os.map writtenComplement) := by
      rw [List.forall₂_map_left_iff, List.forall₂_map_right_iff]
      exact h.imp fun _ _ he ↦ he.complement.group (by decide)
    exact .bare (product_means hg (by simpa using hne))
  | boundedSum =>
    have hc : Means functions env 0 (disjunction .boundedSum es) _ :=
      .call (hu _ (by simp)) (by simp) (.cons ((Means.number 1).passes (by decide))
        (.cons ((sum_means h hne).passes (by decide)) .nil)) (hk.fmin _ _)
    exact .of_means (Nat.zero_le 2) hc

/-- As it is written, a disjunction whose operands are not bare comes to what it should. -/
theorem writtenDisjunction_eq_combine (op : Disjunction) (h : ∀ o ∈ os, o.1 = false) :
    writtenDisjunction op os = op.combine (os.map Prod.snd) := by
  cases op with
  | maximum => rfl
  | probabilisticSum =>
    have hm : os.map writtenComplement = (os.map Prod.snd).map (1 - ·) := by
      rw [List.map_map]
      exact List.map_congr_left fun o ho ↦ by simp [writtenComplement, h o ho]
    rw [writtenDisjunction, Disjunction.combine, hm]
  | boundedSum => rfl

/-- Expressions that are at most products are written operands, none of them bare. -/
theorem standAll_of_means {n : Nat} (hn : n ≤ 2) {xs : List Exact}
    (h : List.Forall₂ (Means functions env n) es xs) :
    StandAll functions env es (xs.map (Prod.mk false)) := by
  rw [StandAll, List.forall₂_map_right_iff]
  exact h.imp fun _ _ he ↦ .of_means hn he

/-- A written conjunction of operands that are not bare means their conjunction. -/
theorem conjunction_means (hk : KnowsPrelude functions) (hu : Unshadowed env) (op : Conjunction)
    {n : Nat} (hn : n ≤ 2) {xs : List Exact} (h : List.Forall₂ (Means functions env n) es xs)
    (hne : es ≠ []) : Means functions env 3 (conjunction op es) (op.combine xs) := by
  have hs := (conjunction_stands hk hu op (standAll_of_means hn h) hne).means
  rwa [List.map_map, show Prod.snd ∘ Prod.mk false = (id : Exact → Exact) from rfl,
    List.map_id] at hs

/-- A written disjunction of operands that are not bare means their disjunction. -/
theorem disjunction_means (hk : KnowsPrelude functions) (hu : Unshadowed env) (op : Disjunction)
    {n : Nat} (hn : n ≤ 2) {xs : List Exact} (h : List.Forall₂ (Means functions env n) es xs)
    (hne : es ≠ []) : Means functions env 3 (disjunction op es) (op.combine xs) := by
  have hs := (disjunction_stands hk hu op (standAll_of_means hn h) hne).means
  rwa [writtenDisjunction_eq_combine op (by simp), List.map_map,
    show Prod.snd ∘ Prod.mk false = (id : Exact → Exact) from rfl, List.map_id] at hs

/-! ### The sign of a probabilistic sum -/

private theorem foldl_mul_neg (xs : List Exact) (x : Exact) :
    xs.foldl (· * ·) (-x) = -xs.foldl (· * ·) x := by
  induction xs generalizing x with
  | nil => rfl
  | cons y ys ih => rw [List.foldl_cons, Exact.neg_mul, ih, List.foldl_cons]

private theorem foldl_writtenComplement (os : List (Bool × Exact)) (x : Exact) :
    (os.map writtenComplement).foldl (· * ·) x =
      if Even ((os.map Prod.fst).count true) then
        ((os.map Prod.snd).map (1 - ·)).foldl (· * ·) x
      else -((os.map Prod.snd).map (1 - ·)).foldl (· * ·) x := by
  induction os generalizing x with
  | nil => simp
  | cons o os ih =>
    obtain ⟨b, y⟩ := o
    simp only [List.map_cons, List.foldl_cons, ih]
    cases b with
    | false => simp [writtenComplement]
    | true =>
      simp only [writtenComplement, if_true, Exact.mul_neg, foldl_mul_neg, Exact.neg_neg,
        List.count_cons_self, Nat.even_add_one]
      by_cases he : Even ((os.map Prod.fst).count true)
      · rw [if_pos he, if_neg (not_not.mpr he)]
      · rw [if_neg he, if_pos he]

/-- As it is written, a probabilistic sum comes to what it should exactly if the number of its bare
operands is even, or the product of the complements has no sign. -/
theorem writtenDisjunction_eq_combine_iff (os : List (Bool × Exact)) :
    writtenDisjunction .probabilisticSum os =
        Disjunction.probabilisticSum.combine (os.map Prod.snd) ↔
      Even ((os.map Prod.fst).count true) ∨
        Scalar.product ((os.map Prod.snd).map (1 - ·)) = .number 0 ∨
        Scalar.product ((os.map Prod.snd).map (1 - ·)) = .nan := by
  have hone : (1 : Exact) = .number 1 := by simp
  rw [writtenDisjunction, Disjunction.combine, hone, Exact.one_sub_injective, ← hone,
    ← Exact.neg_eq_self_iff, Scalar.product, Scalar.product, foldl_writtenComplement]
  by_cases he : Even ((os.map Prod.fst).count true)
  · simp [he]
  · simp [he]

end FuzzyInference.CSource
