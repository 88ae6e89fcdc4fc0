import FuzzyInference.Proofs.FuzzySystem.Monotone
import FuzzyInference.Proofs.Operator.Grouping

/-!
# Combinations of one part

Whether a single part stands under a conjunction or under a disjunction makes no difference: without
rounding, and with labels that give degrees in the unit interval, every operator leaves one degree
as it is. So all such combinations may be taken for conjunctions, in propositions as in statements.
-/

namespace FuzzyInference

open Result Scalar

namespace Proposition

/-- The disjunction of propositions, but the conjunction of a single one. -/
def disjoin : List Proposition → Proposition
  | [p] => and [p]
  | ps => or ps

mutual

/-- The proposition in which combinations of one part are conjunctions. -/
def singlesConjoined : Proposition → Proposition
  | is h label => is h label
  | isNot h label => isNot h label
  | not p => not (singlesConjoined p)
  | and ps => and (singlesConjoinedAll ps)
  | or ps => disjoin (singlesConjoinedAll ps)

/-- The propositions in which combinations of one part are conjunctions. -/
def singlesConjoinedAll : List Proposition → List Proposition
  | [] => []
  | p :: ps => singlesConjoined p :: singlesConjoinedAll ps

end

section Degrees

variable {r : Registry Exact} {inputs : Assignment Exact} {ctx : Context}

/-- Labels that give degrees to the values of their variables do so in all valuations. -/
theorem valuationsHave_of_givesValues {α : Type} [Scalar α] {P : α → Prop} {r : Registry α}
    {inputs : Assignment α} (h : r.GivesValues P inputs ctx) (read : List (Handle × String)) :
    ValuationsHave P r inputs ctx read := by
  intro a _ d hd
  obtain ⟨v, hv, hd⟩ := bind_eq_ok_iff.mp hd
  obtain ⟨set, hset, hd⟩ := bind_eq_ok_iff.mp hd
  obtain ⟨x, hx, hd⟩ := bind_eq_ok_iff.mp hd
  cases hd
  exact h v (Registry.mem_of_get hv) x hx set (Variable.mem_values_of_get hset)

/-- A disjunction of several propositions has the degree that they combine to, also if it is the
conjunction of a single one. -/
theorem degree_disjoin (h : r.GivesValues IsDegree inputs ctx) (ps : List Proposition) :
    (disjoin ps).degree r inputs ctx = (or ps).degree r inputs ctx := by
  unfold disjoin
  split
  · next p =>
    simp only [degree, degrees, bind_assoc, pure_bind]
    apply bind_congr_of_ok
    intro d hd
    have hdegree : IsDegree d :=
      degree_kept_of_valuations Exact.kept_isDegree (valuationsHave_of_givesValues h _) hd
    rw [ctx.conjunction.groupsFreely.single hdegree, ctx.disjunction.groupsFreely.single hdegree]
  · rfl

mutual

/-- Where combinations of one part are conjunctions, the degree is the same. -/
theorem degree_singlesConjoined (h : r.GivesValues IsDegree inputs ctx) :
    (p : Proposition) → p.singlesConjoined.degree r inputs ctx = p.degree r inputs ctx
  | is _ _ | isNot _ _ => rfl
  | not p => by rw [singlesConjoined, degree, degree, degree_singlesConjoined h p]
  | and ps => by rw [singlesConjoined, degree, degree, degrees_singlesConjoinedAll h ps]
  | or ps => by
    rw [singlesConjoined, degree_disjoin h, degree, degree, degrees_singlesConjoinedAll h ps]

/-- So are the degrees of several propositions. -/
theorem degrees_singlesConjoinedAll (h : r.GivesValues IsDegree inputs ctx) :
    (ps : List Proposition) →
      degrees r inputs ctx (singlesConjoinedAll ps) = degrees r inputs ctx ps
  | [] => rfl
  | p :: ps => by
    rw [singlesConjoinedAll, degrees, degrees, degree_singlesConjoined h p,
      degrees_singlesConjoinedAll h ps]

end

end Degrees

end Proposition

namespace Statement

/-- The disjunction of statements, but the conjunction of a single one. -/
def disjoin : List Statement → Statement
  | [s] => and [s]
  | ss => or ss

mutual

/-- The statement in which combinations of one part are conjunctions. -/
def singlesConjoined : Statement → Statement
  | is subject label => is subject label
  | isNot subject label => isNot subject label
  | not children => not (singlesConjoinedAll children)
  | and children => and (singlesConjoinedAll children)
  | or children => disjoin (singlesConjoinedAll children)

/-- The statements in which combinations of one part are conjunctions. -/
def singlesConjoinedAll : List Statement → List Statement
  | [] => []
  | s :: rest => singlesConjoined s :: singlesConjoinedAll rest

end

/-- The degree to which a statement holds: that of the proposition which it makes about the
variables of a registry. -/
def degree {α : Type} [Scalar α] (r : Registry α) (inputs : Assignment α) (ctx : Context)
    (s : Statement) : Checked α α := do
  let p ← s.resolve r
  (p.degree r inputs ctx).mapError Fault.lookup

section Resolution

variable {α : Type} [Scalar α] {r : Registry α}

/-- A disjunction of statements makes a disjunction of propositions, also if it is the conjunction
of a single one. -/
theorem resolve_disjoin : (ss : List Statement) → (disjoin ss).resolve r = (do
    let ps ← resolveAll r ss
    if ps.isEmpty then .error (.rule .emptyCombination) else return Proposition.disjoin ps)
  | [] => rfl
  | [s] => by
    simp only [disjoin, resolve, resolveAll, bind_assoc, pure_bind]
    rfl
  | s :: t :: rest => by
    simp only [disjoin, resolve, resolveAll, bind_assoc, pure_bind]
    rfl

private theorem map_bind {ε β γ δ : Type} (x : Except ε β) (f : β → γ) (g : γ → Except ε δ) :
    (x.map f >>= g) = x >>= fun b ↦ g (f b) := by
  cases x <;> rfl

mutual

/-- A statement in which combinations of one part are conjunctions makes the proposition in which
they are. -/
theorem resolve_singlesConjoined :
    (s : Statement) → s.singlesConjoined.resolve r = (s.resolve r).map Proposition.singlesConjoined
  | is subject label => by
    simp only [singlesConjoined, resolve]
    cases resolveSubject r subject label <;> rfl
  | isNot subject label => by
    simp only [singlesConjoined, resolve]
    cases resolveSubject r subject label <;> rfl
  | not [] | not (_ :: _ :: _) => rfl
  | not [s] => by
    simp only [singlesConjoined, singlesConjoinedAll, resolve, resolve_singlesConjoined s, map_bind]
    cases s.resolve r <;> rfl
  | and ss => by
    simp only [singlesConjoined, resolve, resolveAll_singlesConjoinedAll ss, map_bind]
    cases resolveAll r ss with
    | error fault => rfl
    | ok ps => cases ps <;> rfl
  | or ss => by
    rw [singlesConjoined, resolve_disjoin, resolve, resolveAll_singlesConjoinedAll ss, map_bind]
    cases resolveAll r ss with
    | error fault => rfl
    | ok ps => cases ps <;> rfl

/-- So do several statements. -/
theorem resolveAll_singlesConjoinedAll : (ss : List Statement) →
    resolveAll r (singlesConjoinedAll ss) = (resolveAll r ss).map Proposition.singlesConjoinedAll
  | [] => rfl
  | s :: ss => by
    simp only [singlesConjoinedAll, resolveAll, resolve_singlesConjoined s,
      resolveAll_singlesConjoinedAll ss, map_bind]
    cases s.resolve r with
    | error fault => rfl
    | ok p => cases resolveAll r ss <;> rfl

end

end Resolution

/-- Where combinations of one part are conjunctions, a statement holds to the same degree. -/
theorem degree_singlesConjoined {r : Registry Exact} {inputs : Assignment Exact} {ctx : Context}
    (h : r.GivesValues IsDegree inputs ctx) (s : Statement) :
    s.singlesConjoined.degree r inputs ctx = s.degree r inputs ctx := by
  simp only [degree, resolve_singlesConjoined, map_bind, Proposition.degree_singlesConjoined h]

end Statement

end FuzzyInference
