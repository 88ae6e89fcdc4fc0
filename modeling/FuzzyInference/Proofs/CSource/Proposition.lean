import FuzzyInference.Proofs.CSource.FuzzySet
import FuzzyInference.Proofs.Proposition.Degree

/-!
# The meaning of written propositions

The expression for a proposition means its degree as it is written: the degree in which every bare
operand of a probabilistic sum counts with the opposite complement. It is the degree of the
proposition if every such sum is balanced.
-/

namespace FuzzyInference.Proposition

open Result

mutual

/-- A proposition is written bare, as a difference from one without parentheses. -/
def isBare (ctx : Context) : Proposition → Bool
  | is .. => false
  | isNot .. => true
  | not _ => true
  | and ps => CSource.conjunctionBare ctx.conjunction (areBare ctx ps)
  | or ps => CSource.disjunctionBare ctx.disjunction (areBare ctx ps)

/-- Which propositions of a list are written bare. -/
def areBare (ctx : Context) : List Proposition → List Bool
  | [] => []
  | p :: ps => isBare ctx p :: areBare ctx ps

end

section

variable {α : Type} [Scalar α]

mutual

/-- The degree to which a proposition holds as it is written. -/
def writtenDegree (r : Registry α) (inputs : Assignment α) (ctx : Context) :
    Proposition → Except LookupFault α
  | is h label => valuation r inputs ctx h label
  | isNot h label => return 1 - (← valuation r inputs ctx h label)
  | not p => return 1 - (← writtenDegree r inputs ctx p)
  | and ps => return ctx.conjunction.combine (← writtenDegrees r inputs ctx ps)
  | or ps => do
    let ds ← writtenDegrees r inputs ctx ps
    return CSource.writtenDisjunction ctx.disjunction ((areBare ctx ps).zip ds)

/-- The degrees to which several propositions hold as they are written. -/
def writtenDegrees (r : Registry α) (inputs : Assignment α) (ctx : Context) :
    List Proposition → Except LookupFault (List α)
  | [] => return []
  | p :: ps => do
    let d ← writtenDegree r inputs ctx p
    let ds ← writtenDegrees r inputs ctx ps
    return d :: ds

end

private theorem length_of_writtenDegrees {r : Registry α} {inputs : Assignment α} {ctx : Context}
    {ps : List Proposition} {ds : List α} (h : writtenDegrees r inputs ctx ps = .ok ds) :
    ds.length = (areBare ctx ps).length := by
  induction ps generalizing ds with
  | nil =>
    cases h
    rfl
  | cons p ps ih =>
    obtain ⟨d, -, h⟩ := bind_eq_ok_iff.mp h
    obtain ⟨rest, hrest, ⟨⟩⟩ := bind_eq_ok_iff.mp h
    rw [areBare, List.length_cons, List.length_cons, ih hrest]

/-- Operands are what they are written like, and their written degrees. -/
theorem map_zip_areBare {r : Registry α} {inputs : Assignment α} {ctx : Context}
    {ps : List Proposition} {ds : List α} (h : writtenDegrees r inputs ctx ps = .ok ds) :
    ((areBare ctx ps).zip ds).map Prod.fst = areBare ctx ps ∧
      ((areBare ctx ps).zip ds).map Prod.snd = ds :=
  ⟨List.map_fst_zip (length_of_writtenDegrees h).ge,
    List.map_snd_zip (length_of_writtenDegrees h).le⟩

end

variable {r : Registry Exact} {inputs : Assignment Exact} {ctx : Context}

mutual

/-- Every probabilistic sum in a proposition is balanced: the number of its operands that are
written bare is even, or the product of the complements has no sign. -/
def Balanced (r : Registry Exact) (inputs : Assignment Exact) (ctx : Context) : Proposition → Prop
  | is .. => True
  | isNot .. => True
  | not p => Balanced r inputs ctx p
  | and ps => AllBalanced r inputs ctx ps
  | or ps => AllBalanced r inputs ctx ps ∧ (ctx.disjunction = .probabilisticSum →
    ∀ ds, degrees r inputs ctx ps = .ok ds → Even ((areBare ctx ps).count true) ∨
      Scalar.product (ds.map (1 - ·)) = .number 0 ∨ Scalar.product (ds.map (1 - ·)) = .nan)

/-- Every probabilistic sum in several propositions is balanced. -/
def AllBalanced (r : Registry Exact) (inputs : Assignment Exact) (ctx : Context) :
    List Proposition → Prop
  | [] => True
  | p :: ps => Balanced r inputs ctx p ∧ AllBalanced r inputs ctx ps

end

/-- Once its operands come to what they should, a disjunction does exactly if it is balanced. -/
theorem writtenDisjunction_eq_iff {ps : List Proposition} {ds : List Exact}
    (hw : writtenDegrees r inputs ctx ps = .ok ds) :
    CSource.writtenDisjunction ctx.disjunction ((areBare ctx ps).zip ds) =
        ctx.disjunction.combine ds ↔
      (ctx.disjunction = .probabilisticSum → Even ((areBare ctx ps).count true) ∨
        Scalar.product (ds.map (1 - ·)) = .number 0 ∨ Scalar.product (ds.map (1 - ·)) = .nan) := by
  obtain ⟨hfst, hsnd⟩ := map_zip_areBare hw
  cases hop : ctx.disjunction with
  | maximum => simp [CSource.writtenDisjunction, hsnd]
  | boundedSum => simp [CSource.writtenDisjunction, hsnd]
  | probabilisticSum =>
    have h := CSource.writtenDisjunction_eq_combine_iff ((areBare ctx ps).zip ds)
    rw [hfst, hsnd] at h
    simpa using h

mutual

/-- A balanced proposition holds as it is written to the degree to which it holds. -/
theorem writtenDegree_eq : {p : Proposition} → Balanced r inputs ctx p →
    writtenDegree r inputs ctx p = degree r inputs ctx p
  | is _ _, _ => by rw [writtenDegree, degree]
  | isNot _ _, _ => by rw [writtenDegree, degree]
  | not p, h => by rw [writtenDegree, degree, writtenDegree_eq (p := p) h]
  | and ps, h => by
    have hw : writtenDegrees r inputs ctx ps = degrees r inputs ctx ps := writtenDegrees_eq h
    rw [writtenDegree, degree, hw]
  | or ps, h => by
    have hw : writtenDegrees r inputs ctx ps = degrees r inputs ctx ps := writtenDegrees_eq h.1
    rw [writtenDegree, degree, hw]
    cases hd : degrees r inputs ctx ps with
    | error fault => rfl
    | ok ds => exact congrArg Except.ok ((writtenDisjunction_eq_iff (hw.trans hd)).mpr
        fun hop ↦ h.2 hop ds hd)

/-- Balanced propositions hold as they are written to the degrees to which they hold. -/
theorem writtenDegrees_eq : {ps : List Proposition} → AllBalanced r inputs ctx ps →
    writtenDegrees r inputs ctx ps = degrees r inputs ctx ps
  | [], _ => by rw [writtenDegrees, degrees]
  | p :: ps, h => by
    rw [writtenDegrees, degrees, writtenDegree_eq h.1, writtenDegrees_eq h.2]

end

/-- A disjunction of balanced propositions holds as it is written to the degree to which it holds
exactly if it is balanced. -/
theorem writtenDegree_or_eq_iff {ps : List Proposition} (h : AllBalanced r inputs ctx ps)
    {ds : List Exact} (hd : degrees r inputs ctx ps = .ok ds) :
    writtenDegree r inputs ctx (or ps) = degree r inputs ctx (or ps) ↔
      Balanced r inputs ctx (or ps) := by
  have hw := (writtenDegrees_eq h).trans hd
  rw [writtenDegree, degree, hw, hd, Balanced]
  have hiff := writtenDisjunction_eq_iff hw
  constructor
  · intro he
    refine ⟨h, fun hop es hes ↦ ?_⟩
    rw [hd] at hes
    cases hes
    exact hiff.mp (Except.ok.inj he) hop
  · intro hb
    exact congrArg Except.ok (hiff.mpr fun hop ↦ hb.2 hop ds hd)

end FuzzyInference.Proposition

namespace FuzzyInference.CSource

open Proposition Result

variable {functions : Functions Exact} {env : Environment Exact} {r : Registry Exact}
  {inputs : Assignment Exact} {ctx : Context}

/-- The variables that are read are given numbers, and their names stand for these. -/
def GivenNumbers (r : Registry Exact) (inputs : Assignment Exact) (env : Environment Exact)
    (read : List (Handle × String)) : Prop :=
  ∀ a ∈ read, ∀ v, r.get a.1 = .ok v → ∃ x : ℝ,
    inputs.get v.name = .ok (.number (.number x)) ∧ env v.name = some (.floating (.number x))

/-- The expression for a valuation means its degree, and needs no parentheses. -/
theorem valuation_means (hk : KnowsPrelude functions) (hu : Unshadowed env) {h : Handle}
    {label : String} (hg : GivenNumbers r inputs env [(h, label)]) {e : Expression Exact}
    (he : CSource.valuation r ctx h label = .ok e) :
    ∃ d, Proposition.valuation r inputs ctx h label = .ok d ∧ Means functions env 0 e d := by
  obtain ⟨v, hv, he⟩ := bind_eq_ok_iff.mp he
  obtain ⟨set, hs, he⟩ := bind_eq_ok_iff.mp he
  have hv := mapError_eq_ok_iff.mp hv
  have hs := mapError_eq_ok_iff.mp hs
  obtain ⟨x, hx, henv⟩ := hg (h, label) (List.mem_singleton_self _) v hv
  have hvalid := Variable.validate_of_get (r.validate_eq_ok v (Registry.mem_of_get hv)) hs
  exact ⟨_, valuation_eq hv hs hx, set_means hk hu henv hvalid he⟩

mutual

/-- The expression for a valid proposition means its degree as it is written. -/
theorem proposition_stands (hk : KnowsPrelude functions) (hu : Unshadowed env) :
    {p : Proposition} → p.validate r = .ok () → GivenNumbers r inputs env p.valuations →
      {e : Expression Exact} → CSource.proposition r ctx p = .ok e →
        ∃ d, p.writtenDegree r inputs ctx = .ok d ∧ Stands functions env (p.isBare ctx) e d
  | .is _ _, _, hg, e, he => by
    obtain ⟨d, hd, hm⟩ := valuation_means hk hu hg he
    exact ⟨d, hd, .of_means (Nat.zero_le 2) hm⟩
  | .isNot _ _, _, hg, e, he => by
    obtain ⟨inner, hi, ⟨⟩⟩ := bind_eq_ok_iff.mp he
    obtain ⟨d, hd, hm⟩ := valuation_means hk hu hg hi
    exact ⟨1 - d, by simp only [writtenDegree, hd, ok_bind, pure_eq_ok],
      .bare ((hm.group (by decide)).of_le (by decide))⟩
  | .not p, hv, hg, e, he => by
    obtain ⟨inner, hi, ⟨⟩⟩ := bind_eq_ok_iff.mp he
    obtain ⟨d, hd, hm⟩ := proposition_stands hk hu (p := p) hv hg hi
    exact ⟨1 - d, by simp only [writtenDegree, hd, ok_bind, pure_eq_ok],
      .bare ((hm.means.group (by decide)).of_le (by decide))⟩
  | .and ps, hv, hg, e, he => by
    obtain ⟨es, hes, ⟨⟩⟩ := bind_eq_ok_iff.mp he
    obtain ⟨hne, hps⟩ := validate_and_eq_ok_iff.mp hv
    obtain ⟨ds, hds, hempty, hst⟩ := propositions_stand hk hu hps hg hes
    obtain ⟨hfst, hsnd⟩ := map_zip_areBare hds
    have hs := conjunction_stands hk hu ctx.conjunction hst (by simpa [hempty] using hne)
    rw [hfst, hsnd] at hs
    exact ⟨_, by rw [writtenDegree, hds]; rfl, hs⟩
  | .or ps, hv, hg, e, he => by
    obtain ⟨es, hes, ⟨⟩⟩ := bind_eq_ok_iff.mp he
    obtain ⟨hne, hps⟩ := validate_or_eq_ok_iff.mp hv
    obtain ⟨ds, hds, hempty, hst⟩ := propositions_stand hk hu hps hg hes
    obtain ⟨hfst, -⟩ := map_zip_areBare hds
    have hs := disjunction_stands hk hu ctx.disjunction hst (by simpa [hempty] using hne)
    rw [hfst] at hs
    exact ⟨_, by rw [writtenDegree, hds]; rfl, hs⟩

/-- The expressions for valid propositions mean their degrees as they are written. -/
theorem propositions_stand (hk : KnowsPrelude functions) (hu : Unshadowed env) :
    {ps : List Proposition} → validateAll r ps = .ok () →
      GivenNumbers r inputs env (valuationsAll ps) → {es : List (Expression Exact)} →
        CSource.propositions r ctx ps = .ok es →
          ∃ ds, writtenDegrees r inputs ctx ps = .ok ds ∧ (es = [] ↔ ps = []) ∧
            StandAll functions env es ((areBare ctx ps).zip ds)
  | [], _, _, es, he => by
    cases he
    exact ⟨[], rfl, by simp, .nil⟩
  | p :: ps, hv, hg, es, he => by
    obtain ⟨e, hp, he⟩ := bind_eq_ok_iff.mp he
    obtain ⟨rest, hps, ⟨⟩⟩ := bind_eq_ok_iff.mp he
    obtain ⟨hvp, hvps⟩ := check_bind_eq_ok_iff.mp hv
    obtain ⟨d, hd, hm⟩ := proposition_stands hk hu hvp
      (fun a ha ↦ hg a (List.mem_append_left _ ha)) hp
    obtain ⟨ds, hds, -, hms⟩ := propositions_stand hk hu hvps
      (fun a ha ↦ hg a (List.mem_append_right _ ha)) hps
    exact ⟨d :: ds, by simp only [writtenDegrees, hd, hds, ok_bind, pure_eq_ok],
      by simp, .cons hm hms⟩

end

end FuzzyInference.CSource
