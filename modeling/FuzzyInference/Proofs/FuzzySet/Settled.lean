import FuzzyInference.Proofs.FuzzySystem.Monotone

/-!
# Sets that leave no operator open

A context can be taken into a set: every union and intersection without an operator is given that of
the context. What comes out leaves nothing open to other contexts, and its degrees under any of them
are those of the set under the context that was taken in. So nothing else of a context matters, to
sets as to propositions.
-/

namespace FuzzyInference

namespace FuzzySet

variable {α : Type} {ctx ctx' : Context} {s t : FuzzySet α}

mutual

/-- The set in which unions and intersections without an operator take that of a context. -/
def settled (ctx : Context) : FuzzySet α → FuzzySet α
  | singleton x => singleton x
  | discrete degrees => discrete degrees
  | constant value => constant value
  | shape curve => shape curve
  | not set => not (settled ctx set)
  | scale set factor => scale (settled ctx set) factor
  | implication op degree set => implication op degree (settled ctx set)
  | or op? sets => or (op?.or (some ctx.disjunction)) (settledAll ctx sets)
  | and op? sets => and (op?.or (some ctx.conjunction)) (settledAll ctx sets)

/-- The sets of a list in which unions and intersections take the operators of a context. -/
def settledAll (ctx : Context) : List (FuzzySet α) → List (FuzzySet α)
  | [] => []
  | set :: sets => settled ctx set :: settledAll ctx sets

end

/-- A set in which every union and intersection names its operator. -/
structure Settled (s : FuzzySet α) : Prop where
  /-- No union is without an operator. -/
  unions : ∀ sets, or none sets ∉ s.nodes
  /-- No intersection is without an operator. -/
  intersections : ∀ sets, and none sets ∉ s.nodes

/-- In what stands in such a set, every union and intersection names its operator too. -/
theorem Settled.mono (h : s.Settled) (ht : t.nodes ⊆ s.nodes) : t.Settled where
  unions sets hsets := h.unions sets (ht hsets)
  intersections sets hsets := h.intersections sets (ht hsets)

/-! ### Nodes -/

mutual

/-- Taking in a context changes the nodes of a tree one by one. -/
theorem nodes_settled (ctx : Context) :
    (s : FuzzySet α) → (s.settled ctx).nodes = s.nodes.map (settled ctx)
  | singleton _ | discrete _ | constant _ | shape _ => rfl
  | not s | scale s _ | implication _ _ s => by
    simp only [settled, nodes, List.map_cons, nodes_settled ctx s]
  | or _ sets | and _ sets => by
    simp only [settled, nodes, List.map_cons, nodesAll_settledAll ctx sets]

/-- So it does to the nodes of several trees. -/
theorem nodesAll_settledAll (ctx : Context) :
    (sets : List (FuzzySet α)) → nodesAll (settledAll ctx sets) = (nodesAll sets).map (settled ctx)
  | [] => rfl
  | s :: sets => by
    simp only [settledAll, nodesAll, List.map_append, nodes_settled ctx s,
      nodesAll_settledAll ctx sets]

end

/-- A set that has taken in a context leaves no operator open. -/
theorem settled_settled (s : FuzzySet α) (ctx : Context) : (s.settled ctx).Settled := by
  constructor
  · intro sets hmem
    rw [nodes_settled, List.mem_map] at hmem
    obtain ⟨t, -, ht⟩ := hmem
    cases t <;> simp [settled] at ht
  · intro sets hmem
    rw [nodes_settled, List.mem_map] at hmem
    obtain ⟨t, -, ht⟩ := hmem
    cases t <;> simp [settled] at ht

mutual

/-- A set that leaves no operator open takes nothing from a context. -/
theorem Settled.settled_eq (ctx : Context) : {s : FuzzySet α} → s.Settled → s.settled ctx = s
  | singleton _, _ | discrete _, _ | constant _, _ | shape _, _ => rfl
  | not s, h | scale s _, h | implication _ _ s, h => by
    have hs : s.Settled := h.mono (by simp [nodes])
    rw [settled, hs.settled_eq ctx]
  | or op? sets, h => by
    have hsets : ∀ s ∈ sets, s.Settled := fun s hs ↦
      h.mono fun t ht ↦ by simpa [nodes] using .inr (mem_nodesAll_iff.mpr ⟨s, hs, ht⟩)
    cases op? with
    | none => exact absurd (by simp [nodes]) (h.unions sets)
    | some op =>
      rw [settled, settledAll_eq ctx hsets]
      rfl
  | and op? sets, h => by
    have hsets : ∀ s ∈ sets, s.Settled := fun s hs ↦
      h.mono fun t ht ↦ by simpa [nodes] using .inr (mem_nodesAll_iff.mpr ⟨s, hs, ht⟩)
    cases op? with
    | none => exact absurd (by simp [nodes]) (h.intersections sets)
    | some op =>
      rw [settled, settledAll_eq ctx hsets]
      rfl

/-- So do several sets that leave no operator open. -/
theorem settledAll_eq (ctx : Context) :
    {sets : List (FuzzySet α)} → (∀ s ∈ sets, s.Settled) → settledAll ctx sets = sets
  | [], _ => rfl
  | s :: sets, h => by
    rw [List.forall_mem_cons] at h
    rw [settledAll, h.1.settled_eq ctx, settledAll_eq ctx h.2]

end

/-! ### Degrees -/

variable [Scalar α] {x : Point α}

mutual

/-- A set that has taken in a context has the degrees under it, whatever context it is put in. -/
theorem degree_settled (ctx ctx' : Context) :
    (s : FuzzySet α) → (s.settled ctx).degree ctx' x = s.degree ctx x
  | singleton _ | discrete _ | constant _ | shape _ => by
    simp only [settled, degree]
  | not s | scale s _ | implication _ _ s => by
    simp only [settled, degree, degree_settled ctx ctx' s]
  | or op? sets | and op? sets => by
    rw [settled, degree, degree, degrees_settledAll ctx ctx' sets]
    cases op? <;> rfl

/-- So have several sets that have taken in a context. -/
theorem degrees_settledAll (ctx ctx' : Context) :
    (sets : List (FuzzySet α)) → degrees ctx' x (settledAll ctx sets) = degrees ctx x sets
  | [] => rfl
  | s :: sets => by
    simp only [settledAll, degrees, degree_settled ctx ctx' s, degrees_settledAll ctx ctx' sets]

end

/-! ### Main result -/

/-- A context matters through open operators only. A set that takes in a context leaves no operator
open and has under every context the degrees that it had under that one; contexts with the same
connectives, whatever their other operators are, give all sets the same degrees, and all
propositions the same degree or fault in any registry for any values; and a set that leaves no
operator open takes nothing from a context and has the same degrees under all of them. -/
theorem context_matters_where_open :
    (∀ (s : FuzzySet α) (ctx : Context), (s.settled ctx).Settled ∧
      ∀ (ctx' : Context) (x : Point α), (s.settled ctx).degree ctx' x = s.degree ctx x) ∧
    (∀ ctx ctx' : Context, ctx.conjunction = ctx'.conjunction → ctx.disjunction = ctx'.disjunction →
      (∀ (s : FuzzySet α) (x : Point α), s.degree ctx x = s.degree ctx' x) ∧
      ∀ (r : Registry α) (inputs : Assignment α) (p : Proposition),
        p.degree r inputs ctx = p.degree r inputs ctx') ∧
    ∀ s : FuzzySet α, s.Settled → ∀ ctx : Context, s.settled ctx = s ∧
      ∀ (ctx' : Context) (x : Point α), s.degree ctx x = s.degree ctx' x := by
  refine ⟨?_, ?_, ?_⟩
  · intro s ctx
    exact ⟨settled_settled s ctx, fun ctx' x ↦ degree_settled ctx ctx' s⟩
  · intro ctx ctx' hc hd
    refine ⟨fun s x ↦ ?_, fun r inputs p ↦ Proposition.degree_eq_of_agree hc hd p⟩
    exact AgreeOn.degree_eq ⟨fun _ _ ↦ hd, fun _ _ ↦ hc⟩
  · intro s hs ctx
    refine ⟨hs.settled_eq ctx, fun ctx' x ↦ ?_⟩
    rw [← degree_settled ctx ctx' s, hs.settled_eq ctx]

/-- Lamps, of which two are joined without an operator below a union that names one. -/
def lamps : FuzzySet Float :=
  .not (.or (some .probabilisticSum) [.scale (.and none [.constant 0.75, .constant 0.5]) 0.5,
    .or none [.constant 0.25, .constant 0.5]])

/-- A context with uncommon connectives. -/
def strict : Context := { conjunction := .lukasiewicz, disjunction := .boundedSum }

/-- A context that has only the connectives in common with that one. -/
def strictOtherwise : Context :=
  { strict with defuzzification := .bisector, aggregation := .probabilisticSum,
                implication := .product }

/-- The lamps have another degree where connectives are uncommon, which they keep when they take
them in, and which depends on nothing else. -/
theorem lamps_context_matters_where_open :
    (lamps.degree strict (.number 0) == lamps.degree {} (.number 0)) = false ∧
      (lamps.settled strict).degree {} (.number 0) = lamps.degree strict (.number 0) ∧
      (strict.conjunction = strictOtherwise.conjunction ∧
        strict.disjunction = strictOtherwise.disjunction ∧
        lamps.degree strict (.number 0) = lamps.degree strictOtherwise (.number 0)) ∧
      (lamps.settled strict).Settled ∧
      (lamps.settled strict).degree {} (.number 0) =
        (lamps.settled strict).degree strictOtherwise (.number 0) := by
  obtain ⟨htaken, hagree, hclosed⟩ := context_matters_where_open (α := Float)
  obtain ⟨hsettled, hdegree⟩ := htaken lamps strict
  refine ⟨by decide +kernel, hdegree {} _, ⟨rfl, rfl, ?_⟩, hsettled, ?_⟩
  · exact (hagree strict strictOtherwise rfl rfl).1 lamps _
  · exact (hclosed _ hsettled {}).2 strictOtherwise _

end FuzzySet

end FuzzyInference
