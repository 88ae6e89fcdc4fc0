import FuzzyInference.Proofs.Proposition.Statement

/-!
# Degrees of propositions

Which lookup fails when a proposition is evaluated. A computation that looks up the values of some
variables in order succeeds if all of them are given, and else reports the first one that is not.
The degree of a valid proposition is such a computation over its valuations from left to right,
whatever the operators and the other degrees are.
-/

namespace FuzzyInference

/-- The lookup of a value that is not given reports the name that was asked for. -/
theorem Assignment.get_eq_error {α : Type} {inputs : Assignment α} {name : String}
    (h : ¬ ∃ x, inputs.get name = .ok x) : inputs.get name = .error (.noInput name) := by
  unfold get at h ⊢
  cases hx : inputs.values.get? name with
  | none => rfl
  | some x => exact absurd ⟨x, by rw [hx]⟩ h

namespace Proposition

open Result

variable {α β γ : Type} [Scalar α] {r : Registry α} {inputs : Assignment α} {ctx : Context}

/-! ### Variables that are read -/

/-- What a valuation comes to. -/
theorem valuation_eq {h : Handle} {label : String} {v : Variable α} {set : FuzzySet α}
    {x : Point α} (hv : r.get h = .ok v) (hs : v.get label = .ok set)
    (hx : inputs.get v.name = .ok x) :
    valuation r inputs ctx h label = .ok (set.degree ctx x) := by
  simp only [valuation, hv, hs, hx, ok_bind, pure_eq_ok]

/-- The variables that are read are given values. -/
def Given (r : Registry α) (inputs : Assignment α) (read : List (Handle × String)) : Prop :=
  ∀ a ∈ read, ∀ v, r.get a.1 = .ok v → ∃ x, inputs.get v.name = .ok x

/-- A valid valuation of a variable that is given a value has a degree. -/
theorem exists_valuation {h : Handle} {label : String} (hv : validateLabel r h label = .ok ())
    (hg : Given r inputs [(h, label)]) : ∃ d, valuation r inputs ctx h label = .ok d := by
  obtain ⟨v, set, hr, hs⟩ := validateLabel_eq_ok_iff.mp hv
  obtain ⟨x, hx⟩ := hg (h, label) (List.mem_singleton_self _) v hr
  exact ⟨_, valuation_eq hr hs hx⟩

/-- A variable is the first one to be read that is not given a value. -/
def FirstMissing (r : Registry α) (inputs : Assignment α) (read : List (Handle × String))
    (v : Variable α) : Prop :=
  ∃ before a after, read = before ++ a :: after ∧ Given r inputs before ∧ r.get a.1 = .ok v ∧
    ¬ ∃ x, inputs.get v.name = .ok x

/-- Variables that are read in two lists are given values exactly when those of either are. -/
theorem given_append_iff {first second : List (Handle × String)} :
    Given r inputs (first ++ second) ↔ Given r inputs first ∧ Given r inputs second :=
  List.forall_mem_append

/-- If not all variables that are read are given, one of them is the first to be missing. -/
theorem exists_firstMissing {read : List (Handle × String)}
    (h : ¬ Given r inputs read) : ∃ v, FirstMissing r inputs read v := by
  induction read with
  | nil => exact absurd nofun h
  | cons a read ih =>
    by_cases ha : Given r inputs [a]
    · have hcons {rest : List (Handle × String)} (hg : Given r inputs rest) :
          Given r inputs (a :: rest) := by
        rw [← List.singleton_append, given_append_iff]
        exact ⟨ha, hg⟩
      have hread : ¬ Given r inputs read := fun hg ↦ h (hcons hg)
      obtain ⟨v, before, b, after, rfl, hg, hv⟩ := ih hread
      exact ⟨v, a :: before, b, after, rfl, hcons hg, hv⟩
    · simp only [Given, List.forall_mem_singleton] at ha
      push Not at ha
      obtain ⟨v, hv, hx⟩ := ha
      exact ⟨v, [], a, read, rfl, nofun, hv, by simpa using hx⟩

/-- The first missing variable of two lists is that of the first list, or that of the second one
if the first one has none. -/
theorem FirstMissing.of_append {first second : List (Handle × String)} {v : Variable α}
    (h : FirstMissing r inputs (first ++ second) v) :
    FirstMissing r inputs first v ∨
      Given r inputs first ∧ FirstMissing r inputs second v := by
  obtain ⟨before, a, after, happend, hg, hv⟩ := h
  rcases List.append_eq_append_iff.mp happend with ⟨rest, rfl, hsecond⟩ | ⟨rest, rfl, hrest⟩
  · obtain ⟨hfirst, hmiddle⟩ := given_append_iff.mp hg
    exact .inr ⟨hfirst, rest, a, after, hsecond, hmiddle, hv⟩
  · cases rest with
    | nil =>
      rw [List.append_nil]
      exact .inr ⟨hg, [], a, after, hrest.symm, nofun, hv⟩
    | cons b rest =>
      obtain ⟨rfl, -⟩ := List.cons.inj hrest
      exact .inl ⟨before, a, rest, rfl, hg, hv⟩

/-! ### Computations that read in order -/

/-- A computation succeeds if the variables that are read are given, and else it reports the first
one that is missing. -/
structure ReadsInOrder (r : Registry α) (inputs : Assignment α) (read : List (Handle × String))
    (x : Except LookupFault β) : Prop where
  /-- It succeeds if all variables are given. -/
  succeeds : Given r inputs read → ∃ b, x = .ok b
  /-- It reports the first variable that is missing. -/
  reports : ∀ v, FirstMissing r inputs read v → x = .error (.noInput v.name)

namespace ReadsInOrder

/-- A result that is there reads nothing. -/
theorem ok (b : β) : ReadsInOrder r inputs [] (.ok b) where
  succeeds _ := ⟨b, rfl⟩
  reports := by
    rintro v ⟨before, a, after, hread, -⟩
    simp at hread

/-- A sequence reads what its first part reads, and then what its second part does. -/
theorem bind {first second : List (Handle × String)} {x : Except LookupFault β}
    {f : β → Except LookupFault γ} (hx : ReadsInOrder r inputs first x)
    (hf : ∀ b, ReadsInOrder r inputs second (f b)) :
    ReadsInOrder r inputs (first ++ second) (x >>= f) where
  succeeds h := by
    obtain ⟨hfirst, hsecond⟩ := given_append_iff.mp h
    obtain ⟨b, rfl⟩ := hx.succeeds hfirst
    exact (hf b).succeeds hsecond
  reports v h := by
    rcases h.of_append with h | ⟨hfirst, h⟩
    · rw [hx.reports v h, error_bind]
    · obtain ⟨b, rfl⟩ := hx.succeeds hfirst
      exact (hf b).reports v h

/-- A computation whose result is worked on reads what it reads. -/
theorem map {read : List (Handle × String)} {x : Except LookupFault β} (f : β → γ)
    (hx : ReadsInOrder r inputs read x) :
    ReadsInOrder r inputs read (x >>= fun b ↦ .ok (f b)) := by
  rw [← List.append_nil read]
  exact hx.bind fun b ↦ ok (f b)

/-- A list of computations reads what each of them reads, in their order. -/
theorem mapM {f : β → Except LookupFault γ} {read : β → List (Handle × String)} {bs : List β}
    (h : ∀ b ∈ bs, ReadsInOrder r inputs (read b) (f b)) :
    ReadsInOrder r inputs (bs.flatMap read) (bs.mapM f) := by
  induction bs with
  | nil => exact ok []
  | cons b bs ih =>
    rw [List.forall_mem_cons] at h
    rw [List.mapM_cons, List.flatMap_cons]
    exact h.1.bind fun c ↦ (ih h.2).map fun cs ↦ c :: cs

/-- Such a computation succeeds exactly when the variables that are read are given. -/
theorem exists_ok_iff {read : List (Handle × String)} {x : Except LookupFault β}
    (hx : ReadsInOrder r inputs read x) : (∃ b, x = .ok b) ↔ Given r inputs read := by
  refine ⟨?_, hx.succeeds⟩
  rintro ⟨b, rfl⟩
  by_contra h
  obtain ⟨v, hv⟩ := exists_firstMissing h
  cases hx.reports v hv

/-- Such a computation fails exactly with the first variable that is missing. -/
theorem eq_error_iff {read : List (Handle × String)} {x : Except LookupFault β}
    (hx : ReadsInOrder r inputs read x) {fault : LookupFault} :
    x = .error fault ↔ ∃ v, FirstMissing r inputs read v ∧ fault = .noInput v.name := by
  constructor
  · rintro rfl
    have h : ¬ Given r inputs read := by
      intro h
      obtain ⟨b, hb⟩ := hx.succeeds h
      cases hb
    obtain ⟨v, hv⟩ := exists_firstMissing h
    exact ⟨v, hv, Except.error.inj (hx.reports v hv)⟩
  · rintro ⟨v, hv, rfl⟩
    exact hx.reports v hv

end ReadsInOrder

/-! ### Propositions -/

/-- A valuation whose variable has the label reads that variable. -/
theorem valuation_readsInOrder {ctx : Context} {h : Handle} {label : String}
    (hl : validateLabel r h label = .ok ()) :
    ReadsInOrder r inputs [(h, label)] (valuation r inputs ctx h label) where
  succeeds := exists_valuation hl
  reports v hv := by
    obtain ⟨w, set, hw, hset⟩ := validateLabel_eq_ok_iff.mp hl
    obtain ⟨before, a, after, hread, -, hv, hx⟩ := hv
    obtain ⟨-, ha⟩ : before = [] ∧ a :: after = [(h, label)] := by
      simpa [List.singleton_eq_append_iff] using hread
    obtain ⟨rfl, -⟩ := List.cons.inj ha
    have hvw : w = v := Except.ok.inj (hw.symm.trans hv)
    subst hvw
    simp only [valuation, hw, hset, Assignment.get_eq_error hx, ok_bind, error_bind]

mutual

/-- The degree of a valid proposition reads its valuations from left to right. -/
theorem degree_readsInOrder {ctx : Context} : {p : Proposition} → p.validate r = .ok () →
    ReadsInOrder r inputs p.valuations (p.degree r inputs ctx)
  | is _ _, hv => valuation_readsInOrder hv
  | isNot _ _, hv => (valuation_readsInOrder hv).map (1 - ·)
  | not p, hv => (degree_readsInOrder (p := p) hv).map (1 - ·)
  | and _, hv =>
    (degrees_readsInOrder (validate_and_eq_ok_iff.mp hv).2).map ctx.conjunction.combine
  | or _, hv =>
    (degrees_readsInOrder (validate_or_eq_ok_iff.mp hv).2).map ctx.disjunction.combine

/-- The degrees of valid propositions read their valuations, one proposition after the other. -/
theorem degrees_readsInOrder {ctx : Context} : {ps : List Proposition} →
    validateAll r ps = .ok () → ReadsInOrder r inputs (valuationsAll ps) (degrees r inputs ctx ps)
  | [], _ => .ok []
  | p :: ps, hv => by
    obtain ⟨hp, hps⟩ := check_bind_eq_ok_iff.mp hv
    exact (degree_readsInOrder hp).bind fun d ↦ (degrees_readsInOrder hps).map (d :: ·)

end

/-- A valid proposition has a degree if the variables that it reads are given values. -/
theorem exists_degree {p : Proposition} (hv : p.validate r = .ok ())
    (hg : Given r inputs p.valuations) : ∃ d, p.degree r inputs ctx = .ok d :=
  (degree_readsInOrder hv).succeeds hg

/-- Valid propositions have degrees if the variables that they read are given values. -/
theorem exists_degrees {ps : List Proposition} (hv : validateAll r ps = .ok ())
    (hg : Given r inputs (valuationsAll ps)) : ∃ ds, degrees r inputs ctx ps = .ok ds :=
  (degrees_readsInOrder hv).succeeds hg

end Proposition

end FuzzyInference
