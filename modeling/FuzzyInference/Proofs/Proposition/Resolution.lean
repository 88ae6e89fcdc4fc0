import FuzzyInference.Proofs.Proposition.WellFormed

/-!
# Resolved statements

Over one registry, resolving a statement and describing a proposition are inverse to each other: a
statement resolves to a proposition exactly when that is valid and described by the statement. Which
statements resolve at all is said without resolving them: those whose names and labels exist, whose
negations have one operand each and whose combinations are not empty.
-/

namespace FuzzyInference

open Result

namespace Proposition

mutual

/-- Propositions that correspond through equal handles are equal. -/
theorem Corresponds.eq {p q : Proposition} : Corresponds Eq p q → p = q
  | .is rfl => rfl
  | .isNot rfl => rfl
  | .not h => by rw [h.eq]
  | .and hs => by rw [hs.eq]
  | .or hs => by rw [hs.eq]

/-- Lists of propositions that correspond through equal handles are equal. -/
theorem CorrespondAll.eq {ps qs : List Proposition} : CorrespondAll Eq ps qs → ps = qs
  | .nil => rfl
  | .cons h hs => by rw [h.eq, hs.eq]

end

end Proposition

variable {α : Type} [Scalar α] {r : Registry α}

/-- In one registry, variables of one name have one handle. -/
theorem Registry.SameName.eq {h k : Handle} (hn : r.SameName r h k) : h = k := by
  obtain ⟨v, w, hv, hw, hname⟩ := hn
  exact handle_eq_of_name_eq hv hw hname

/-- At most one proposition makes a statement. -/
theorem Proposition.States.unique {p q : Proposition} {s : Statement} (hp : States r p s)
    (hq : States r q s) : p = q :=
  ((hp.corresponds hq).mono fun _ _ ↦ Registry.SameName.eq).eq

namespace Statement

open Proposition

/-! ### Resolving and describing -/

mutual

/-- A proposition that a statement resolves to is valid. -/
theorem validate_of_resolve : {s : Statement} → {p : Proposition} → s.resolve r = .ok p →
    p.validate r = .ok ()
  | .is subject label, p, hr => by
    obtain ⟨h, hh, ⟨⟩⟩ := bind_eq_ok_iff.mp hr
    obtain ⟨v, set, hv, -, hs⟩ := resolveSubject_eq_ok_iff.mp hh
    exact validateLabel_eq_ok_iff.mpr ⟨v, set, hv, hs⟩
  | .isNot subject label, p, hr => by
    obtain ⟨h, hh, ⟨⟩⟩ := bind_eq_ok_iff.mp hr
    obtain ⟨v, set, hv, -, hs⟩ := resolveSubject_eq_ok_iff.mp hh
    exact validateLabel_eq_ok_iff.mpr ⟨v, set, hv, hs⟩
  | .not [s], p, hr => by
    obtain ⟨q, hq, ⟨⟩⟩ := bind_eq_ok_iff.mp hr
    rw [Proposition.validate]
    exact validate_of_resolve (s := s) hq
  | .and ss, p, hr => by
    obtain ⟨qs, hqs, hr⟩ := bind_eq_ok_iff.mp hr
    obtain ⟨hne, ⟨⟩⟩ := refuse_eq_ok_iff.mp hr
    exact validate_and_eq_ok_iff.mpr ⟨by simpa using hne, validateAll_of_resolveAll hqs⟩
  | .or ss, p, hr => by
    obtain ⟨qs, hqs, hr⟩ := bind_eq_ok_iff.mp hr
    obtain ⟨hne, ⟨⟩⟩ := refuse_eq_ok_iff.mp hr
    exact validate_or_eq_ok_iff.mpr ⟨by simpa using hne, validateAll_of_resolveAll hqs⟩

/-- Propositions that statements resolve to are valid. -/
theorem validateAll_of_resolveAll : {ss : List Statement} → {ps : List Proposition} →
    resolveAll r ss = .ok ps → validateAll r ps = .ok ()
  | [], ps, hr => by
    cases hr
    rfl
  | s :: ss, ps, hr => by
    obtain ⟨p, hp, hr⟩ := bind_eq_ok_iff.mp hr
    obtain ⟨rest, hrest, ⟨⟩⟩ := bind_eq_ok_iff.mp hr
    exact check_bind_eq_ok_iff.mpr
      ⟨validate_of_resolve (s := s) hp, validateAll_of_resolveAll hrest⟩

end

/-- A statement resolves to a proposition exactly when that is valid and described by it. -/
theorem resolve_eq_ok_iff {s : Statement} {p : Proposition} :
    s.resolve r = .ok p ↔ p.validate r = .ok () ∧ p.describe r = .ok s := by
  constructor
  · intro h
    exact ⟨validate_of_resolve h, (states_of_resolve h).describe_eq⟩
  · rintro ⟨hvalid, hdescribe⟩
    have hstates := states_of_describe hdescribe
    obtain ⟨q, hq⟩ := exists_resolve hstates hvalid fun _ _ _ hv ↦ Registry.mem_of_get hv
    rw [hq, hstates.unique (states_of_resolve hq)]

/-! ### Statements that resolve -/

mutual

/-- Every statement in a tree, a node before its operands. -/
def nodes : Statement → List Statement
  | is subject label => [is subject label]
  | isNot subject label => [isNot subject label]
  | not children => not children :: nodesAll children
  | and children => and children :: nodesAll children
  | or children => or children :: nodesAll children

/-- Every statement in a list of trees. -/
def nodesAll : List Statement → List Statement
  | [] => []
  | s :: rest => nodes s ++ nodesAll rest

end

/-- What stands in a list of trees stands in one of them. -/
theorem mem_nodesAll_iff {t : Statement} {ss : List Statement} :
    t ∈ nodesAll ss ↔ ∃ s ∈ ss, t ∈ s.nodes := by
  induction ss with
  | nil => simp [nodesAll]
  | cons s ss ih => simp [nodesAll, ih]

/-- A registered variable has a name and a label. -/
def Mentions (r : Registry α) (subject label : String) : Prop :=
  ∃ v ∈ r.members, v.name = subject ∧ label ∈ v.labels.names

/-- A statement about labels of registered variables, in which every negation has one operand and
every combination some. -/
@[mk_iff]
structure WellFormed (r : Registry α) (s : Statement) : Prop where
  /-- The variables are registered and have the labels that are stated or denied of them. -/
  labels : ∀ subject label, is subject label ∈ s.nodes ∨ isNot subject label ∈ s.nodes →
    Mentions r subject label
  /-- Negations have exactly one operand. -/
  negations : ∀ children, not children ∈ s.nodes → children.length = 1
  /-- No conjunction is empty. -/
  conjunctions : and [] ∉ s.nodes
  /-- No disjunction is empty. -/
  disjunctions : or [] ∉ s.nodes

/-- A subject resolves exactly when a registered variable has its name and the label. -/
theorem exists_resolveSubject_iff {subject label : String} :
    (∃ h, resolveSubject r subject label = .ok h) ↔ Mentions r subject label := by
  simp only [resolveSubject_eq_ok_iff, Mentions, ← Variable.exists_get_iff]
  constructor
  · rintro ⟨h, v, set, hv, hname, hset⟩
    exact ⟨v, Registry.mem_of_get hv, hname, set, hset⟩
  · rintro ⟨v, hv, hname, set, hset⟩
    obtain ⟨h, hh⟩ := Registry.exists_get_of_mem hv
    exact ⟨h, v, set, hh, hname, hset⟩

private theorem wellFormed_node_iff {s : Statement} {ss : List Statement}
    (hnodes : s.nodes = s :: nodesAll ss)
    (hleaf : ∀ subject label, s ≠ is subject label ∧ s ≠ isNot subject label) :
    s.WellFormed r ↔ (∀ children, s = not children → children.length = 1) ∧
      (s ≠ and [] ∧ s ≠ or []) ∧ ∀ t ∈ ss, t.WellFormed r := by
  simp only [wellFormed_iff, hnodes, List.mem_cons, mem_nodesAll_iff]
  constructor
  · rintro ⟨hl, hn, hc, ho⟩
    refine ⟨fun children he ↦ hn children (.inl he.symm),
      ⟨fun he ↦ hc (.inl he.symm), fun he ↦ ho (.inl he.symm)⟩, fun t ht ↦ ⟨?_, ?_, ?_, ?_⟩⟩
    · exact fun subject label hm ↦
        hl subject label (hm.imp (fun hm ↦ .inr ⟨t, ht, hm⟩) fun hm ↦ .inr ⟨t, ht, hm⟩)
    · exact fun children hm ↦ hn children (.inr ⟨t, ht, hm⟩)
    · exact fun hm ↦ hc (.inr ⟨t, ht, hm⟩)
    · exact fun hm ↦ ho (.inr ⟨t, ht, hm⟩)
  · rintro ⟨hn, ⟨hc, ho⟩, hall⟩
    refine ⟨?_, ?_, ?_, ?_⟩
    · rintro subject label ((he | ⟨t, ht, hm⟩) | (he | ⟨t, ht, hm⟩))
      · exact absurd he.symm (hleaf subject label).1
      · exact (hall t ht).1 subject label (.inl hm)
      · exact absurd he.symm (hleaf subject label).2
      · exact (hall t ht).1 subject label (.inr hm)
    · rintro children (he | ⟨t, ht, hm⟩)
      · exact hn children he.symm
      · exact (hall t ht).2.1 children hm
    · rintro (he | ⟨t, ht, hm⟩)
      · exact hc he.symm
      · exact (hall t ht).2.2.1 hm
    · rintro (he | ⟨t, ht, hm⟩)
      · exact ho he.symm
      · exact (hall t ht).2.2.2 hm

/-- A negation is well-formed exactly when it has one operand and that is well-formed. -/
theorem wellFormed_not_iff {ss : List Statement} :
    (not ss).WellFormed r ↔ ss.length = 1 ∧ ∀ s ∈ ss, s.WellFormed r := by
  rw [wellFormed_node_iff (by rw [nodes]) (by simp)]
  simp

/-- A conjunction is well-formed exactly when it has operands and all of them are well-formed. -/
theorem wellFormed_and_iff {ss : List Statement} :
    (and ss).WellFormed r ↔ ss ≠ [] ∧ ∀ s ∈ ss, s.WellFormed r := by
  rw [wellFormed_node_iff (by rw [nodes]) (by simp)]
  simp

/-- A disjunction is well-formed exactly when it has operands and all of them are well-formed. -/
theorem wellFormed_or_iff {ss : List Statement} :
    (or ss).WellFormed r ↔ ss ≠ [] ∧ ∀ s ∈ ss, s.WellFormed r := by
  rw [wellFormed_node_iff (by rw [nodes]) (by simp)]
  simp

private theorem isEmpty_of_resolveAll {ss : List Statement} {ps : List Proposition}
    (h : resolveAll r ss = .ok ps) : ps.isEmpty = true ↔ ss = [] := by
  rw [(stateAll_of_resolveAll h).isEmpty_eq, List.isEmpty_iff]

private theorem exists_combine_iff {ss : List Statement}
    {combine : List Proposition → Proposition} :
    (∃ p, (do
      let ps ← resolveAll r ss
      if ps.isEmpty then .error (.rule .emptyCombination) else return combine ps :
        Checked α Proposition) = .ok p) ↔ ss ≠ [] ∧ ∃ ps, resolveAll r ss = .ok ps := by
  constructor
  · rintro ⟨p, hp⟩
    obtain ⟨ps, hps, hp⟩ := bind_eq_ok_iff.mp hp
    obtain ⟨hne, -⟩ := refuse_eq_ok_iff.mp hp
    exact ⟨fun he ↦ hne ((isEmpty_of_resolveAll hps).mpr he), ps, hps⟩
  · rintro ⟨hne, ps, hps⟩
    refine ⟨combine ps, bind_eq_ok_iff.mpr ⟨ps, hps, refuse_eq_ok_iff.mpr ⟨?_, rfl⟩⟩⟩
    exact fun he ↦ hne ((isEmpty_of_resolveAll hps).mp he)

mutual

/-- A statement resolves exactly when it is well-formed. -/
theorem exists_resolve_iff : {s : Statement} → ((∃ p, s.resolve r = .ok p) ↔ s.WellFormed r)
  | is subject label => by
    simp [resolve, bind_eq_ok_iff, pure_eq_ok, exists_resolveSubject_iff, exists_comm,
      wellFormed_iff, nodes]
  | isNot subject label => by
    simp [resolve, bind_eq_ok_iff, pure_eq_ok, exists_resolveSubject_iff, exists_comm,
      wellFormed_iff, nodes]
  | not [] => by simp [resolve, wellFormed_not_iff]
  | not [s] => by
    simp [resolve, bind_eq_ok_iff, pure_eq_ok, exists_comm, wellFormed_not_iff,
      exists_resolve_iff (s := s)]
  | not (_ :: _ :: _) => by simp [resolve, wellFormed_not_iff]
  | and ss => by rw [resolve, exists_combine_iff, wellFormed_and_iff, exists_resolveAll_iff]
  | or ss => by rw [resolve, exists_combine_iff, wellFormed_or_iff, exists_resolveAll_iff]

/-- Statements resolve exactly when all of them are well-formed. -/
theorem exists_resolveAll_iff :
    {ss : List Statement} → ((∃ ps, resolveAll r ss = .ok ps) ↔ ∀ s ∈ ss, s.WellFormed r)
  | [] => by simp [resolveAll, pure_eq_ok]
  | s :: ss => by
    rw [List.forall_mem_cons, ← exists_resolve_iff (s := s), ← exists_resolveAll_iff]
    simp only [resolveAll, bind_eq_ok_iff, pure_eq_ok, Except.ok.injEq]
    constructor
    · rintro ⟨_, p, hp, ps, hps, -⟩
      exact ⟨⟨p, hp⟩, ps, hps⟩
    · rintro ⟨⟨p, hp⟩, ps, hps⟩
      exact ⟨_, p, hp, ps, hps, rfl⟩

end

end Statement

end FuzzyInference
