import FuzzyInference.Proofs.Proposition.Correspondence
import FuzzyInference.Proposition.Statement

/-!
# Propositions and their statements

Stating a proposition and resolving a statement undo each other: a resolved proposition states what
it was resolved from, propositions of two registries that state the same correspond, and the
statement of a valid proposition can be resolved wherever its variables are registered.
-/

namespace FuzzyInference

open Result

variable {α : Type} [Scalar α]

/-- Two handles stand for variables of one name in two registries. -/
def Registry.SameName (r r' : Registry α) (h k : Handle) : Prop :=
  ∃ v w, r.get h = .ok v ∧ r'.get k = .ok w ∧ v.name = w.name

/-- One name is that of one variable in registries of which one holds all variables of the other. -/
theorem Registry.SameName.sameAt {r r' : Registry α} (hsub : ∀ w ∈ r'.members, w ∈ r.members)
    {h k : Handle} (hn : r.SameName r' h k) : r.SameAt r' h k := by
  obtain ⟨v, w, hv, hw, hname⟩ := hn
  have he : v = w := eq_of_name_eq (mem_of_get hv) (hsub w (mem_of_get hw)) hname
  rw [SameAt, hv, hw, he]

namespace Proposition

/-- A label is accepted exactly when the variable behind the handle has it. -/
theorem validateLabel_eq_ok_iff {r : Registry α} {h : Handle} {label : String} {u : Unit} :
    validateLabel r h label = .ok u ↔ ∃ v set, r.get h = .ok v ∧ v.get label = .ok set := by
  simp only [validateLabel, Registry.labelSet, discard, Functor.mapConst]
  cases hv : r.get h with
  | error fault => simp [Except.mapError, Except.map]
  | ok v =>
    cases hs : v.get label with
    | error fault => simp [hs, Except.mapError, Except.map]
    | ok set => simp [hs, Except.map]

/-- A conjunction is valid exactly when it has operands, and all of them are valid. -/
theorem validate_and_eq_ok_iff {r : Registry α} {ps : List Proposition} :
    (and ps).validate r = .ok () ↔ ps.isEmpty = false ∧ validateAll r ps = .ok () := by
  rw [validate]
  split <;> simp_all

/-- A disjunction is valid exactly when it has operands, and all of them are valid. -/
theorem validate_or_eq_ok_iff {r : Registry α} {ps : List Proposition} :
    (or ps).validate r = .ok () ↔ ps.isEmpty = false ∧ validateAll r ps = .ok () := by
  rw [validate]
  split <;> simp_all

mutual

/-- A proposition about the variables of a registry makes a statement about their names. -/
inductive States (r : Registry α) : Proposition → Statement → Prop
  | is {h : Handle} {v : Variable α} {subject label : String} :
    r.get h = .ok v → v.name = subject → States r (is h label) (.is subject label)
  | isNot {h : Handle} {v : Variable α} {subject label : String} :
    r.get h = .ok v → v.name = subject → States r (isNot h label) (.isNot subject label)
  | not {p : Proposition} {s : Statement} : States r p s → States r (not p) (.not [s])
  | and {ps : List Proposition} {ss : List Statement} :
    StateAll r ps ss → States r (and ps) (.and ss)
  | or {ps : List Proposition} {ss : List Statement} :
    StateAll r ps ss → States r (or ps) (.or ss)

/-- The propositions of a list make the statements of another. -/
inductive StateAll (r : Registry α) : List Proposition → List Statement → Prop
  | nil : StateAll r [] []
  | cons {p : Proposition} {s : Statement} {ps : List Proposition} {ss : List Statement} :
    States r p s → StateAll r ps ss → StateAll r (p :: ps) (s :: ss)

end

/-- There are as many statements as propositions. -/
theorem StateAll.isEmpty_eq {r : Registry α} {ps : List Proposition} {ss : List Statement}
    (h : StateAll r ps ss) : ps.isEmpty = ss.isEmpty := by
  cases h <;> rfl

mutual

/-- What a proposition is described by is the statement that it makes. -/
theorem states_of_describe {r : Registry α} : {p : Proposition} → {s : Statement} →
    p.describe r = .ok s → States r p s
  | .is h label, s, hd => by
    obtain ⟨v, hv, ⟨⟩⟩ := bind_eq_ok_iff.mp hd
    exact .is hv rfl
  | .isNot h label, s, hd => by
    obtain ⟨v, hv, ⟨⟩⟩ := bind_eq_ok_iff.mp hd
    exact .isNot hv rfl
  | .not p, s, hd => by
    obtain ⟨t, ht, ⟨⟩⟩ := bind_eq_ok_iff.mp hd
    exact .not (states_of_describe ht)
  | .and ps, s, hd => by
    obtain ⟨ts, hts, ⟨⟩⟩ := bind_eq_ok_iff.mp hd
    exact .and (stateAll_of_describeAll hts)
  | .or ps, s, hd => by
    obtain ⟨ts, hts, ⟨⟩⟩ := bind_eq_ok_iff.mp hd
    exact .or (stateAll_of_describeAll hts)

/-- What propositions are described by are the statements that they make. -/
theorem stateAll_of_describeAll {r : Registry α} : {ps : List Proposition} →
    {ss : List Statement} → describeAll r ps = .ok ss → StateAll r ps ss
  | [], ss, hd => by
    cases hd
    exact .nil
  | p :: ps, ss, hd => by
    obtain ⟨s, hs, hd⟩ := bind_eq_ok_iff.mp hd
    obtain ⟨rest, hrest, ⟨⟩⟩ := bind_eq_ok_iff.mp hd
    exact .cons (states_of_describe hs) (stateAll_of_describeAll hrest)

end

mutual

/-- The statement that a proposition makes is what it is described by. -/
theorem States.describe_eq {r : Registry α} {p : Proposition} {s : Statement} :
    States r p s → p.describe r = .ok s
  | .is hv rfl => by simp only [describe, hv, ok_bind, pure_eq_ok]
  | .isNot hv rfl => by simp only [describe, hv, ok_bind, pure_eq_ok]
  | .not h => by simp only [describe, h.describe_eq, ok_bind, pure_eq_ok]
  | .and hs => by simp only [describe, hs.describeAll_eq, ok_bind, pure_eq_ok]
  | .or hs => by simp only [describe, hs.describeAll_eq, ok_bind, pure_eq_ok]

/-- The statements that propositions make are what they are described by. -/
theorem StateAll.describeAll_eq {r : Registry α} {ps : List Proposition} {ss : List Statement} :
    StateAll r ps ss → describeAll r ps = .ok ss
  | .nil => rfl
  | .cons h hs => by
    simp only [describeAll, h.describe_eq, hs.describeAll_eq, ok_bind, pure_eq_ok]

end

mutual

/-- Propositions that state the same correspond, through the names of their variables. -/
theorem States.corresponds {r r' : Registry α} {p q : Proposition} {s : Statement} :
    States r p s → States r' q s → Corresponds (r.SameName r') p q
  | .is hv hvn, .is hw hwn => .is ⟨_, _, hv, hw, hvn.trans hwn.symm⟩
  | .isNot hv hvn, .isNot hw hwn => .isNot ⟨_, _, hv, hw, hvn.trans hwn.symm⟩
  | .not h, .not k => .not (h.corresponds k)
  | .and hs, .and ks => .and (hs.correspondAll ks)
  | .or hs, .or ks => .or (hs.correspondAll ks)

/-- Lists of propositions that state the same correspond. -/
theorem StateAll.correspondAll {r r' : Registry α} {ps qs : List Proposition}
    {ss : List Statement} :
    StateAll r ps ss → StateAll r' qs ss → CorrespondAll (r.SameName r') ps qs
  | .nil, .nil => .nil
  | .cons h hs, .cons k ks => .cons (h.corresponds k) (hs.correspondAll ks)

end

mutual

/-- A valid proposition makes a statement. -/
theorem exists_states {r : Registry α} : {p : Proposition} →
    p.validate r = .ok () → ∃ s, States r p s
  | .is h label, hp => by
    obtain ⟨v, _, hv, _⟩ := validateLabel_eq_ok_iff.mp hp
    exact ⟨_, .is hv rfl⟩
  | .isNot h label, hp => by
    obtain ⟨v, _, hv, _⟩ := validateLabel_eq_ok_iff.mp hp
    exact ⟨_, .isNot hv rfl⟩
  | .not p, hp => by
    obtain ⟨s, hs⟩ := exists_states (p := p) hp
    exact ⟨_, .not hs⟩
  | .and ps, hp => by
    obtain ⟨ss, hss⟩ := exists_stateAll (validate_and_eq_ok_iff.mp hp).2
    exact ⟨_, .and hss⟩
  | .or ps, hp => by
    obtain ⟨ss, hss⟩ := exists_stateAll (validate_or_eq_ok_iff.mp hp).2
    exact ⟨_, .or hss⟩

/-- Valid propositions make statements. -/
theorem exists_stateAll {r : Registry α} : {ps : List Proposition} →
    validateAll r ps = .ok () → ∃ ss, StateAll r ps ss
  | [], _ => ⟨[], .nil⟩
  | p :: ps, hp => by
    obtain ⟨_, hp, hps⟩ := bind_eq_ok_iff.mp hp
    obtain ⟨s, hs⟩ := exists_states hp
    obtain ⟨ss, hss⟩ := exists_stateAll hps
    exact ⟨_, .cons hs hss⟩

end

end Proposition

namespace Statement

open Proposition

/-- The subject of a valuation resolves to the handle of the variable of that name, which must have
the label. -/
theorem resolveSubject_eq_ok_iff {r : Registry α} {subject label : String} {h : Handle} :
    resolveSubject r subject label = .ok h ↔
      ∃ v set, r.get h = .ok v ∧ v.name = subject ∧ v.get label = .ok set := by
  simp only [resolveSubject, bind_eq_ok_iff, mapError_eq_ok_iff, Registry.byName_eq_ok_iff,
    validateLabel_eq_ok_iff, pure_eq_ok, Except.ok.injEq]
  constructor
  · rintro ⟨k, ⟨v, hv, hn⟩, _, ⟨w, set, hw, hs⟩, rfl⟩
    rw [hv] at hw
    cases hw
    exact ⟨v, set, hv, hn, hs⟩
  · rintro ⟨v, set, hv, hn, hs⟩
    exact ⟨h, ⟨v, hv, hn⟩, (), ⟨v, set, hv, hs⟩, rfl⟩

mutual

/-- A resolved proposition makes the statement that it was resolved from. -/
theorem states_of_resolve {r : Registry α} : {s : Statement} → {p : Proposition} →
    s.resolve r = .ok p → States r p s
  | .is subject label, p, hr => by
    obtain ⟨h, hh, ⟨⟩⟩ := bind_eq_ok_iff.mp hr
    obtain ⟨v, _, hv, hn, _⟩ := resolveSubject_eq_ok_iff.mp hh
    exact .is hv hn
  | .isNot subject label, p, hr => by
    obtain ⟨h, hh, ⟨⟩⟩ := bind_eq_ok_iff.mp hr
    obtain ⟨v, _, hv, hn, _⟩ := resolveSubject_eq_ok_iff.mp hh
    exact .isNot hv hn
  | .not [s], p, hr => by
    obtain ⟨q, hq, ⟨⟩⟩ := bind_eq_ok_iff.mp hr
    exact .not (states_of_resolve hq)
  | .and ss, p, hr => by
    obtain ⟨qs, hqs, hr⟩ := bind_eq_ok_iff.mp hr
    split at hr
    · cases hr
    · cases hr
      exact .and (stateAll_of_resolveAll hqs)
  | .or ss, p, hr => by
    obtain ⟨qs, hqs, hr⟩ := bind_eq_ok_iff.mp hr
    split at hr
    · cases hr
    · cases hr
      exact .or (stateAll_of_resolveAll hqs)

/-- Resolved propositions make the statements that they were resolved from. -/
theorem stateAll_of_resolveAll {r : Registry α} : {ss : List Statement} →
    {ps : List Proposition} → resolveAll r ss = .ok ps → StateAll r ps ss
  | [], ps, hr => by
    cases hr
    exact .nil
  | s :: ss, ps, hr => by
    obtain ⟨p, hp, hr⟩ := bind_eq_ok_iff.mp hr
    obtain ⟨rest, hrest, ⟨⟩⟩ := bind_eq_ok_iff.mp hr
    exact .cons (states_of_resolve hp) (stateAll_of_resolveAll hrest)

end

/-- A subject whose variable is registered in another registry resolves there, if it has the
label. -/
theorem exists_resolveSubject {r r' : Registry α} {h : Handle} {v : Variable α} {label : String}
    (hv : r.get h = .ok v) (hl : validateLabel r h label = .ok ()) (hm : v ∈ r'.members) :
    ∃ k, resolveSubject r' v.name label = .ok k := by
  obtain ⟨w, set, hw, hs⟩ := validateLabel_eq_ok_iff.mp hl
  rw [hv] at hw
  cases hw
  obtain ⟨k, hk⟩ := Registry.exists_get_of_mem hm
  exact ⟨k, resolveSubject_eq_ok_iff.mpr ⟨v, set, hk, rfl, hs⟩⟩

mutual

/-- The statement of a valid proposition resolves in every registry with the variables that the
proposition is about. -/
theorem exists_resolve {r r' : Registry α} {p : Proposition} {s : Statement} :
    States r p s → p.validate r = .ok () →
      (∀ a ∈ p.valuations, ∀ v, r.get a.1 = .ok v → v ∈ r'.members) →
        ∃ q, s.resolve r' = .ok q
  | @States.is _ _ _ h v _ label hv rfl, hp, hm => by
    obtain ⟨k, hk⟩ := exists_resolveSubject hv hp (hm (h, label) (by simp [valuations]) v hv)
    exact ⟨.is k label, by simp only [resolve, hk, ok_bind, pure_eq_ok]⟩
  | @States.isNot _ _ _ h v _ label hv rfl, hp, hm => by
    obtain ⟨k, hk⟩ := exists_resolveSubject hv hp (hm (h, label) (by simp [valuations]) v hv)
    exact ⟨.isNot k label, by simp only [resolve, hk, ok_bind, pure_eq_ok]⟩
  | .not h, hp, hm => by
    obtain ⟨q, hq⟩ := exists_resolve h hp hm
    exact ⟨.not q, by simp only [resolve, hq, ok_bind, pure_eq_ok]⟩
  | .and hs, hp, hm => by
    obtain ⟨hne, hps⟩ := validate_and_eq_ok_iff.mp hp
    obtain ⟨qs, hqs⟩ := exists_resolveAll hs hps hm
    have hne' : qs.isEmpty = false := by
      rw [(stateAll_of_resolveAll hqs).isEmpty_eq, ← hs.isEmpty_eq, hne]
    exact ⟨.and qs, by
      simp only [resolve, hqs, ok_bind, hne', Bool.false_eq_true, if_false, pure_eq_ok]⟩
  | .or hs, hp, hm => by
    obtain ⟨hne, hps⟩ := validate_or_eq_ok_iff.mp hp
    obtain ⟨qs, hqs⟩ := exists_resolveAll hs hps hm
    have hne' : qs.isEmpty = false := by
      rw [(stateAll_of_resolveAll hqs).isEmpty_eq, ← hs.isEmpty_eq, hne]
    exact ⟨.or qs, by
      simp only [resolve, hqs, ok_bind, hne', Bool.false_eq_true, if_false, pure_eq_ok]⟩

/-- The statements of valid propositions resolve in every registry with the variables that the
propositions are about. -/
theorem exists_resolveAll {r r' : Registry α} {ps : List Proposition} {ss : List Statement} :
    StateAll r ps ss → validateAll r ps = .ok () →
      (∀ a ∈ valuationsAll ps, ∀ v, r.get a.1 = .ok v → v ∈ r'.members) →
        ∃ qs, resolveAll r' ss = .ok qs
  | .nil, _, _ => ⟨[], rfl⟩
  | .cons h hs, hp, hm => by
    obtain ⟨_, hp, hps⟩ := bind_eq_ok_iff.mp hp
    obtain ⟨q, hq⟩ := exists_resolve h hp
      (fun a ha ↦ hm a (List.mem_append_left _ ha))
    obtain ⟨qs, hqs⟩ := exists_resolveAll hs hps
      (fun a ha ↦ hm a (List.mem_append_right _ ha))
    exact ⟨q :: qs, by simp only [resolveAll, hq, hqs, ok_bind, pure_eq_ok]⟩

end

end Statement

end FuzzyInference
