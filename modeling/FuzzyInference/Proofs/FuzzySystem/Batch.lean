import FuzzyInference.Proofs.FuzzySystem.Dependence
import FuzzyInference.Proofs.FuzzySystem.Lookup

/-!
# Batches of rows

A batch is predicted row by row. A row of values stands for every assignment that gives the inputs
these values, and an assignment is predicted as the row is that it is transformed into.
-/

namespace FuzzyInference.FuzzySystem

open Result

variable {α : Type} [Scalar α] {s : FuzzySystem α}

/-- An assignment gives the inputs the values of a row. An input that is listed several times gets
the last of its values. -/
def GivesRow (s : FuzzySystem α) (a : Assignment α) (values : List (Point α)) : Prop :=
  ∀ before h x after, s.inputs.zip values = before ++ (h, x) :: after →
    (∀ y, (h, y) ∉ after) → ∀ v, s.registry.get h = .ok v → a.get v.name = .ok x

/-! ### Values behind handles -/

private theorem exists_last_of_mem {β γ : Type} {key : β} {pairs : List (β × γ)}
    (hkey : key ∈ pairs.map Prod.fst) :
    ∃ before x after, pairs = before ++ (key, x) :: after ∧ ∀ y, (key, y) ∉ after := by
  induction pairs with
  | nil => cases hkey
  | cons pair pairs ih =>
    by_cases hrest : key ∈ pairs.map Prod.fst
    · obtain ⟨before, x, after, rfl, hafter⟩ := ih hrest
      exact ⟨pair :: before, x, after, rfl, hafter⟩
    · obtain rfl | hkey := List.mem_cons.mp hkey
      · exact ⟨[], pair.2, pairs, rfl, fun y hy ↦ hrest (List.mem_map.mpr ⟨_, hy, rfl⟩)⟩
      · exact absurd hkey hrest

private theorem exists_last_value {values : List (Point α)}
    (hwidth : values.length = s.inputs.length) {h : Handle} (hm : h ∈ s.inputs) :
    ∃ before x after, s.inputs.zip values = before ++ (h, x) :: after ∧ ∀ y, (h, y) ∉ after := by
  apply exists_last_of_mem
  rwa [List.map_fst_zip hwidth.ge]

section WellFormed

variable (hs : s.WellFormed)
include hs

/-- The input variables of a well-formed system are those behind its inputs. -/
theorem WellFormed.get_inputVariables :
    List.Forall₂ (fun h v ↦ s.registry.get h = .ok v) s.inputs s.inputVariables :=
  (inputVariables_eq_iff hs.inputs).mp rfl

/-- The assignment that is made of a row gives the inputs its values. -/
theorem WellFormed.givesRow_assignment (values : List (Point α)) :
    s.GivesRow (.ofList ((s.inputVariables.map (·.name)).zip values)) values := by
  let nameOf (h : Handle) : String := ((s.registry.get h).toOption.map (·.name)).getD ""
  have hname : ∀ {h v}, s.registry.get h = .ok v → nameOf h = v.name := by
    intro h v hv
    simp only [nameOf, hv, Except.toOption, Option.map_some, Option.getD_some]
  have hnames : s.inputVariables.map (·.name) = s.inputs.map nameOf := by
    have hget : List.Forall₂ (fun h v ↦ nameOf h = v.name) s.inputs s.inputVariables :=
      hs.get_inputVariables.imp fun _ _ ↦ hname
    exact (List.forall₂_eq_eq_eq ▸ List.forall₂_map_left_iff.mpr
      (List.forall₂_map_right_iff.mpr hget) : s.inputs.map nameOf = _).symm
  intro before h x after hsplit hlast v hv
  -- Another input behind the value would have to be the same one to have the same name.
  have hother : ∀ entry ∈ after.map (Prod.map nameOf id), entry.1 ≠ v.name := by
    rintro _ hentry heq
    obtain ⟨⟨k, y⟩, hm, rfl⟩ := List.mem_map.mp hentry
    have hk : k ∈ s.inputs := by
      have hzip : (k, y) ∈ s.inputs.zip values := by
        rw [hsplit]
        exact List.mem_append_right _ (List.mem_cons_of_mem _ hm)
      exact (List.of_mem_zip hzip).1
    obtain ⟨w, hw⟩ := hs.inputs k hk
    have hkh : k = h := Registry.handle_eq_of_name_eq hw hv ((hname hw).symm.trans heq)
    exact hlast y (hkh ▸ hm)
  have hentries : (s.inputVariables.map (·.name)).zip values =
      before.map (Prod.map nameOf id) ++ (v.name, x) :: after.map (Prod.map nameOf id) := by
    rw [hnames, List.zip_map_left, hsplit, List.map_append, List.map_cons, Prod.map, hname hv, id]
  rw [Assignment.get, Assignment.ofList, hentries, Table.get?_ofList_of_last hother]

/-- Assignments that give the inputs the values of one row agree on all that the rules read. -/
theorem GivesRow.sameValues {a b : Assignment α} {values : List (Point α)}
    (hwidth : values.length = s.inputs.length) (ha : s.GivesRow a values)
    (hb : s.GivesRow b values) :
    Proposition.SameValues s.registry a b s.rules.valuations := by
  intro valuation hm v hv
  obtain ⟨rule, hrule, hm⟩ := List.mem_flatMap.mp hm
  obtain ⟨before, x, after, hsplit, hlast⟩ :=
    exists_last_value hwidth ((hs.rules rule hrule).reads valuation hm)
  rw [ha before _ x after hsplit hlast v hv, hb before _ x after hsplit hlast v hv]

/-- A row is predicted as every assignment is that gives the inputs its values. -/
theorem GivesRow.predictRow_eq {a : Assignment α} {values : List (Point α)}
    (ha : s.GivesRow a values) (hwidth : values.length = s.inputs.length) :
    s.predictRow (.positional values) = s.crisp a s.context := by
  have hgives := hs.givesRow_assignment values
  rw [predictRow, assignmentOf, if_neg (not_not.mpr hwidth), ok_bind, crisp, crisp, output, output,
    RuleBase.output_of_sameValues (ha.sameValues hs hwidth hgives)]

/-- The row that an assignment is transformed into has its values for the inputs. -/
theorem WellFormed.givesRow_of_rowOf {a : Assignment α} {row : List (Point α)}
    (hrow : s.rowOf a = .ok row) : row.length = s.inputs.length ∧ s.GivesRow a row := by
  rw [rowOf, mapM_eq_ok_iff] at hrow
  refine ⟨hrow.length_eq.symm.trans hs.get_inputVariables.length_eq.symm, ?_⟩
  intro before h x after hsplit _ v hv
  have hm : (h, x) ∈ s.inputs.zip row := by
    rw [hsplit]
    exact List.mem_append_right _ List.mem_cons_self
  obtain ⟨i, hi, hix⟩ := List.mem_iff_getElem.mp hm
  rw [List.getElem_zip, Prod.mk.injEq] at hix
  rw [List.length_zip, Nat.lt_min] at hi
  have hvi : i < s.inputVariables.length := hs.get_inputVariables.length_eq ▸ hi.1
  have hget := hs.get_inputVariables.get hi.1 hvi
  have hvalue := hrow.get hvi hi.2
  simp only [List.get_eq_getElem, hix.1, hix.2] at hget hvalue
  rw [hv] at hget
  rw [Except.ok.inj hget]
  exact hvalue

end WellFormed

/-! ### Main results -/

/-- A batch succeeds exactly when each of its rows does, with the result of each row in its place,
and else fails as the first row does that fails.

By itself, a row of values with another width than the inputs is refused, a row of that width comes
out as every assignment does that gives the inputs these values, and there is one. In particular,
the row that an assignment is transformed into comes out as the assignment itself, be it with a
fault. -/
theorem predict_is_rowwise [Scalar.OrderedFinite α] {s : FuzzySystem α} (hs : s.Obtained) :
    (∀ rows, (∃ ys, s.predict rows = .ok ys) ↔ ∀ row ∈ rows, ∃ y, s.predictRow row = .ok y) ∧
    (∀ rows ys, s.predict rows = .ok ys ↔
      List.Forall₂ (fun row y ↦ s.predictRow row = .ok y) rows ys) ∧
    (∀ rows fault, s.predict rows = .error fault ↔
      ∃ before row after, rows = before ++ row :: after ∧
        (∀ first ∈ before, ∃ y, s.predictRow first = .ok y) ∧ s.predictRow row = .error fault) ∧
    (∀ a, s.predictRow (.named a) = s.crisp a s.context) ∧
    (∀ values : List (Point α), values.length ≠ s.inputs.length →
      ∃ fault, s.predictRow (.positional values) = .error fault ∧
        fault = .system (.rowWidth values.length s.inputs.length) ∧ fault.kind = .validation) ∧
    (∀ values : List (Point α), values.length = s.inputs.length →
      (∃ a, s.GivesRow a values) ∧
        ∀ a, s.GivesRow a values → s.predictRow (.positional values) = s.crisp a s.context) ∧
    ∀ a row, s.rowOf a = .ok row → s.predictRow (.positional row) = s.predictRow (.named a) := by
  have hw := hs.wellFormed
  refine ⟨fun rows ↦ ?_, fun _ _ ↦ mapM_eq_ok_iff, fun _ _ ↦ mapM_eq_error_iff, fun _ ↦ rfl,
    fun values hwidth ↦ ?_, fun values hwidth ↦ ?_, fun a row hrow ↦ ?_⟩
  · constructor
    · rintro ⟨ys, hys⟩ row hrow
      obtain ⟨y, -, hy⟩ := exists_right_of_mem (mapM_eq_ok_iff.mp hys) hrow
      exact ⟨y, hy⟩
    · exact exists_mapM
  · refine ⟨_, ?_, rfl, rfl⟩
    rw [predictRow, assignmentOf, if_pos hwidth, error_bind]
  · exact ⟨⟨_, hw.givesRow_assignment values⟩, fun a ha ↦ ha.predictRow_eq hw hwidth⟩
  · obtain ⟨hwidth, hgives⟩ := hw.givesRow_of_rowOf hrow
    exact hgives.predictRow_eq hw hwidth

private theorem obtained_alarm : alarm.Obtained := by
  have hrules : BuiltRules alarm.rules := by
    rw [builtRules_iff]
    intro rule hrule
    rw [List.mem_singleton.mp hrule]
    decide
  have hbuild : build alarm.registry alarm.inputs alarm.rules alarm.target = .ok alarm := by rfl
  exact .built hrules hbuild

/-- The alarm sounds alike for values by name, in whatever order they were given, and for the row of
these values; a batch in which a narrower row follows comes to nothing. -/
theorem alarm_predict_is_rowwise :
    let fire : Assignment Float := .ofList [("heat", .number 60), ("smoke", .number 1)]
    alarm.Obtained ∧ alarm.rowOf fire = .ok [.number 1, .number 60] ∧
      alarm.predictRow (.positional [.number 1, .number 60]) = alarm.predictRow (.named fire) ∧
      (∃ y, alarm.predict [.named fire, .positional [.number 1, .number 60]] = .ok [y, y]) ∧
      alarm.predict [.named fire, .positional [.number 1], .positional []] =
        .error (.system (.rowWidth 1 2)) := by
  intro fire
  obtain ⟨-, hok, herror, -, hwidth, -, hrow⟩ := predict_is_rowwise obtained_alarm
  have hfire : alarm.rowOf fire = .ok [.number 1, .number 60] := rfl
  have hy : alarm.predictRow (.named fire) = .ok _ := rfl
  have heq := hrow fire _ hfire
  refine ⟨obtained_alarm, hfire, heq, ⟨_, (hok _ _).mpr (.cons hy (.cons (heq.trans hy) .nil))⟩,
    (herror _ _).mpr ⟨[.named fire], .positional [.number 1], [.positional []], rfl, ?_, ?_⟩⟩
  · exact List.forall_mem_singleton.mpr ⟨_, hy⟩
  · obtain ⟨_, hfault, rfl, -⟩ := hwidth [.number 1] (by decide)
    exact hfault

end FuzzyInference.FuzzySystem
