import FuzzyInference.Fault.Basic
import Mathlib.Data.List.Forall2

/-!
# Results of checks

How a sequence of checks comes out: it succeeds exactly when each of its steps does, and a list of
checks succeeds exactly when each element passes its own.
-/

namespace FuzzyInference.Result

variable {ε ε' β γ δ : Type}

/-- A sequence of two checks succeeds exactly when both do. -/
theorem bind_eq_ok_iff {x : Except ε β} {f : β → Except ε γ} {c : γ} :
    (x >>= f) = .ok c ↔ ∃ b, x = .ok b ∧ f b = .ok c := by
  cases x with
  | error fault => simp [bind, Except.bind]
  | ok b => simp [bind, Except.bind]

/-- A sequence of two checks fails as the first one does, or else as the second one. -/
theorem bind_eq_error_iff {x : Except ε β} {f : β → Except ε γ} {fault : ε} :
    (x >>= f) = .error fault ↔ x = .error fault ∨ ∃ b, x = .ok b ∧ f b = .error fault := by
  cases x with
  | error fault => simp [bind, Except.bind]
  | ok b => simp [bind, Except.bind]

/-- A first check that succeeds hands its result on. -/
@[simp] theorem ok_bind (b : β) (f : β → Except ε γ) : (Except.ok b >>= f) = f b := rfl

/-- A first check that fails decides the sequence. -/
@[simp] theorem error_bind (fault : ε) (f : β → Except ε γ) :
    (Except.error fault >>= f) = .error fault := rfl

/-- Sequences go on alike that do so behind what succeeds. -/
theorem bind_congr_of_ok {x : Except ε β} {f g : β → Except ε γ} (h : ∀ b, x = .ok b → f b = g b) :
    (x >>= f) = x >>= g := by
  cases x with
  | error fault => rfl
  | ok b => exact h b rfl

/-- Returning a value is a success. -/
theorem pure_eq_ok (b : β) : (pure b : Except ε β) = .ok b := rfl

/-- Renaming faults keeps successes. -/
@[simp] theorem mapError_eq_ok_iff {x : Except ε β} {f : ε → ε'} {b : β} :
    x.mapError f = .ok b ↔ x = .ok b := by
  cases x <;> simp [Except.mapError]

/-- Renaming faults renames the fault that is there. -/
theorem mapError_eq_error_iff {x : Except ε β} {f : ε → ε'} {fault : ε'} :
    x.mapError f = .error fault ↔ ∃ cause, x = .error cause ∧ fault = f cause := by
  cases x <;> simp [Except.mapError, eq_comm]

/-- A success has no fault to rename. -/
@[simp] theorem mapError_ok (f : ε → ε') (b : β) :
    (Except.ok b : Except ε β).mapError f = .ok b := rfl

/-- A list of checks succeeds exactly when each element passes its own check. -/
theorem mapM_eq_ok_iff {f : β → Except ε γ} {xs : List β} {ys : List γ} :
    xs.mapM f = .ok ys ↔ List.Forall₂ (fun x y ↦ f x = .ok y) xs ys := by
  induction xs generalizing ys with
  | nil =>
    cases ys with
    | nil => simp [pure, Except.pure]
    | cons y ys => simp [pure, Except.pure]
  | cons x xs ih =>
    rw [List.mapM_cons, bind_eq_ok_iff]
    simp only [bind_eq_ok_iff, ih, pure_eq_ok, Except.ok.injEq]
    constructor
    · rintro ⟨y, hy, ys', hys, rfl⟩
      exact .cons hy hys
    · intro h
      cases h with
      | cons hy hys => exact ⟨_, hy, _, hys, rfl⟩

/-- A list of checks fails as the first element does that fails its own. -/
theorem mapM_eq_error_iff {f : β → Except ε γ} {xs : List β} {fault : ε} :
    xs.mapM f = .error fault ↔ ∃ before x after, xs = before ++ x :: after ∧
      (∀ b ∈ before, ∃ y, f b = .ok y) ∧ f x = .error fault := by
  induction xs with
  | nil => simp [pure_eq_ok]
  | cons x xs ih =>
    simp only [List.mapM_cons, bind_eq_error_iff, ih, pure_eq_ok, reduceCtorEq, and_false,
      exists_false, or_false]
    constructor
    · rintro (hx | ⟨y, hy, before, z, after, rfl, hbefore, hz⟩)
      · exact ⟨[], x, xs, rfl, fun _ h ↦ absurd h List.not_mem_nil, hx⟩
      · exact ⟨x :: before, z, after, rfl, List.forall_mem_cons.mpr ⟨⟨y, hy⟩, hbefore⟩, hz⟩
    · rintro ⟨_ | ⟨b, before⟩, z, after, hsplit, hbefore, hz⟩
      · cases hsplit
        exact .inl hz
      · cases hsplit
        obtain ⟨⟨y, hy⟩, hbefore⟩ := List.forall_mem_cons.mp hbefore
        exact .inr ⟨y, hy, before, z, after, rfl, hbefore, hz⟩

/-- What is on the right of paired lists has a partner on the left. -/
theorem exists_left_of_mem {R : β → γ → Prop} {xs : List β} {ys : List γ}
    (h : List.Forall₂ R xs ys) {y : γ} (hy : y ∈ ys) : ∃ x ∈ xs, R x y := by
  induction h with
  | nil => cases hy
  | cons hxy _ ih =>
    rcases List.mem_cons.mp hy with rfl | hy
    · exact ⟨_, List.mem_cons_self, hxy⟩
    · obtain ⟨x, hx, hr⟩ := ih hy
      exact ⟨x, List.mem_cons_of_mem _ hx, hr⟩

/-- What is on the left of paired lists has a partner on the right. -/
theorem exists_right_of_mem {R : β → γ → Prop} {xs : List β} {ys : List γ}
    (h : List.Forall₂ R xs ys) {x : β} (hx : x ∈ xs) : ∃ y ∈ ys, R x y :=
  exists_left_of_mem h.flip hx

/-- Partners of all elements make up a list. -/
theorem exists_forall₂ {R : β → γ → Prop} {xs : List β} (h : ∀ x ∈ xs, ∃ y, R x y) :
    ∃ ys, List.Forall₂ R xs ys := by
  induction xs with
  | nil => exact ⟨[], .nil⟩
  | cons x xs ih =>
    rw [List.forall_mem_cons] at h
    obtain ⟨⟨y, hy⟩, h⟩ := h
    obtain ⟨ys, hys⟩ := ih h
    exact ⟨y :: ys, .cons hy hys⟩

/-- A list of checks succeeds if each element passes its own. -/
theorem exists_mapM {f : β → Except ε γ} {xs : List β} (h : ∀ x ∈ xs, ∃ y, f x = .ok y) :
    ∃ ys, xs.mapM f = .ok ys := by
  obtain ⟨ys, hys⟩ := exists_forall₂ h
  exact ⟨ys, mapM_eq_ok_iff.mpr hys⟩

/-- Lists whose elements check alike check alike. -/
theorem mapM_eq_of_forall₂ {f : β → Except ε δ} {g : γ → Except ε δ} {xs : List β} {ys : List γ}
    (h : List.Forall₂ (fun x y ↦ f x = g y) xs ys) : xs.mapM f = ys.mapM g := by
  induction h with
  | nil => rfl
  | cons hxy _ ih => rw [List.mapM_cons, List.mapM_cons, hxy, ih]

/-- A condition that is checked first is met by every sequence that succeeds. -/
theorem check_bind_eq_ok_iff {x : Except ε Unit} {y : Except ε γ} {c : γ} :
    (x >>= fun _ ↦ y) = .ok c ↔ x = .ok () ∧ y = .ok c := by
  cases x <;> simp [bind, Except.bind]

/-- A condition that refuses is not met by a sequence that succeeds. -/
theorem refuse_eq_ok_iff {p : Prop} [Decidable p] {fault : ε} {x : Except ε β} {b : β} :
    (if p then .error fault else x) = .ok b ↔ ¬ p ∧ x = .ok b := by
  split <;> simp_all

/-- A condition that is required is met by every sequence that succeeds. -/
theorem require_eq_ok_iff {p : Prop} [Decidable p] {fault : ε} {x : Except ε β} {b : β} :
    (if p then x else .error fault) = .ok b ↔ p ∧ x = .ok b := by
  split <;> simp_all

/-- A list of conditions holds exactly when each element meets its own. -/
theorem forM_eq_ok_iff {f : β → Except ε Unit} {xs : List β} :
    xs.forM f = .ok () ↔ ∀ x ∈ xs, f x = .ok () := by
  induction xs with
  | nil => simp [pure_eq_ok]
  | cons x xs ih =>
    rw [List.forM_eq_forM] at *
    rw [List.forM_cons, check_bind_eq_ok_iff, List.forall_mem_cons, ih]

end FuzzyInference.Result
