import FuzzyInference.Decimal.Layout
import FuzzyInference.Decimal.Numeral
import FuzzyInference.Json.Basic
import FuzzyInference.Proofs.Fault.Result
import Mathlib.Algebra.Group.Int.Defs

/-!
# Values that can be stored

What a value must be like for its text to be read back: containers are not nested too deeply, whole
numbers have at most 64 bits, other numbers are those that their digits identify, and nothing is
unusable.
-/

namespace FuzzyInference

/-- A machine number is the one nearest to what is written for it. -/
def PrintsBack (x : Float) : Prop := Scalar.ofText? (Layout.interchange.render x).toList = some x

instance (x : Float) : Decidable (PrintsBack x) :=
  inferInstanceAs (Decidable (Scalar.ofText? (Layout.interchange.render x).toList = some x))

namespace Json

/-- A list is decoded exactly when each element is. -/
theorem mapM_eq_some_iff {β γ : Type} {f : β → Option γ} {xs : List β} {ys : List γ} :
    xs.mapM f = some ys ↔ List.Forall₂ (fun x y ↦ f x = some y) xs ys := by
  induction xs generalizing ys with
  | nil => cases ys <;> simp
  | cons x xs ih =>
    simp only [List.mapM_cons, Option.pure_def, Option.bind_eq_bind, Option.bind_eq_some_iff, ih,
      Option.some.injEq]
    constructor
    · rintro ⟨y, hy, ys', hys, rfl⟩
      exact .cons hy hys
    · rintro (_ | ⟨hy, hys⟩)
      exact ⟨_, hy, _, hys, rfl⟩

mutual

/-- Containers are nested at most `room` deep, and whole numbers have at most 64 bits. -/
def fits (room : Nat) : Json → Bool
  | integer n => -(2 ^ 63) ≤ n && n < 2 ^ 64
  | array items => 0 < room && fitsItems (room - 1) items
  | object fields => 0 < room && fitsFields (room - 1) fields
  | _ => true

/-- Every value of a list fits. -/
def fitsItems (room : Nat) : List Json → Bool
  | [] => true
  | item :: items => fits room item && fitsItems room items

/-- The value of every field fits. -/
def fitsFields (room : Nat) : List (String × Json) → Bool
  | [] => true
  | (_, value) :: fields => fits room value && fitsFields room fields

end

mutual

/-- The numbers in a value are those that their digits identify, and nothing is unusable. -/
def Printable : Json → Prop
  | real x => x.isFinite = true ∧ PrintsBack x
  | array items => PrintableItems items
  | object fields => PrintableFields fields
  | unusable => False
  | _ => True

/-- Every value of a list is printable. -/
def PrintableItems : List Json → Prop
  | [] => True
  | item :: items => Printable item ∧ PrintableItems items

/-- The value of every field is printable. -/
def PrintableFields : List (String × Json) → Prop
  | [] => True
  | (_, value) :: fields => Printable value ∧ PrintableFields fields

end

/-- The values of a list fit one by one. -/
theorem fitsItems_iff {room : Nat} {items : List Json} :
    fitsItems room items = true ↔ ∀ v ∈ items, v.fits room = true := by
  induction items with
  | nil => simp [fitsItems]
  | cons item items ih => rw [fitsItems, Bool.and_eq_true, ih, List.forall_mem_cons]

/-- The values of fields fit one by one. -/
theorem fitsFields_iff {room : Nat} {fields : List (String × Json)} :
    fitsFields room fields = true ↔ ∀ f ∈ fields, f.2.fits room = true := by
  induction fields with
  | nil => simp [fitsFields]
  | cons field fields ih => rw [fitsFields, Bool.and_eq_true, ih, List.forall_mem_cons]

/-- An array takes up one level. -/
theorem fits_array_iff {room : Nat} {items : List Json} :
    (array items).fits room = true ↔ 0 < room ∧ ∀ v ∈ items, v.fits (room - 1) = true := by
  rw [fits, Bool.and_eq_true, decide_eq_true_eq, fitsItems_iff]

/-- An object takes up one level. -/
theorem fits_object_iff {room : Nat} {fields : List (String × Json)} :
    (object fields).fits room = true ↔ 0 < room ∧ ∀ f ∈ fields, f.2.fits (room - 1) = true := by
  rw [fits, Bool.and_eq_true, decide_eq_true_eq, fitsFields_iff]

mutual

/-- What fits into some room fits into more. -/
theorem fits_of_le {m n : Nat} (h : m ≤ n) :
    {v : Json} → v.fits m = true → v.fits n = true
  | null, _ => rfl
  | bool _, _ => rfl
  | integer _, hf => hf
  | real _, _ => rfl
  | string _, _ => rfl
  | array items, hf => by
    simp only [fits, Bool.and_eq_true, decide_eq_true_eq] at hf ⊢
    exact ⟨by omega, fitsItems_of_le (by omega) hf.2⟩
  | object fields, hf => by
    simp only [fits, Bool.and_eq_true, decide_eq_true_eq] at hf ⊢
    exact ⟨by omega, fitsFields_of_le (by omega) hf.2⟩
  | unusable, _ => rfl

/-- Items that fit into some room fit into more. -/
theorem fitsItems_of_le {m n : Nat} (h : m ≤ n) :
    {items : List Json} → fitsItems m items = true → fitsItems n items = true
  | [], _ => rfl
  | item :: items, hf => by
    simp only [fitsItems, Bool.and_eq_true] at hf ⊢
    exact ⟨fits_of_le h hf.1, fitsItems_of_le h hf.2⟩

/-- Fields that fit into some room fit into more. -/
theorem fitsFields_of_le {m n : Nat} (h : m ≤ n) :
    {fields : List (String × Json)} → fitsFields m fields = true → fitsFields n fields = true
  | [], _ => rfl
  | (_, value) :: fields, hf => by
    simp only [fitsFields, Bool.and_eq_true] at hf ⊢
    exact ⟨fits_of_le h hf.1, fitsFields_of_le h hf.2⟩

end

/-- The values of a list are printable one by one. -/
theorem printableItems_iff {items : List Json} :
    PrintableItems items ↔ ∀ v ∈ items, v.Printable := by
  induction items with
  | nil => simp [PrintableItems]
  | cons item items ih => rw [PrintableItems, ih, List.forall_mem_cons]

/-- The values of fields are printable one by one. -/
theorem printableFields_iff {fields : List (String × Json)} :
    PrintableFields fields ↔ ∀ f ∈ fields, f.2.Printable := by
  induction fields with
  | nil => simp [PrintableFields]
  | cons field fields ih => rw [PrintableFields, ih, List.forall_mem_cons]

end Json

end FuzzyInference
