import FuzzyInference.Stores

/-!
# Registries

The variables of a system, in numbered slots and in step with the index of their names. A handle is
the number of a slot; a variable, once registered, keeps its slot. Only valid variables are
registered, and no two of one name.
-/

namespace FuzzyInference

/-- Registered variables. -/
structure Registry (α : Type) [Scalar α] where
  /-- The slots and the index. -/
  stores : Stores (Slots (Variable α)) Handle
  /-- The stores are in step, and every variable is valid. -/
  inStep : stores.InStep

namespace Registry

variable {α : Type} [Scalar α]

/-- The registry without variables. -/
def empty : Registry α := ⟨.empty, Stores.inStep_empty⟩

instance : Inhabited (Registry α) := ⟨empty⟩

/-- The number of variables. -/
def size (r : Registry α) : Nat := r.stores.size

/-- The variables in the order of their registration. -/
def members (r : Registry α) : List (Variable α) := r.stores.slots.values

/-- The names of the variables, in order. -/
def names (r : Registry α) : List String := r.members.map (·.name)

/-- A registry with one more variable, and the handle of that. The variable must be valid and its
name new. -/
def add (r : Registry α) (v : Variable α) : Checked α (Registry α × Handle) :=
  match hadd : r.stores.add v with
  | .error fault => .error fault
  | .ok (stores, h) => .ok (⟨stores, Stores.inStep_add r.inStep hadd⟩, h)

/-- The variable that a handle stands for. -/
def get (r : Registry α) (h : Handle) : Except LookupFault (Variable α) := r.stores.get h

/-- The handle of the variable with a given name. -/
def byName (r : Registry α) (name : String) : Except LookupFault Handle := r.stores.byName name

/-- The set that a label of the variable behind a handle stands for. -/
def labelSet (r : Registry α) (h : Handle) (label : String) : Except LookupFault (FuzzySet α) := do
  (← r.get h).get label

end Registry

end FuzzyInference
