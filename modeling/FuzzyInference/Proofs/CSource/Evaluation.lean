import FuzzyInference.CSource.Prelude
import FuzzyInference.Proofs.CSource.Reading

/-!
# The meaning of C functions

What a function returns for given arguments. An expression has the value of the term that it stands
for; arithmetic is that of a scalar type, so with exact scalars nothing is rounded. Integers are
kept apart from floating numbers, and are converted where the two meet.
-/

namespace FuzzyInference.CSource

variable {α : Type} [Scalar α]

/-- The value of an expression. -/
inductive Value (α : Type) where
  /-- An integer. -/
  | whole (n : Int)
  /-- A floating number. -/
  | floating (x : α)

namespace Value

/-- The floating number that an integer is converted to. -/
def ofInt (n : Int) : α := if n < 0 then -Scalar.ofNat n.natAbs else Scalar.ofNat n.natAbs

/-- The value as a floating number. -/
def toFloating : Value α → α
  | whole n => ofInt n
  | floating x => x

/-- The integer that is left of a floating number without its fraction. -/
def truncate (x : α) : Int :=
  let below (y : α) : Nat :=
    let n := Scalar.ceilNat y
    if y < Scalar.ofNat n then n - 1 else n
  if x < 0 then -(below (-x) : Int) else below x

/-- The value as an integer. -/
def toWhole : Value α → Int
  | whole n => n
  | floating x => truncate x

/-- Every value but zero counts as true. -/
def isTrue : Value α → Bool
  | whole n => n != 0
  | floating x => !(x == 0)

/-- The value of a condition. -/
def ofBool (b : Bool) : Value α := whole (if b then 1 else 0)

@[simp] theorem isTrue_ofBool (b : Bool) : (ofBool b : Value α).isTrue = b := by
  cases b <;> rfl

end Value

namespace BinaryOperator

/-- An operator applied to integers. There is no quotient by zero. -/
def applyWhole (m n : Int) : BinaryOperator → Option (Value α)
  | plus => some (.whole (m + n))
  | minus => some (.whole (m - n))
  | times => some (.whole (m * n))
  | slash => if n = 0 then none else some (.whole (m.tdiv n))
  | equal => some (.ofBool (m == n))
  | less => some (.ofBool (m < n))
  | lessEqual => some (.ofBool (m ≤ n))
  | greater => some (.ofBool (n < m))
  | greaterEqual => some (.ofBool (n ≤ m))
  | both => some (.ofBool (m != 0 && n != 0))
  | either => some (.ofBool (m != 0 || n != 0))

/-- An operator applied to floating numbers. -/
def applyFloating (x y : α) : BinaryOperator → Value α
  | plus => .floating (x + y)
  | minus => .floating (x - y)
  | times => .floating (x * y)
  | slash => .floating (x / y)
  | equal => .ofBool (x == y)
  | less => .ofBool (x < y)
  | lessEqual => .ofBool (x ≤ y)
  | greater => .ofBool (y < x)
  | greaterEqual => .ofBool (y ≤ x)
  | both => .ofBool (!(x == 0) && !(y == 0))
  | either => .ofBool (!(x == 0) || !(y == 0))

/-- An operator applied to two values. Integers stay integers among themselves. -/
def apply (op : BinaryOperator) : Value α → Value α → Option (Value α)
  | .whole m, .whole n => op.applyWhole m n
  | v, w => some (op.applyFloating v.toFloating w.toFloating)

end BinaryOperator

/-- The functions that may be called, by name and arguments. -/
abbrev Functions (α : Type) := String → List α → Option α

/-- The values that names stand for. -/
abbrev Environment (α : Type) := String → Option (Value α)

mutual

/-- The value of a term. A name that stands for a value is no function. -/
def Term.value (functions : Functions α) (env : Environment α) : Term α → Option (Value α)
  | .number x => some (.floating x)
  | .whole n => some (.whole n)
  | .variable name => env name
  | .call function arguments => do
    let xs ← argumentValues functions env arguments
    match env function with
    | some _ => none
    | none => return .floating (← functions function xs)
  | .negation t => do
    match ← Term.value functions env t with
    | .whole n => return .whole (-n)
    | .floating x => return .floating (-x)
  | .conversion t => do return .whole (← Term.value functions env t).toWhole
  | .binary op l r => do
    let v ← Term.value functions env l
    let w ← Term.value functions env r
    op.apply v w
  | .choice c y n => do
    if (← Term.value functions env c).isTrue then Term.value functions env y
    else Term.value functions env n

/-- The values of arguments, as floating numbers. -/
def argumentValues (functions : Functions α) (env : Environment α) :
    List (Term α) → Option (List α)
  | [] => some []
  | t :: ts => do
    let v ← Term.value functions env t
    let xs ← argumentValues functions env ts
    return v.toFloating :: xs

end

open Classical in
/-- The term that an expression stands for. -/
noncomputable def reading (e : Expression α) : Option (Term α) :=
  if h : ∃ t, Reads 8 e t then some h.choose else none

omit [Scalar α] in
/-- The reading of an expression is the term that it stands for by the grammar. -/
theorem reading_eq {n : Nat} (hn : n ≤ 8) {e : Expression α} {t : Term α} (h : Reads n e t) :
    reading e = some t := by
  have he : ∃ t, Reads 8 e t := ⟨t, h.of_le hn⟩
  rw [reading, dif_pos he, he.choose_spec.unique (Nat.le_refl 8) (h.of_le hn)]

/-- The value of an expression. -/
noncomputable def valueOf (functions : Functions α) (env : Environment α) (e : Expression α) :
    Option (Value α) :=
  (reading e).bind (Term.value functions env)

/-- An environment in which a name stands for a value. -/
def Environment.set (env : Environment α) (name : String) (v : Value α) : Environment α :=
  fun s ↦ if s = name then some v else env s

/-- The environment in which parameters stand for arguments. -/
def bindParameters : List String → List α → Environment α
  | name :: names, x :: xs => (bindParameters names xs).set name (.floating x)
  | _, _ => fun _ ↦ none

/-- What comes of a statement: the function has returned, or goes on. -/
inductive Outcome (α : Type) where
  /-- The function returns a number. -/
  | returned (x : α)
  /-- The next statement is run. -/
  | going (env : Environment α)

mutual

/-- What a statement does. A loop counts from zero up to below what its bound stands for when it is
entered. -/
noncomputable def Statement.run (functions : Functions α) (env : Environment α) :
    Statement α → Option (Outcome α)
  | .result e => do return .returned (← valueOf functions env e).toFloating
  | .resultIf c e => do
    if (← valueOf functions env c).isTrue then
      return .returned (← valueOf functions env e).toFloating
    else return .going env
  | .index _ => some (.going env)
  | .whole name e => do
    return .going (env.set name (.whole (← valueOf functions env e).toWhole))
  | .floating locals => do
    let env ← locals.foldlM (fun env (name, e) ↦ do
      return Environment.set env name (.floating (← valueOf functions env e).toFloating)) env
    return .going env
  | .increase name e => do
    let old ← env name
    let v ← valueOf functions env e
    return .going (env.set name (.floating (old.toFloating + v.toFloating)))
  | .loop index bound body => do
    let n := (← env bound).toWhole.toNat
    (List.range n).foldlM (fun outcome (i : Nat) ↦
      match outcome with
      | .returned x => some (.returned x)
      | .going env => runBody functions (env.set index (.whole i)) body) (.going env)
  | .gap => some (.going env)

/-- What the statements of a body do, one after the other. -/
noncomputable def runBody (functions : Functions α) (env : Environment α) :
    List (Statement α) → Option (Outcome α)
  | [] => some (.going env)
  | statement :: rest => do
    match ← Statement.run functions env statement with
    | .returned x => return .returned x
    | .going env => runBody functions env rest

end

/-- What a function returns for given arguments. -/
noncomputable def Function.result (functions : Functions α) (f : Function α) (arguments : List α) :
    Option α :=
  if arguments.length = f.parameters.length then
    match runBody functions (bindParameters f.parameters arguments) f.body with
    | some (.returned x) => some x
    | _ => none
  else none

/-- The mathematical functions that expressions call. Of two numbers, `fmin` and `fmax` prefer one
that is a number to one that is not. -/
def library : Functions α
  | "fmin", [x, y] => some (Scalar.min x y)
  | "fmax", [x, y] => some (Scalar.max x y)
  | "fabs", [x] => some (Scalar.abs x)
  | "exp", [x] => some (Scalar.exp x)
  | "pow", [x, y] => some (Scalar.pow x y)
  | _, _ => none

/-- A function may call those that are known before it. -/
noncomputable def Functions.extend (known : Functions α) (f : Function α) : Functions α :=
  fun name arguments ↦ if name = f.name then f.result known arguments else known name arguments

/-- The functions that a unit defines, each behind those that it calls. -/
noncomputable def definedBy (functions : List (Function α)) : Functions α :=
  functions.foldl Functions.extend library

end FuzzyInference.CSource
