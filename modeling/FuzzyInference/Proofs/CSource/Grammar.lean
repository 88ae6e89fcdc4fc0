import FuzzyInference.CSource.Token

/-!
# The grammar of C expressions

How the words of an expression are grouped: by the precedence of the operators, and operators of one
precedence from the left. A grammar of levels says which word lists are expressions of which
precedence, and which tree each of them stands for.
-/

namespace FuzzyInference.CSource

/-- An operator between two operands. -/
inductive BinaryOperator where
  /-- Addition. -/
  | plus
  /-- Subtraction. -/
  | minus
  /-- Multiplication. -/
  | times
  /-- Division. -/
  | slash
  /-- Equality. -/
  | equal
  /-- Strict comparison. -/
  | less
  /-- Comparison. -/
  | lessEqual
  /-- Strict comparison the other way round. -/
  | greater
  /-- Comparison the other way round. -/
  | greaterEqual
  /-- Conjunction of conditions. -/
  | both
  /-- Disjunction of conditions. -/
  | either
  deriving DecidableEq

/-- The level of the expressions that an operator forms. What needs no operator is of level 0, a
sign or a conversion of level 1, and a choice of level 8. -/
def BinaryOperator.level : BinaryOperator → Nat
  | times | slash => 2
  | plus | minus => 3
  | less | lessEqual | greater | greaterEqual => 4
  | equal => 5
  | both => 6
  | either => 7

/-- The operator that a word is. -/
def Token.operator? {α : Type} : Token α → Option BinaryOperator
  | plus => some .plus
  | minus => some .minus
  | times => some .times
  | slash => some .slash
  | equal => some .equal
  | less => some .less
  | lessEqual => some .lessEqual
  | greater => some .greater
  | greaterEqual => some .greaterEqual
  | both => some .both
  | either => some .either
  | _ => none

/-- An expression as its operators group it. -/
inductive Term (α : Type) where
  /-- A floating literal. The sign of a negative one binds tighter than every operator around it. -/
  | number (x : α)
  /-- An integer literal. -/
  | whole (n : Nat)
  /-- The value of a variable. -/
  | variable (name : String)
  /-- The value of a function. -/
  | call (function : String) (arguments : List (Term α))
  /-- The opposite of an operand. -/
  | negation (operand : Term α)
  /-- The conversion of an operand to an integer. -/
  | conversion (operand : Term α)
  /-- An operator applied to two operands. -/
  | binary (op : BinaryOperator) (left right : Term α)
  /-- One of two alternatives. -/
  | choice (condition yes no : Term α)

variable {α : Type}

mutual

/-- A list of words is an expression of a level, and stands for a term. The left operand of an
operator is of the operator's own level and the right one of the level below, so that operators of
one level group from the left. -/
inductive Reads : Nat → Expression α → Term α → Prop
  | number (x : α) : Reads 0 [.number x] (.number x)
  | whole (n : Nat) : Reads 0 [.whole n] (.whole n)
  | variable (name : String) : Reads 0 [.name name] (.variable name)
  | group {e : Expression α} {t : Term α} :
    Reads 8 e t → Reads 0 (Expression.grouped e) t
  | call {function : String} {es : List (Expression α)} {ts : List (Term α)} :
    ReadAll es ts → Reads 0 (Expression.call function es) (.call function ts)
  | negation {e : Expression α} {t : Term α} :
    Reads 1 e t → Reads 1 (.negative :: e) (.negation t)
  | conversion {e : Expression α} {t : Term α} :
    Reads 1 e t → Reads 1 (.toInt :: e) (.conversion t)
  | binary {w : Token α} {op : BinaryOperator} {n : Nat} {l r : Expression α} {t u : Term α} :
    w.operator? = some op → op.level = n + 1 → Reads (n + 1) l t → Reads n r u →
      Reads (n + 1) (l ++ w :: r) (.binary op t u)
  | choice {c y n : Expression α} {t u v : Term α} :
    Reads 7 c t → Reads 8 y u → Reads 8 n v →
      Reads 8 (Expression.choice c y n) (.choice t u v)
  | looser {n : Nat} {e : Expression α} {t : Term α} : Reads n e t → Reads (n + 1) e t

/-- Arguments, of which there is at least one, are read one by one. -/
inductive ReadAll : List (Expression α) → List (Term α) → Prop
  | one {e : Expression α} {t : Term α} : Reads 8 e t → ReadAll [e] [t]
  | more {e : Expression α} {t : Term α} {es : List (Expression α)} {ts : List (Term α)} :
    Reads 8 e t → ReadAll es ts → ReadAll (e :: es) (t :: ts)

end

/-- An expression of some level is one of every higher level. -/
theorem Reads.of_le {m n : Nat} (hmn : m ≤ n) {e : Expression α} {t : Term α}
    (h : Reads m e t) : Reads n e t := by
  induction hmn with
  | refl => exact h
  | step _ ih => exact .looser ih

end FuzzyInference.CSource
