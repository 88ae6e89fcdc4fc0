/-!
# C expressions

The words of C expressions. An expression is a list of words, put together by writing words beside
each other; how it is grouped is left to the precedence of the operators in it, except where
parentheses are written. How numbers are written is a parameter of the text.
-/

namespace FuzzyInference.CSource

/-- A word of a C expression. -/
inductive Token (α : Type) where
  /-- A floating literal. -/
  | number (x : α)
  /-- An integer literal. -/
  | whole (n : Nat)
  /-- The name of a variable or of a function. -/
  | name (s : String)
  /-- An opening parenthesis, of a group or of arguments. -/
  | opening
  /-- A closing parenthesis. -/
  | closing
  /-- The separator between arguments. -/
  | comma
  /-- Addition. -/
  | plus
  /-- Subtraction. -/
  | minus
  /-- The sign in front of an operand. -/
  | negative
  /-- Multiplication. -/
  | times
  /-- Division. -/
  | slash
  /-- Equality. -/
  | equal
  /-- Strict comparison. -/
  | less
  /-- Comparison. -/
  | lessEqual
  /-- Strict comparison the other way round. -/
  | greater
  /-- Comparison the other way round. -/
  | greaterEqual
  /-- Conjunction of conditions. -/
  | both
  /-- Disjunction of conditions. -/
  | either
  /-- The mark behind the condition of a choice. -/
  | question
  /-- The mark between the alternatives of a choice. -/
  | colon
  /-- Conversion to an integer. -/
  | toInt
  deriving Repr, BEq

/-- A C expression, as the words that it is written with. -/
abbrev Expression (α : Type) := List (Token α)

/-- The text of a word. Binary operators have blanks around them, and commas one behind them. -/
def Token.text {α : Type} (write : α → String) : Token α → String
  | number x => write x
  | whole n => toString n
  | name s => s
  | opening => "("
  | closing => ")"
  | comma => ", "
  | plus => " + "
  | minus => " - "
  | negative => "-"
  | times => " * "
  | slash => " / "
  | equal => " == "
  | less => " < "
  | lessEqual => " <= "
  | greater => " > "
  | greaterEqual => " >= "
  | both => " && "
  | either => " || "
  | question => " ? "
  | colon => " : "
  | toInt => "(int) "

/-- The text of an expression. -/
def render {α : Type} (write : α → String) (e : Expression α) : String :=
  String.join (e.map (Token.text write))

namespace Expression

variable {α : Type}

/-- Expressions with a word between them. -/
def joined (separator : Token α) : List (Expression α) → Expression α
  | [] => []
  | [e] => e
  | e :: es => e ++ separator :: joined separator es

/-- An expression in parentheses. -/
def grouped (e : Expression α) : Expression α := .opening :: e ++ [.closing]

/-- A function applied to arguments. -/
def call (function : String) (arguments : List (Expression α)) : Expression α :=
  .name function :: grouped (joined .comma arguments)

/-- A function of two arguments, applied to a list from the left: `f(f(a, b), c)`. A single operand
stands for itself. -/
def nested (function : String) : List (Expression α) → Expression α
  | [] => []
  | e :: es => es.foldl (fun acc operand => call function [acc, operand]) e

/-- One alternative or another, by a condition. -/
def choice (condition yes no : Expression α) : Expression α :=
  condition ++ .question :: yes ++ .colon :: no

end Expression

end FuzzyInference.CSource
