import FuzzyInference.Proofs.CSource.Lexer

/-!
# Reading units of C text

A unit is read word by word. Bodies that have begun are kept on a stack, with what they belong to
and the statements read so far; the words since the last statement make up the next one as soon as a
semicolon or a brace ends it. The statements and functions that are read are those that generated
units consist of, and any others are refused. The words of an expression are read as such where the
statement says so; how they are grouped is left to the grammar of expressions.
-/

namespace FuzzyInference.CSource

variable {α : Type}

/-! ### Expressions -/

/-- An operand ends with a word. -/
def Token.endsOperand : Token α → Bool
  | number _ | whole _ | name _ | closing => true
  | _ => false

/-- The words of an expression behind an operand, or where one is to follow: there a minus is a
sign, and the type of integers in parentheses is a conversion. -/
def expressionFrom? : Bool → List (Word α) → Option (Expression α)
  | _, [] => some []
  | _, .token .opening :: .keyword .int :: .token .closing :: ws =>
    (expressionFrom? false ws).map (.toInt :: ·)
  | false, .token .minus :: ws => (expressionFrom? false ws).map (.negative :: ·)
  | _, .token w :: ws => (expressionFrom? w.endsOperand ws).map (w :: ·)
  | _, _ => none

/-- The expression that words are. -/
def expression? (ws : List (Word α)) : Option (Expression α) := expressionFrom? false ws

/-- The expression that a text is. -/
def readExpression? (read : List Char → Option α) (text : String) : Option (Expression α) :=
  (words? read text.toList).bind expression?

/-! ### Parentheses -/

/-- The number of parentheses that are open behind a word. -/
def Word.nesting : Word α → Nat → Nat
  | .token .opening, depth => depth + 1
  | .token .closing, depth => depth - 1
  | _, depth => depth

/-- The words up to the parenthesis that closes the one before them, and those behind it. -/
def untilClosing? : Nat → List (Word α) → Option (List (Word α) × List (Word α))
  | _, [] => none
  | 0, .token .closing :: ws => some ([], ws)
  | depth, w :: ws =>
    (untilClosing? (w.nesting depth) ws).map fun (inside, after) => (w :: inside, after)

/-- The words between commas that are not in parentheses. -/
def parts : Nat → List (Word α) → List (List (Word α))
  | _, [] => [[]]
  | 0, .token .comma :: ws => [] :: parts 0 ws
  | depth, w :: ws => (parts (w.nesting depth) ws).modifyHead (w :: ·)

/-! ### Statements -/

/-- The declaration of one local number, behind its type. -/
def declarator? : List (Word α) → Option (String × Expression α)
  | .token (.name s) :: .assign :: ws => (expression? ws).map fun e => (s, e)
  | _ => none

/-- The statement that words before a semicolon are. -/
def simple? : List (Word α) → Option (Statement α)
  | .keyword .returning :: ws => (expression? ws).map .result
  | .keyword .provided :: .token .opening :: ws => do
    let (condition, rest) ← untilClosing? 0 ws
    match rest with
    | .keyword .returning :: value =>
      return .resultIf (← expression? condition) (← expression? value)
    | _ => none
  | [.keyword .int, .token (.name s)] => some (.index s)
  | .keyword .int :: .token (.name s) :: .assign :: ws => (expression? ws).map (.whole s)
  | .keyword .double :: ws => ((parts 0 ws).mapM declarator?).map .floating
  | .token (.name s) :: .add :: ws => (expression? ws).map (.increase s)
  | _ => none

/-! ### Bodies -/

/-- What a body belongs to. -/
inductive Header where
  /-- A function. -/
  | function (internal : Bool) (name : String) (parameters : List String)
  /-- A loop. -/
  | loop (index bound : String)

/-- The parameters of a function, up to the parenthesis behind them. -/
def parameters? : List (Word α) → Option (List String)
  | [.keyword .double, .token (.name s), .token .closing] => some [s]
  | .keyword .double :: .token (.name s) :: .token .comma :: ws => (parameters? ws).map (s :: ·)
  | _ => none

/-- What words before a body are. -/
def header? : List (Word α) → Option Header
  | .keyword .static :: .keyword .double :: .token (.name s) :: .token .opening :: ws =>
    (parameters? ws).map (.function true s)
  | .keyword .double :: .token (.name s) :: .token .opening :: ws =>
    (parameters? ws).map (.function false s)
  | [.keyword .looping, .token .opening, .token (.name i), .assign, .token (.whole 0), .semicolon,
      .token (.name j), .token .less, .token (.name n), .semicolon, .token (.name k), .increment,
      .token .closing] => if i = j ∧ i = k then some (.loop i n) else none
  | _ => none

/-- A body that has begun. -/
structure Frame (α : Type) where
  /-- What the body belongs to. -/
  header : Header
  /-- The statements so far. -/
  body : List (Statement α)

/-- The body with a further statement. -/
def Frame.push (f : Frame α) (s : Statement α) : Frame α := { f with body := f.body ++ [s] }

/-- The functions that words add to those that have been read, inside of bodies that have begun and
behind words that are not yet a statement. Semicolons do not end the head of a loop. -/
def functionsFrom? (read : List (Function α)) (stack : List (Frame α)) (pending : List (Word α)) :
    List (Word α) → Option (List (Function α))
  | [] => if stack.isEmpty && pending.isEmpty then some read else none
  | .semicolon :: ws =>
    match pending, stack with
    | .keyword .looping :: _, _ => functionsFrom? read stack (pending ++ [.semicolon]) ws
    | _, f :: stack => do functionsFrom? read (f.push (← simple? pending) :: stack) [] ws
    | _, [] => none
  | .openingBrace :: ws => do functionsFrom? read (⟨← header? pending, []⟩ :: stack) [] ws
  | .closingBrace :: ws =>
    match pending, stack with
    | [], [⟨.function internal name parameters, body⟩] =>
      functionsFrom? (read ++ [⟨internal, name, parameters, body⟩]) [] [] ws
    | [], ⟨.loop index bound, body⟩ :: f :: stack =>
      functionsFrom? read (f.push (.loop index bound body) :: stack) [] ws
    | _, _ => none
  | w :: ws => functionsFrom? read stack (pending ++ [w]) ws

/-- The functions that words are. -/
def functions? (ws : List (Word α)) : Option (List (Function α)) := functionsFrom? [] [] [] ws

/-- The functions of a unit, behind the line that makes those of the mathematical library known. -/
def readUnit? (read : List Char → Option α) (text : String) : Option (List (Function α)) :=
  match "#include <math.h>\n".toList.isPrefixOf? text.toList with
  | some cs => (words? read cs).bind functions?
  | none => none

end FuzzyInference.CSource
