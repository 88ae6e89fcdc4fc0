import FuzzyInference.Decimal.Numeral
import FuzzyInference.Json.Basic
import FuzzyInference.Json.Quoted

/-!
# Tokens

The words of a JSON text: brackets and separators, literals, numbers and quoted texts. The text is
cut into tokens in one pass, whatever their order; blanks may stand between them. A bare word ends
at the first character that cannot belong to it, and must then be a literal or a number as a whole.
-/

namespace FuzzyInference.Json

/-- A word of a JSON text. -/
inductive Token where
  /-- The start of an object. -/
  | leftBrace
  /-- The end of an object. -/
  | rightBrace
  /-- The start of an array. -/
  | leftBracket
  /-- The end of an array. -/
  | rightBracket
  /-- The separator between items or fields. -/
  | comma
  /-- The separator between a name and its value. -/
  | colon
  /-- A literal or a number. -/
  | plain (value : Json)
  /-- A text, unless a surrogate in it is unpaired. -/
  | text (s? : Option String)

namespace Token

/-- A digit from one on. -/
def isPositiveDigit (c : Char) : Bool := c.isDigit && c ≠ '0'

/-- The whole of a number without its sign: a zero alone, or digits that do not begin with one. -/
def dropWhole? : List Char → Option (List Char)
  | '0' :: rest => some rest
  | c :: rest => if isPositiveDigit c then some (rest.dropWhile Char.isDigit) else none
  | [] => none

/-- What is left behind one digit and all digits that follow it. -/
def dropDigits? : List Char → Option (List Char)
  | c :: rest => if c.isDigit then some (rest.dropWhile Char.isDigit) else none
  | [] => none

/-- What is left behind a decimal fraction, if there is one. -/
def dropFraction? : List Char → Option (List Char)
  | '.' :: rest => dropDigits? rest
  | cs => some cs

/-- What is left behind an exponent, if there is one. -/
def dropExponent? : List Char → Option (List Char)
  | c :: rest =>
    if c = 'e' || c = 'E' then
      dropDigits? (match rest with
        | '+' :: digits => digits
        | '-' :: digits => digits
        | digits => digits)
    else some (c :: rest)
  | [] => some []

/-- A bare word is a number of the format. -/
def isNumber (word : List Char) : Bool :=
  let unsigned := match word with
    | '-' :: rest => rest
    | rest => rest
  ((dropWhole? unsigned).bind dropFraction?).bind dropExponent? == some []

/-- The value of a number: a whole number if it has neither point nor exponent and fits into 64
bits, else the nearest machine number. A negative zero is no whole number. -/
def numberValue (word : List Char) : Json :=
  match Numeral.ofText? word with
  | some (.decimal negative d) =>
    let n := d.digits
    if word.all (fun c => c.isDigit || c = '-') &&
        (if negative then 0 < n && n ≤ Nat.pow 2 63 else n < Nat.pow 2 64) then
      integer (if negative then -(n : Int) else n)
    else
      let x : Float := (Numeral.decimal negative d).value
      if x.isFinite then real x else unusable
  | _ => unusable

/-- The token that a bare word is. -/
def ofWord? (word : List Char) : Option Token :=
  match String.ofList word with
  | "null" => some (plain null)
  | "true" => some (plain (bool true))
  | "false" => some (plain (bool false))
  | _ => if isNumber word then some (plain (numberValue word)) else none

/-- The token that stands between quotation marks. -/
def ofQuoted? (body : List Char) : Option Token :=
  (units? body).map fun units => text ((pairUnits? units).map String.ofList)

/-- The token that a single character is. -/
def ofMark? : Char → Option Token
  | '\x7b' => some leftBrace
  | '\x7d' => some rightBrace
  | '[' => some leftBracket
  | ']' => some rightBracket
  | ',' => some comma
  | ':' => some colon
  | _ => none

/-- Blanks that may stand between tokens. -/
def isSpace (c : Char) : Bool := c = ' ' || c = '\t' || c = '\n' || c = '\r'

/-- Where the reader stands in a text. What it has read of a token is held in reverse. -/
inductive Position where
  /-- Between tokens. -/
  | between
  /-- In a bare word. -/
  | word (read : List Char)
  /-- Between quotation marks. -/
  | quoted (read : List Char)
  /-- Between quotation marks and behind a backslash. -/
  | escaped (read : List Char)

/-- The position behind a character that stands between tokens, and the token that it is. -/
def afterSeparator (c : Char) : Position × List Token :=
  if c = '"' then (.quoted [], [])
  else if isSpace c then (.between, [])
  else match ofMark? c with
    | some token => (.between, [token])
    | none => (.word [c], [])

/-- A character ends the bare word in front of it. -/
def endsWord (c : Char) : Bool := c = '"' || isSpace c || (ofMark? c).isSome

/-- The tokens from a position on. -/
def read? : Position → List Char → Option (List Token)
  | .between, [] => some []
  | .word read, [] => (ofWord? read.reverse).map fun token => [token]
  | .quoted _, [] => none
  | .escaped _, [] => none
  | .between, c :: cs =>
    let (position, tokens) := afterSeparator c
    (read? position cs).map (tokens ++ ·)
  | .word read, c :: cs =>
    if endsWord c then do
      let token ← ofWord? read.reverse
      let (position, tokens) := afterSeparator c
      return token :: (tokens ++ (← read? position cs))
    else read? (.word (c :: read)) cs
  | .quoted read, c :: cs =>
    if c = '"' then do
      let token ← ofQuoted? read.reverse
      return token :: (← read? .between cs)
    else if c = '\\' then read? (.escaped (c :: read)) cs
    else read? (.quoted (c :: read)) cs
  | .escaped read, c :: cs => read? (.quoted (c :: read)) cs

/-- The tokens of a text. -/
def ofText? (text : List Char) : Option (List Token) := read? .between text

end Token

end FuzzyInference.Json
