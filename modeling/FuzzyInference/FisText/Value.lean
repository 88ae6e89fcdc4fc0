import FuzzyInference.FuzzySet.Basic
import FuzzyInference.FisText.Section

/-!
# Values

The values of `.fis` entries: quoted words, numbers, lists of numbers in brackets, and membership
functions, which are a label, a kind and a list of parameters.
-/

namespace FuzzyInference.FisText

/-- A text without the blanks around it and the quotes around what is left. -/
def unquote (cs : List Char) : List Char :=
  Text.dropEndWhile (· = '\x27') ((Text.trim cs).dropWhile (· = '\x27'))

variable {α : Type}

/-- A number that the given reader accepts, quotes and blanks aside. -/
def readNumber {β : Type} (read? : List Char → Option β) (cs : List Char) : Checked α β :=
  match read? (unquote cs) with
  | some n => .ok n
  | none => .error (.fisText (.notANumber (String.ofList cs)))

/-- A count. -/
def readCount (cs : List Char) : Checked α Nat :=
  readNumber (Numeral.natUpTo? (Nat.pow 2 64 - 1)) cs

/-- A signed index. -/
def readIndex (cs : List Char) : Checked α Int := readNumber Numeral.int64? cs

variable [Scalar α]

/-- A scalar. -/
def readScalar (cs : List Char) : Checked α α := readNumber Scalar.ofText? cs

/-- A list of scalars with blanks between them; brackets around it may be missing. -/
def readScalars (cs : List Char) : Checked α (List α) :=
  (Text.words (Text.dropEndWhile (· = ']') ((Text.trim cs).dropWhile (· = '[')))).mapM readScalar

/-- The number of parameters that a kind of membership function takes. -/
def arity? : String → Option Nat
  | "trimf" => some 3
  | "trapmf" => some 4
  | "gaussmf" => some 2
  | "gauss2mf" => some 4
  | "gbellmf" => some 3
  | "sigmf" => some 2
  | "psigmf" => some 4
  | "dsigmf" => some 4
  | "smf" => some 2
  | "zmf" => some 2
  | "pimf" => some 4
  | _ => none

/-- The shape that a kind of membership function makes of its parameters. -/
def shapeOf (kind : String) (parameters : List α) : Checked α (Shape α) :=
  match kind, parameters with
  | "trimf", [a, b, c] => .ok (.triangular a b c)
  | "trapmf", [a, b, c, d] => .ok (.trapezoidal a b c d)
  | "gaussmf", [width, center] => .ok (.gaussian width center)
  | "gauss2mf", [width₁, center₁, width₂, center₂] =>
    .ok (.twoSidedGaussian width₁ center₁ width₂ center₂)
  | "gbellmf", [a, b, c] => .ok (.bell a b c)
  | "sigmf", [slope, center] => .ok (.sigmoid slope center)
  | "psigmf", [slope₁, center₁, slope₂, center₂] =>
    .ok (.sigmoidProduct slope₁ center₁ slope₂ center₂)
  | "dsigmf", [slope₁, center₁, slope₂, center₂] =>
    .ok (.sigmoidDifference slope₁ center₁ slope₂ center₂)
  | "smf", [a, b] => .ok (.sShaped a b)
  | "zmf", [a, b] => .ok (.zShaped a b)
  | "pimf", [a, b, c, d] => .ok (.piShaped a b c d)
  | _, _ =>
    match arity? kind with
    | some n => .error (.fisText (.arity kind n parameters.length))
    | none => .error (.fisText (.unknownMembership kind))

/-- A text cut at the last quote behind which `accept` finds what it looks for: the part in front of
the quote, and what was found. -/
def cutAtLastQuote {β : Type} (accept : List Char → Option β) :
    List Char → Option (List Char × β)
  | [] => none
  | c :: cs =>
    match cutAtLastQuote accept cs with
    | some (before, found) => some (c :: before, found)
    | none => if c = '\x27' then (accept cs).map fun found => ([], found) else none

/-- What follows a mark that may have blanks in front of it. -/
def afterMark (mark : Char) (cs : List Char) : Option (List Char) :=
  match Text.trimStart cs with
  | c :: rest => if c = mark then some rest else none
  | [] => none

/-- The text between an opening bracket and a closing one that ends the text, behind a comma. -/
def parameterList? (cs : List Char) : Option (List Char) := do
  let rest ← afterMark '[' (← afterMark ',' cs)
  match rest.reverse with
  | ']' :: body => some body.reverse
  | _ => none

/-- The kind and the parameters of a membership function, behind the label. -/
def kindAndParameters? (cs : List Char) : Option (List Char × List Char) := do
  cutAtLastQuote parameterList? (← afterMark '\x27' (← afterMark ':' cs))

/-- The label, the kind and the parameters of a text `'label':'kind',[parameters]`. Label and kind
reach as far as they can. -/
def membershipParts? : List Char → Option (List Char × List Char × List Char)
  | '\x27' :: rest => cutAtLastQuote kindAndParameters? rest
  | _ => none

/-- The label and the set of a membership function. -/
def readMembership (text : List Char) : Checked α (String × FuzzySet α) :=
  match membershipParts? text with
  | none => .error (.fisText (.malformedMembership (String.ofList text)))
  | some (label, kind, list) => do
    let parameters ← readScalars list
    let shape ← shapeOf (String.ofList kind) parameters
    return (String.ofList label, ← (FuzzySet.shape shape).checked)

end FuzzyInference.FisText
