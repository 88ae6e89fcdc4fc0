/-!
# Blanks

White space as the Unicode property has it, and the cutting of texts at it. Texts are lists of
characters throughout.
-/

namespace FuzzyInference.Text

/-- The code points of white space, as closed ranges, ascending and apart. -/
def blankRanges : List (Nat × Nat) :=
  [(0x09, 0x0D), (0x20, 0x20), (0x85, 0x85), (0xA0, 0xA0), (0x1680, 0x1680), (0x2000, 0x200A),
   (0x2028, 0x2029), (0x202F, 0x202F), (0x205F, 0x205F), (0x3000, 0x3000)]

/-- A white space character. -/
def isBlank (c : Char) : Bool := blankRanges.any fun r => r.1 ≤ c.toNat && c.toNat ≤ r.2

/-- A text without the characters at its end that satisfy `p`. -/
def dropEndWhile (p : Char → Bool) (cs : List Char) : List Char :=
  (cs.reverse.dropWhile p).reverse

/-- A text without the blanks at its start. -/
def trimStart (cs : List Char) : List Char := cs.dropWhile isBlank

/-- A text without the blanks at its end. -/
def trimEnd (cs : List Char) : List Char := dropEndWhile isBlank cs

/-- A text without the blanks around it. -/
def trim (cs : List Char) : List Char := trimEnd (trimStart cs)

/-- The pieces between blanks: the word that the text begins with, which may be empty, and the
words behind it. -/
def splitBlanks : List Char → List Char × List (List Char)
  | [] => ([], [])
  | c :: cs =>
    let (word, words) := splitBlanks cs
    if isBlank c then ([], word :: words) else (c :: word, words)

/-- The words of a text: its longest runs of characters that are not blank. -/
def words (cs : List Char) : List (List Char) :=
  let (word, rest) := splitBlanks cs
  (word :: rest).filter (· ≠ [])

/-- The part of a text before the first character that satisfies `p`, that character, and the part
behind it. -/
def splitFirst (p : Char → Bool) : List Char → Option (List Char × Char × List Char)
  | [] => none
  | c :: cs =>
    if p c then some ([], c, cs)
    else (splitFirst p cs).map fun (before, mark, after) => (c :: before, mark, after)

end FuzzyInference.Text
