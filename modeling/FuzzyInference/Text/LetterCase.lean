import FuzzyInference.Text.LetterCase.Tables

/-!
# Lower case

Texts in lower case, by the full Unicode rules: a letter may become two characters, and a capital
sigma that ends a word becomes the final form of the letter.
-/

namespace FuzzyInference.Text

/-- The counterpart of a code point in a run, when the run holds it. -/
def CaseRun.lower? (r : CaseRun) (n : Nat) : Option Nat :=
  if r.first ≤ n && n ≤ r.last && (n - r.first) % r.stride = 0 then some (r.lower + (n - r.first))
  else none

/-- A character in lower case, wherever it stands. -/
def lowerChar (c : Char) : List Char :=
  if c.toNat < 0x80 then [c.toLower]
  else if c = 'İ' then ['i', '\u0307']
  else [((lowerRuns.findSome? fun r => r.lower? c.toNat).map Char.ofNat).getD c]

/-- A code point lies in one of the ranges. -/
def inRanges (ranges : List (Nat × Nat)) (c : Char) : Bool :=
  ranges.any fun r => r.1 ≤ c.toNat && c.toNat ≤ r.2

/-- The first character that is not passed over is a cased letter. -/
def meetsCased (cs : List Char) : Bool :=
  match cs.dropWhile (inRanges caseIgnorableRanges) with
  | [] => false
  | c :: _ => inRanges casedRanges c

/-- A text in lower case; `before` holds the characters in front of it, nearest first. -/
def lowerAfter (before : List Char) : List Char → List Char
  | [] => []
  | c :: cs =>
    let lower :=
      if c = 'Σ' then [if meetsCased before && !meetsCased cs then 'ς' else 'σ'] else lowerChar c
    lower ++ lowerAfter (c :: before) cs

/-- A text in lower case. -/
def toLower (cs : List Char) : List Char := lowerAfter [] cs

/-- Two texts are equal once the case of ASCII letters is ignored. -/
def eqIgnoringCase (a b : List Char) : Bool := a.map Char.toLower == b.map Char.toLower

end FuzzyInference.Text
