import FuzzyInference.Fault.Basic
import FuzzyInference.Text.Blank
import FuzzyInference.Text.LetterCase

/-!
# Sections

The outer form of a `.fis` text: sections with a name in brackets, and in each section entries of a
key and a value with `=` or `:` between them. What stands behind a `%` is a comment; blank lines and
blanks around lines, names, keys and values do not matter, nor does the case of names and keys.
-/

namespace FuzzyInference.FisText

/-- An entry of a section. -/
structure Entry where
  /-- The key, in lower case. -/
  key : List Char
  /-- The value. -/
  value : List Char
  deriving Repr, DecidableEq

/-- A section of a text. -/
structure Section where
  /-- The name. -/
  name : List Char
  /-- The entries in order. -/
  entries : List Entry
  deriving Repr, DecidableEq

/-- What a line means. -/
inductive Line where
  /-- It is blank or a comment. -/
  | blank
  /-- It opens a section. -/
  | header (name : List Char)
  /-- It is an entry. -/
  | entry (e : Entry)
  /-- It has neither brackets around it nor a separator in it. -/
  | malformed
  deriving Repr, DecidableEq

/-- The lines of a text. -/
def splitLines : List Char → List (List Char)
  | [] => [[]]
  | c :: cs =>
    if c = '\n' then [] :: splitLines cs
    else
      match splitLines cs with
      | [] => [[c]]
      | line :: lines => (c :: line) :: lines

/-- A line without its comment and the blanks around it. -/
def content (line : List Char) : List Char := Text.trim (line.takeWhile (· ≠ '%'))

/-- The text between brackets that enclose a line, which must not be empty. -/
def bracketed? : List Char → Option (List Char)
  | '[' :: rest =>
    match rest.reverse with
    | ']' :: c :: body => some (c :: body).reverse
    | _ => none
  | _ => none

/-- A character that separates a key from its value. -/
def isSeparator (c : Char) : Bool := c = '=' || c = ':'

/-- The meaning of the content of a line. -/
def classify (line : List Char) : Line :=
  if line = [] then .blank
  else
    match bracketed? line with
    | some name => .header (Text.trim name)
    | none =>
      match Text.splitFirst isSeparator line with
      | some (key, _, value) => .entry ⟨Text.toLower (Text.trim key), Text.trim value⟩
      | none => .malformed

variable {α : Type}

/-- The sections of the given lines. The sections that are already open come in reverse, and their
entries too. -/
def sectionsFrom (opened : List Section) : List (List Char) → Checked α (List Section)
  | [] => .ok (opened.map fun s => { s with entries := s.entries.reverse }).reverse
  | raw :: rest =>
    let line := content raw
    match classify line, opened with
    | .blank, _ => sectionsFrom opened rest
    | .header name, _ => sectionsFrom (⟨name, []⟩ :: opened) rest
    | _, [] => .error (.fisText (.outsideSection (String.ofList line)))
    | .entry e, s :: before => sectionsFrom (⟨s.name, e :: s.entries⟩ :: before) rest
    | .malformed, s :: _ =>
      .error (.fisText (.malformedEntry (String.ofList s.name) (String.ofList line)))

/-- The sections of a text. -/
def sections (text : String) : Checked α (List Section) :=
  sectionsFrom [] (splitLines text.toList)

/-- The first section of a given name, in any case. -/
def find (sections : List Section) (name : String) : Checked α Section :=
  match sections.find? fun s => Text.eqIgnoringCase s.name name.toList with
  | some s => .ok s
  | none => .error (.fisText (.missingSection name))

/-- The first value under a key. -/
def Section.get? (s : Section) (key : String) : Option (List Char) :=
  (s.entries.find? fun e => e.key == key.toList).map (·.value)

/-- The first value under a key, which must be there. -/
def Section.get (s : Section) (key : String) : Checked α (List Char) :=
  match s.get? key with
  | some value => .ok value
  | none => .error (.fisText (.missingKey (String.ofList s.name) key))

end FuzzyInference.FisText
