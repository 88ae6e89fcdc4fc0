import FuzzyInference.Json.Token

/-!
# Reading JSON

A text is read token by token. The reader keeps a stack of the arrays and objects that are open,
innermost first, so that nesting is the height of that stack; containers that are nested too deeply
are read like others, and stand for nothing.
-/

namespace FuzzyInference.Json

/-- A container that is open, with what it holds so far in reverse. -/
inductive Frame where
  /-- An array. -/
  | array (items : List Json)
  /-- An object, and the name of the field that is being read; a name may be unusable. -/
  | object (fields : List (Option String × Json)) (name : Option String)

/-- What the reader expects next, inside the frames that are open. -/
inductive Reader where
  /-- A value. -/
  | value (frames : List Frame)
  /-- The first item of an array, or its end. -/
  | firstItem (frames : List Frame)
  /-- The first field of an object, or its end. -/
  | firstField (frames : List Frame)
  /-- A further field of an object. -/
  | field (fields : List (Option String × Json)) (frames : List Frame)
  /-- The colon behind a name. -/
  | colon (fields : List (Option String × Json)) (name : Option String) (frames : List Frame)
  /-- The end of what holds a value that has been read, or a separator behind it. -/
  | after (value : Json) (frames : List Frame)

namespace Reader

/-- The depth to which containers may be nested. -/
def maxDepth : Nat := 127

/-- A container inside the given frames, unless it is nested too deeply. -/
def close (container : Json) (frames : List Frame) : Reader :=
  after (if frames.length < maxDepth then container else unusable) frames

/-- An object with the given fields in reverse, unless a name is unusable. -/
def objectOf (fields : List (Option String × Json)) : Json :=
  match fields.reverse.mapM fun (name?, v) => name?.map fun name => (name, v) with
  | some fields => .object fields
  | none => unusable

/-- The reader behind a token that begins a value. -/
def beginValue (frames : List Frame) : Token → Option Reader
  | .leftBracket => some (firstItem frames)
  | .leftBrace => some (firstField frames)
  | .plain v => some (after v frames)
  | .text (some s) => some (after (.string s) frames)
  | .text none => some (after unusable frames)
  | _ => none

/-- The reader behind one more token; there is none if the token is out of place. -/
def step : Reader → Token → Option Reader
  | value frames, token => beginValue frames token
  | firstItem frames, .rightBracket => some (close (.array []) frames)
  | firstItem frames, token => beginValue (.array [] :: frames) token
  | firstField frames, .rightBrace => some (close (.object []) frames)
  | firstField frames, .text name => some (colon [] name frames)
  | field fields frames, .text name => some (colon fields name frames)
  | colon fields name frames, .colon => some (value (.object fields name :: frames))
  | after v (.array items :: frames), .comma => some (value (.array (v :: items) :: frames))
  | after v (.array items :: frames), .rightBracket =>
    some (close (.array (v :: items).reverse) frames)
  | after v (.object fields name :: frames), .comma => some (field ((name, v) :: fields) frames)
  | after v (.object fields name :: frames), .rightBrace =>
    some (close (objectOf ((name, v) :: fields)) frames)
  | _, _ => none

/-- The reader behind a list of tokens. -/
def run (reader : Reader) : List Token → Option Reader
  | [] => some reader
  | token :: tokens => do (← reader.step token).run tokens

end Reader

/-- The value that a list of tokens is. -/
def ofTokens? (tokens : List Token) : Option Json :=
  match (Reader.value []).run tokens with
  | some (.after v []) => some v
  | _ => none

/-- The value that a text is, blanks around it aside. -/
def ofText? (text : String) : Option Json := (Token.ofText? text.toList).bind ofTokens?

end FuzzyInference.Json
