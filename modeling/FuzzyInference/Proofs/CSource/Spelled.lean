import FuzzyInference.Proofs.CSource.Parser

/-!
# Words as they are spelled

The words that the text of a word of an expression is cut into. A negative number is spelled as a
sign and a constant, and a conversion as a type in parentheses; else every word of the expression is
one of its text.
-/

namespace FuzzyInference.CSource

variable {α : Type} {sp : Spelling α}

/-! ### Numbers -/

namespace Spelling

/-- A number is written with a sign in front. -/
def signed (sp : Spelling α) (x : α) : Bool := (sp.write x).toList.head? == some '-'

/-- The text of a number without a sign. -/
def magnitude (sp : Spelling α) (x : α) : List Char :=
  if sp.signed x then (sp.write x).toList.tail else (sp.write x).toList

/-- The number that the text of a number without its sign stands for. -/
def size (sp : Spelling α) (x : α) : α := (sp.read (sp.magnitude x)).getD x

/-- A number is written as a constant, perhaps behind a sign, that stands for it. -/
structure ReadsBack [Neg α] (sp : Spelling α) (x : α) : Prop where
  /-- Behind the sign stands a constant. -/
  constant : IsFloatingConstant (sp.magnitude x)
  /-- The constant is read. -/
  read : sp.read (sp.magnitude x) = some (sp.size x)
  /-- What it is read as is the number, or its opposite behind a sign. -/
  value : (if sp.signed x then -sp.size x else sp.size x) = x

/-- The text of a number is that without a sign behind the sign, if there is one. -/
theorem toList_write (sp : Spelling α) (x : α) :
    (sp.write x).toList = (if sp.signed x then ['-'] else []) ++ sp.magnitude x := by
  unfold magnitude
  cases hs : sp.signed x with
  | false => rfl
  | true =>
    rw [signed, beq_iff_eq] at hs
    cases hcs : (sp.write x).toList with
    | nil => rw [hcs] at hs; cases hs
    | cons c cs =>
      rw [hcs] at hs
      cases hs
      rfl

end Spelling

/-- A word of an expression as the words of expressions that its text consists of. -/
def Token.spelled (sp : Spelling α) : Token α → Expression α
  | .number x => (if sp.signed x then [.negative] else []) ++ [.number (sp.size x)]
  | w => [w]

/-- An expression as its text spells it. -/
def Expression.spelled (sp : Spelling α) (e : Expression α) : Expression α :=
  e.flatMap (Token.spelled sp)

/-- The words of the text of a word. -/
def Token.words (sp : Spelling α) : Token α → List (Word α)
  | .number x =>
    (if sp.signed x then [.token .minus] else []) ++ [.token (.number (sp.size x))]
  | .negative => [.token .minus]
  | .toInt => [.token .opening, .keyword .int, .token .closing]
  | w => [.token w]

/-- The words of the text of an expression. -/
def Expression.words (sp : Spelling α) (e : Expression α) : List (Word α) :=
  e.flatMap (Token.words sp)

/-! ### The text of a word -/

/-- A text does not run into the word before it. -/
def Token.ApartFrom (w : Token α) (rest : List Char) : Prop :=
  match w with
  | .number _ | .whole _ | .name _ => Ends rest
  | .negative => StopsAt ['-'] rest
  | _ => True

/-- An operand begins with the first character, if there is one. -/
def BeginsOperand (rest : List Char) : Prop :=
  ∀ c ∈ rest.head?, isNameChar c = true ∨ c = '.' ∨ c = '('

section Marks

variable {read : List Char → Option α} {mark rest : List Char} {x : Word α}

private theorem words?_single (c : Char) {text : String} (htext : text.toList = [c])
    (hone : isOneWord [c] = true) (hstops : StopsAt [c] rest) (hx : word? read [c] = some x) :
    words? read (text.toList ++ rest) = (words? read rest).map (x :: ·) :=
  htext ▸ words?_append hone hstops hx

private theorem words?_mark (mark : List Char) {text : String} (htext : text.toList = mark ++ [' '])
    (hone : isOneWord mark = true) (hblank : goesOn mark ' ' = false)
    (hx : word? read mark = some x) (rest : List Char) :
    words? read (text.toList ++ rest) = (words? read rest).map (x :: ·) := by
  have hstops : StopsAt mark (' ' :: rest) := by
    rintro c ⟨⟩
    exact hblank
  rw [htext, List.append_assoc, List.singleton_append, words?_append hone hstops hx,
    words?_space rfl]

private theorem words?_between (mark : List Char) {text : String}
    (htext : text.toList = ' ' :: (mark ++ [' '])) (hone : isOneWord mark = true)
    (hblank : goesOn mark ' ' = false) (hx : word? read mark = some x) :
    words? read (text.toList ++ rest) = (words? read rest).map (x :: ·) := by
  have hmark := words?_mark mark (String.toList_ofList (l := mark ++ [' '])) hone hblank hx rest
  rw [String.toList_ofList] at hmark
  rw [htext, List.cons_append, words?_space rfl, hmark]

/-- A parenthesis is a word of its own. -/
theorem stopsAt_parenthesis {c : Char} (hc : c = '(' ∨ c = ')') (rest : List Char) :
    StopsAt [c] rest := by
  intro d _
  have hall : ∀ l ∈ longPunctuators, l.head? ≠ some '(' ∧ l.head? ≠ some ')' := by decide
  have hnot : [c, d] ∉ longPunctuators := by
    intro hm
    obtain ⟨hopen, hclose⟩ := hall _ hm
    rcases hc with rfl | rfl
    · exact hopen rfl
    · exact hclose rfl
  rcases hc with rfl | rfl <;> simpa [goesOn, startsName, startsNumber] using hnot

/-- A minus does not run into an operand. -/
theorem stopsAt_minus (h : BeginsOperand rest) : StopsAt ['-'] rest := by
  intro c hc
  have hall : ∀ l ∈ longPunctuators, ∀ d ∈ l.tail,
      isNameChar d = false ∧ d ≠ '.' ∧ d ≠ '(' := by
    simp [longPunctuators, isNameChar, startsName]
  have hnot : ['-', c] ∉ longPunctuators := by
    intro hm
    obtain ⟨hname, hpoint, hopening⟩ := hall _ hm c List.mem_cons_self
    rcases h c hc with h | h | h
    · rw [h] at hname
      cases hname
    · exact hpoint h
    · exact hopening h
  simpa [goesOn, startsName, startsNumber] using hnot

/-- A number without its sign begins an operand. -/
theorem Spelling.ReadsBack.beginsOperand [Neg α] {y : α} (h : sp.ReadsBack y) (rest : List Char) :
    BeginsOperand (sp.magnitude y ++ rest) := by
  obtain ⟨c, cs, hcs, hc⟩ := h.constant.exists_head
  rw [hcs]
  rintro d ⟨⟩
  rcases hc with hdigit | hpoint
  · exact .inl (by rw [isNameChar, hdigit, Bool.or_true])
  · exact .inr (.inl hpoint)

/-- The text of a word is cut into its words. -/
theorem words?_token [Neg α] {w : Token α} (hnumber : ∀ y, w = .number y → sp.ReadsBack y)
    (hname : ∀ s, w = .name s → isPlainName s = true) (hrest : w.ApartFrom rest) :
    words? sp.read ((w.text sp.write).toList ++ rest) =
      (words? sp.read rest).map (w.words sp ++ ·) := by
  cases w with
  | number y =>
    have hback := hnumber y rfl
    have hmagnitude := words?_constant hback.constant hback.read hrest
    rw [Token.text, sp.toList_write, Token.words]
    cases sp.signed y with
    | false => exact hmagnitude
    | true =>
      have hminus : word? sp.read ['-'] = some (.token .minus) := rfl
      show words? sp.read (['-'] ++ (sp.magnitude y ++ rest)) = _
      rw [words?_append (by decide) (stopsAt_minus (hback.beginsOperand rest)) hminus, hmagnitude,
        Option.map_map]
      rfl
  | whole n =>
    have htext : (toString n).toList = Decimal.digitChars n := String.toList_ofList
    rw [Token.text, htext]
    exact words?_whole n hrest
  | name s => exact words?_name (hname s rfl) fun c hc ↦ (hrest c hc).1
  | opening =>
    exact words?_single '(' String.toList_ofList (by decide)
      (stopsAt_parenthesis (.inl rfl) rest) rfl
  | closing =>
    exact words?_single ')' String.toList_ofList (by decide)
      (stopsAt_parenthesis (.inr rfl) rest) rfl
  | comma => exact words?_mark [','] String.toList_ofList (by decide) (by decide) rfl rest
  | plus => exact words?_between ['+'] String.toList_ofList (by decide) (by decide) rfl
  | minus => exact words?_between ['-'] String.toList_ofList (by decide) (by decide) rfl
  | negative => exact words?_single '-' String.toList_ofList (by decide) hrest rfl
  | times => exact words?_between ['*'] String.toList_ofList (by decide) (by decide) rfl
  | slash => exact words?_between ['/'] String.toList_ofList (by decide) (by decide) rfl
  | equal => exact words?_between ['=', '='] String.toList_ofList (by decide) (by decide) rfl
  | less => exact words?_between ['<'] String.toList_ofList (by decide) (by decide) rfl
  | lessEqual => exact words?_between ['<', '='] String.toList_ofList (by decide) (by decide) rfl
  | greater => exact words?_between ['>'] String.toList_ofList (by decide) (by decide) rfl
  | greaterEqual => exact words?_between ['>', '='] String.toList_ofList (by decide) (by decide) rfl
  | both => exact words?_between ['&', '&'] String.toList_ofList (by decide) (by decide) rfl
  | either => exact words?_between ['|', '|'] String.toList_ofList (by decide) (by decide) rfl
  | question => exact words?_between ['?'] String.toList_ofList (by decide) (by decide) rfl
  | colon => exact words?_between [':'] String.toList_ofList (by decide) (by decide) rfl
  | toInt =>
    have htext : (Token.toInt.text sp.write).toList =
        ['('] ++ (['i', 'n', 't'] ++ ([')'] ++ [' '])) :=
      String.toList_ofList
    have hstops : StopsAt ['i', 'n', 't'] ([')'] ++ ([' '] ++ rest)) := by
      rintro c ⟨⟩
      decide
    have hclosing : word? sp.read [')'] = some (.token .closing) := rfl
    have hint : word? sp.read ['i', 'n', 't'] = some (.keyword .int) := rfl
    have hopening : word? sp.read ['('] = some (.token .opening) := rfl
    rw [htext, List.append_assoc, List.append_assoc, List.append_assoc,
      words?_append (by decide) (stopsAt_parenthesis (.inl rfl) _) hopening,
      words?_append (by decide) hstops hint,
      words?_append (by decide) (stopsAt_parenthesis (.inr rfl) _) hclosing, List.singleton_append,
      words?_space rfl, Option.map_map, Option.map_map]
    rfl

end Marks

end FuzzyInference.CSource
