import FuzzyInference.CSource.Unit
import FuzzyInference.Proofs.CSource.Literal
import FuzzyInference.Proofs.Decimal.Numeral

/-!
# The words of C text

Text is cut into words by the rule of the longest match: a word goes on with every character that it
can go on with, and blanks stand between words or where one ends anyway. What a name, a constant or
a punctuator is follows the lexical grammar of the language; of its keywords, those are told from
names that generated text contains.
-/

namespace FuzzyInference.CSource

/-- How numbers are written, and how the constants in a text are read. -/
structure Spelling (α : Type) where
  /-- The text of a number. -/
  write : α → String
  /-- The number that a floating constant stands for. -/
  read : List Char → Option α

/-- The keywords that generated text contains. -/
inductive Keyword where
  /-- The type of integers. -/
  | int
  /-- The type of floating numbers. -/
  | double
  /-- The mark of functions that are not seen outside. -/
  | static
  /-- The word that a function returns by. -/
  | returning
  /-- The word before a condition. -/
  | provided
  /-- The word that a loop begins with. -/
  | looping
  deriving DecidableEq

/-- A word of a text. -/
inductive Word (α : Type) where
  /-- A word of expressions; a minus sign is always that of a subtraction. -/
  | token (t : Token α)
  /-- A keyword. -/
  | keyword (k : Keyword)
  /-- The sign between a name and its value. -/
  | assign
  /-- The sign between a name and what it is increased by. -/
  | add
  /-- The sign behind a name that is increased by one. -/
  | increment
  /-- The end of a statement. -/
  | semicolon
  /-- The begin of a body. -/
  | openingBrace
  /-- The end of a body. -/
  | closingBrace

variable {α : Type}

/-! ### Words as characters -/

/-- A character between words. -/
def isSpace (c : Char) : Bool := [' ', '\n', '\t'].contains c

/-- A character that a name may go on with. -/
def isNameChar (c : Char) : Bool := startsName c || c.isDigit

/-- The punctuators that begin with a shorter one, and the marks of comments. -/
def longPunctuators : List (List Char) :=
  ["->", "++", "--", "<<", ">>", "<=", ">=", "==", "!=", "&&", "||", "*=", "/=", "%=", "+=", "-=",
    "&=", "^=", "|=", "##", "<:", ":>", "<%", "%>", "%:", "//", "/*"].map String.toList

/-- Characters that a number begins with: a digit, or a point before a digit. -/
def startsNumber : List Char → Bool
  | [] => false
  | c :: cs => c.isDigit || (c = '.' && cs.head?.any Char.isDigit)

/-- A word goes on with a character: a name with those of names, a number with these and points and
with signs behind the mark of an exponent, and a punctuator if that makes a longer one. -/
def goesOn (word : List Char) (c : Char) : Bool :=
  match word with
  | [] => false
  | first :: _ =>
    if startsName first then isNameChar c
    else if startsNumber word then
      isNameChar c || c = '.' || ((c = '+' || c = '-') &&
        word.getLast?.any (['e', 'E', 'p', 'P'].contains ·))
    else if word = ['.'] then c.isDigit
    else longPunctuators.contains (word ++ [c])

/-- The words of a text, of which one has begun. -/
def cutFrom (word : List Char) : List Char → List (List Char)
  | [] => if word = [] then [] else [word]
  | c :: cs =>
    if goesOn word c then cutFrom (word ++ [c]) cs
    else (if word = [] then [] else [word]) ++ if isSpace c then cutFrom [] cs else cutFrom [c] cs

/-- The words of a text as characters. -/
def cut (cs : List Char) : List (List Char) := cutFrom [] cs

/-! ### Words with their meaning -/

/-- The keywords as they are written. -/
def keywordTable : List (List Char × Keyword) :=
  [("int".toList, .int), ("double".toList, .double), ("static".toList, .static),
    ("return".toList, .returning), ("if".toList, .provided), ("for".toList, .looping)]

/-- The punctuators that generated text contains, as they are written. -/
def punctuatorTable : List (List Char × Word α) :=
  [(['('], .token .opening), ([')'], .token .closing), ([','], .token .comma),
    (['+'], .token .plus), (['-'], .token .minus), (['*'], .token .times), (['/'], .token .slash),
    (['=', '='], .token .equal), (['<'], .token .less), (['<', '='], .token .lessEqual),
    (['>'], .token .greater), (['>', '='], .token .greaterEqual), (['&', '&'], .token .both),
    (['|', '|'], .token .either), (['?'], .token .question), ([':'], .token .colon),
    (['='], .assign), (['+', '='], .add), (['+', '+'], .increment), ([';'], .semicolon),
    (['\x7b'], .openingBrace), (['\x7d'], .closingBrace)]

/-- The constant that characters are: digits that do not begin with a superfluous zero are an
integer, and others a floating number if they can be read as one. -/
def constant? (read : List Char → Option α) (cs : List Char) : Option (Word α) :=
  if cs.all Char.isDigit then
    if cs = ['0'] || cs.head? ≠ some '0' then some (.token (.whole (Numeral.ofDigits cs))) else none
  else (read cs).map fun x => .token (.number x)

/-- The word that characters are. -/
def word? (read : List Char → Option α) (cs : List Char) : Option (Word α) :=
  if cs.head?.any startsName then
    match keywordTable.find? (·.1 == cs) with
    | some (_, k) => some (.keyword k)
    | none => some (.token (.name (String.ofList cs)))
  else if startsNumber cs then constant? read cs
  else (punctuatorTable.find? (·.1 == cs)).map Prod.snd

/-- The words of a text, if all of them are known. -/
def words? (read : List Char → Option α) (cs : List Char) : Option (List (Word α)) :=
  (cut cs).mapM (word? read)

/-! ### The longest match -/

/-- A word goes on with several characters, one after the other. -/
def goesOnWith (word : List Char) : List Char → Bool
  | [] => true
  | c :: cs => goesOn word c && goesOnWith (word ++ [c]) cs

/-- Characters make up one word. -/
def isOneWord : List Char → Bool
  | [] => false
  | c :: cs => !isSpace c && goesOnWith [c] cs

/-- A word does not go on with the text behind it. -/
def StopsAt (word rest : List Char) : Prop := ∀ c ∈ rest.head?, goesOn word c = false

variable {read : List Char → Option α} {w rest : List Char}

/-- Blanks are skipped between words. -/
theorem cut_space {c : Char} (hc : isSpace c = true) (cs : List Char) : cut (c :: cs) = cut cs := by
  rw [cut, cutFrom, goesOn, if_neg Bool.false_ne_true, if_pos hc]
  rfl

private theorem cutFrom_of_stopsAt (hw : w ≠ []) (hs : StopsAt w rest) :
    cutFrom w rest = w :: cut rest := by
  cases rest with
  | nil => rw [cutFrom, if_neg hw]; rfl
  | cons c rest =>
    have hc : goesOn w c = false := hs c rfl
    rw [cut, cutFrom, cutFrom, hc, goesOn, if_neg Bool.false_ne_true, if_neg Bool.false_ne_true,
      if_neg hw, if_pos rfl]
    rfl

private theorem cutFrom_append {cs : List Char} (hw : w ≠ []) (hcs : goesOnWith w cs = true)
    (hs : StopsAt (w ++ cs) rest) : cutFrom w (cs ++ rest) = (w ++ cs) :: cut rest := by
  induction cs generalizing w with
  | nil =>
    rw [List.append_nil] at hs ⊢
    exact cutFrom_of_stopsAt hw hs
  | cons c cs ih =>
    rw [goesOnWith, Bool.and_eq_true] at hcs
    have happend : w ++ c :: cs = w ++ [c] ++ cs := List.append_cons ..
    rw [List.cons_append, cutFrom, if_pos hcs.1, happend]
    exact ih (by simp) hcs.2 (happend ▸ hs)

/-- A word is cut off the front of a text that it does not go on with. -/
theorem cut_append (hw : isOneWord w = true) (hs : StopsAt w rest) :
    cut (w ++ rest) = w :: cut rest := by
  cases w with
  | nil => cases hw
  | cons c cs =>
    rw [isOneWord, Bool.and_eq_true, Bool.not_eq_true'] at hw
    rw [List.cons_append, cut, cutFrom, goesOn, if_neg Bool.false_ne_true, hw.1,
      if_neg Bool.false_ne_true, if_pos rfl, List.nil_append]
    exact cutFrom_append (List.cons_ne_nil _ _) hw.2 hs

/-- Blanks are skipped. -/
theorem words?_space {c : Char} (hc : isSpace c = true) (cs : List Char) :
    words? read (c :: cs) = words? read cs := by
  rw [words?, cut_space hc, words?]

private theorem goesOn_space {c : Char} (hc : isSpace c = true) (w : List Char) :
    goesOn w c = false := by
  rw [isSpace, List.contains_eq_mem, decide_eq_true_eq] at hc
  have hname : ∀ c ∈ [' ', '\n', '\t'], isNameChar c = false ∧ c.isDigit = false ∧ c ≠ '.' ∧
      c ≠ '+' ∧ c ≠ '-' := by simp [isNameChar, startsName]
  have hlong : ∀ c ∈ [' ', '\n', '\t'], ∀ l ∈ longPunctuators, l.getLast? ≠ some c := by
    simp [longPunctuators]
  obtain ⟨hname, hdigit, hpoint, hplus, hminus⟩ := hname c hc
  have hnot : longPunctuators.contains (w ++ [c]) = false := by
    rw [List.contains_eq_mem, decide_eq_false_iff_not]
    exact fun hm ↦ hlong c hc _ hm (by simp)
  cases w with
  | nil => rfl
  | cons d ds => rw [goesOn, hname, hdigit, hnot]; simp [hpoint, hplus, hminus]

private theorem cutFrom_space {c : Char} (hc : isSpace c = true) (w cs rest : List Char) :
    cutFrom w (cs ++ c :: rest) = cutFrom w cs ++ cut rest := by
  induction cs generalizing w with
  | nil =>
    simp [cutFrom, goesOn_space hc, hc, cut]
  | cons d cs ih =>
    rw [List.cons_append, cutFrom, cutFrom, ih, ih, ih]
    cases goesOn w d <;> cases isSpace d <;> simp

/-- The words of a text in front of a blank stand before those of the text behind it. -/
theorem words?_append_space {c : Char} {cs : List Char} {ws : List (Word α)}
    (hc : isSpace c = true) (hcs : words? read cs = some ws) :
    words? read (cs ++ c :: rest) = (words? read rest).map (ws ++ ·) := by
  rw [words?] at hcs
  rw [words?, cut, cutFrom_space hc, List.mapM_append, ← cut, hcs, words?]
  cases (cut rest).mapM (word? read) <;> rfl

/-- A text of blanks has no words. -/
theorem words?_nil : words? read [] = some [] := rfl

/-- A word at the front of a text that it does not go on with is the first one. -/
theorem words?_append {x : Word α} (hw : isOneWord w = true) (hs : StopsAt w rest)
    (hx : word? read w = some x) : words? read (w ++ rest) = (words? read rest).map (x :: ·) := by
  rw [words?, cut_append hw hs, List.mapM_cons, hx, words?]
  cases (cut rest).mapM (word? read) <;> rfl

/-! ### Names -/

/-- A name that is formed like an identifier and is none of the keywords. -/
def isPlainName (name : String) : Bool :=
  isIdentifier name.toList && keywordTable.all (·.1 != name.toList)

/-- No character that words are put together with follows. -/
def Ends (rest : List Char) : Prop :=
  ∀ c ∈ rest.head?, isNameChar c = false ∧ c ≠ '.' ∧ c ≠ '+' ∧ c ≠ '-'

private theorem isSpace_of_startsName {c : Char} (hc : startsName c = true) :
    isSpace c = false := by
  have hall : ∀ d ∈ [' ', '\n', '\t'], startsName d = false := by simp [startsName]
  rw [isSpace, List.contains_eq_mem, decide_eq_false_iff_not]
  intro hm
  rw [hall c hm] at hc
  cases hc

private theorem goesOnWith_name {first : Char} (hfirst : startsName first = true)
    {before cs : List Char} (hcs : ∀ c ∈ cs, isNameChar c = true) :
    goesOnWith (first :: before) cs = true := by
  induction cs generalizing before with
  | nil => rfl
  | cons c cs ih =>
    rw [List.forall_mem_cons] at hcs
    rw [goesOnWith, goesOn, if_pos hfirst, hcs.1, Bool.true_and, List.cons_append]
    exact ih hcs.2

/-- A plain name is read off the text that it stands in front of. -/
theorem words?_name {name : String} (hname : isPlainName name = true)
    (hrest : ∀ c ∈ rest.head?, isNameChar c = false) : words? read (name.toList ++ rest) =
      (words? read rest).map (.token (.name name) :: ·) := by
  rw [isPlainName, Bool.and_eq_true] at hname
  obtain ⟨hid, hkeyword⟩ := hname
  cases hcs : name.toList with
  | nil => rw [hcs] at hid; cases hid
  | cons c cs =>
    rw [hcs, isIdentifier, Bool.and_eq_true, List.all_eq_true] at hid
    have hone : isOneWord (c :: cs) = true := by
      rw [isOneWord, isSpace_of_startsName hid.1, goesOnWith_name hid.1 hid.2]
      rfl
    have hstops : StopsAt (c :: cs) rest := by
      intro d hd
      rw [goesOn, if_pos hid.1]
      exact hrest d hd
    have hnone : keywordTable.find? (·.1 == c :: cs) = none := by
      rw [List.find?_eq_none]
      intro entry hentry
      have hne := List.all_eq_true.mp hkeyword entry hentry
      rw [hcs, bne_iff_ne] at hne
      simpa using hne
    refine words?_append hone hstops ?_
    rw [word?, if_pos (by simpa using hid.1), hnone, ← hcs, String.ofList_toList]

/-! ### Constants -/

private theorem of_isDigit {c : Char} (hc : c.isDigit = true) :
    isSpace c = false ∧ startsName c = false := by
  have hall := Numeral.of_isNumeralChar
    (p := fun c ↦ !c.isDigit || (!isSpace c && !startsName c)) (by decide)
    (Numeral.isNumeralChar_of_isDigit hc)
  rw [hc] at hall
  simpa using hall

private theorem startsNumber_append (hw : startsNumber w = true) (cs : List Char) :
    startsNumber (w ++ cs) = true := by
  cases w with
  | nil => cases hw
  | cons c tail =>
    cases tail with
    | nil =>
      have hc : c.isDigit = true := by simpa [startsNumber] using hw
      rw [List.cons_append, startsNumber, hc, Bool.true_or]
    | cons d tail => exact hw

private theorem startsName_of_startsNumber {c : Char} {cs : List Char}
    (h : startsNumber (c :: cs) = true) : startsName c = false := by
  rw [startsNumber, Bool.or_eq_true, Bool.and_eq_true, decide_eq_true_eq] at h
  rcases h with hdigit | ⟨rfl, -⟩
  · exact (of_isDigit hdigit).2
  · rfl

private theorem goesOn_number {c : Char} (hw : startsNumber w = true)
    (hc : isNameChar c = true ∨ c = '.' ∨
      ((c = '+' ∨ c = '-') ∧ w.getLast?.any (['e', 'E', 'p', 'P'].contains ·) = true)) :
    goesOn w c = true := by
  cases w with
  | nil => cases hw
  | cons first tail =>
    rw [goesOn, startsName_of_startsNumber hw, if_neg Bool.false_ne_true, if_pos hw]
    simpa [or_assoc] using hc

private theorem goesOnWith_append (w cs ds : List Char) :
    goesOnWith w (cs ++ ds) = (goesOnWith w cs && goesOnWith (w ++ cs) ds) := by
  induction cs generalizing w with
  | nil => rw [List.nil_append, goesOnWith, Bool.true_and, List.append_nil]
  | cons c cs ih =>
    rw [List.cons_append, goesOnWith, goesOnWith, ih, Bool.and_assoc, List.append_assoc,
      List.singleton_append]

private theorem goesOnWith_number {cs : List Char} (hw : startsNumber w = true)
    (hcs : ∀ c ∈ cs, c.isDigit = true ∨ c = '.') : goesOnWith w cs = true := by
  induction cs generalizing w with
  | nil => rfl
  | cons c cs ih =>
    rw [List.forall_mem_cons] at hcs
    have hc : isNameChar c = true ∨ c = '.' := by
      rw [isNameChar]
      exact hcs.1.imp_left fun hd ↦ by rw [hd, Bool.or_true]
    rw [goesOnWith, goesOn_number hw (hc.imp_right .inl), Bool.true_and]
    exact ih (startsNumber_append hw [c]) hcs.2

private theorem isOneWord_digits {whole fraction : List Char}
    (hd : Decimal.IsDigits (whole ++ fraction)) :
    isOneWord (whole ++ '.' :: fraction) = true ∧ startsNumber (whole ++ '.' :: fraction) = true ∧
      (whole ≠ [] → isOneWord whole = true ∧ startsNumber whole = true) := by
  have hfraction : ∀ c ∈ '.' :: fraction, c.isDigit = true ∨ c = '.' := by
    rw [List.forall_mem_cons]
    exact ⟨.inr rfl, fun c hc ↦ .inl (hd.2 c (List.mem_append_right _ hc))⟩
  cases whole with
  | nil =>
    obtain ⟨d, ds, rfl⟩ := List.exists_cons_of_ne_nil hd.1
    have hdigit := hd.2 d List.mem_cons_self
    have hstart : startsNumber ['.', d] = true := by simpa [startsNumber] using hdigit
    have hpoint : goesOn ['.'] d = true := hdigit
    refine ⟨?_, startsNumber_append hstart ds, fun h ↦ absurd rfl h⟩
    rw [List.nil_append, isOneWord, goesOnWith, hpoint]
    exact goesOnWith_number hstart fun c hc ↦ hfraction c (by simp [hc])
  | cons c cs =>
    have hdigit := hd.2 c List.mem_cons_self
    have hstart : startsNumber [c] = true := by rw [startsNumber, hdigit, Bool.true_or]
    have hcs : ∀ d ∈ cs, d.isDigit = true ∨ d = '.' :=
      fun d hm ↦ .inl (hd.2 d (List.mem_cons_of_mem _ (List.mem_append_left _ hm)))
    refine ⟨?_, startsNumber_append hstart (cs ++ '.' :: fraction), fun _ ↦
      ⟨?_, startsNumber_append hstart cs⟩⟩
    · rw [List.cons_append, isOneWord, (of_isDigit hdigit).1]
      exact goesOnWith_number hstart (List.forall_mem_append.mpr ⟨hcs, hfraction⟩)
    · rw [isOneWord, (of_isDigit hdigit).1]
      exact goesOnWith_number hstart hcs

private theorem isOneWord_exponent {exponent : List Char} (hw : isOneWord w = true)
    (hstart : startsNumber w = true) (he : IsExponentPart exponent) :
    isOneWord (w ++ exponent) = true ∧ startsNumber (w ++ exponent) = true := by
  have hgoes : goesOnWith w exponent = true := by
    have hmark : goesOn w 'e' = true := goesOn_number hstart (.inl rfl)
    cases he with
    | unsigned hd =>
      rw [goesOnWith, hmark]
      exact goesOnWith_number (startsNumber_append hstart _) fun c hc ↦ .inl (hd.2 c hc)
    | @signed sign cs hs hd =>
      have hsign : goesOn (w ++ ['e']) sign = true :=
        goesOn_number (startsNumber_append hstart _) (.inr (.inr ⟨hs, by simp⟩))
      rw [goesOnWith, hmark, goesOnWith, hsign]
      exact goesOnWith_number (startsNumber_append (startsNumber_append hstart _) _)
        fun c hc ↦ .inl (hd.2 c hc)
  refine ⟨?_, startsNumber_append hstart exponent⟩
  cases w with
  | nil => cases hw
  | cons c cs =>
    rw [isOneWord, Bool.and_eq_true] at hw
    rw [List.cons_append, isOneWord, goesOnWith_append, hw.1, hw.2]
    exact hgoes

/-- A floating constant is one word, and not of digits only. -/
theorem IsFloatingConstant.isOneWord {cs : List Char} (h : IsFloatingConstant cs) :
    isOneWord cs = true ∧ startsNumber cs = true ∧ cs.all Char.isDigit = false := by
  cases h with
  | fractional hd =>
    obtain ⟨hone, hstart, -⟩ := isOneWord_digits hd
    exact ⟨hone, hstart, by simp⟩
  | @fractionalScaled whole fraction exponent hd he =>
    obtain ⟨hone, hstart, -⟩ := isOneWord_digits hd
    have happend : whole ++ '.' :: (fraction ++ exponent) =
        whole ++ '.' :: fraction ++ exponent := by simp
    obtain ⟨hone, hstart⟩ := isOneWord_exponent hone hstart he
    rw [happend]
    exact ⟨hone, hstart, by simp⟩
  | @scaled whole exponent hd he =>
    have hdigits : Decimal.IsDigits (whole ++ []) := by rwa [List.append_nil]
    obtain ⟨-, -, hwhole⟩ := isOneWord_digits hdigits
    obtain ⟨hone, hstart⟩ := hwhole hd.1
    obtain ⟨hone, hstart⟩ := isOneWord_exponent hone hstart he
    exact ⟨hone, hstart, by cases he <;> simp⟩

/-- A floating constant begins with a digit or a point. -/
theorem IsFloatingConstant.exists_head {cs : List Char} (h : IsFloatingConstant cs) :
    ∃ c ds, cs = c :: ds ∧ (c.isDigit = true ∨ c = '.') := by
  obtain ⟨-, hstart, -⟩ := h.isOneWord
  cases cs with
  | nil => cases hstart
  | cons c ds =>
    rw [startsNumber, Bool.or_eq_true, Bool.and_eq_true, decide_eq_true_eq] at hstart
    exact ⟨c, ds, rfl, hstart.imp_right And.left⟩

private theorem stopsAt_number (hw : startsNumber w = true) (hrest : Ends rest) :
    StopsAt w rest := by
  intro c hc
  obtain ⟨hname, hpoint, hplus, hminus⟩ := hrest c hc
  cases w with
  | nil => cases hw
  | cons first tail =>
    rw [goesOn, startsName_of_startsNumber hw, if_neg Bool.false_ne_true, if_pos hw]
    simp [hname, hpoint, hplus, hminus]

private theorem word?_of_startsNumber (hw : startsNumber w = true) :
    word? read w = constant? read w := by
  cases w with
  | nil => cases hw
  | cons c cs =>
    have hname : (c :: cs).head?.any startsName = false := startsName_of_startsNumber hw
    rw [word?, hname, if_neg Bool.false_ne_true, if_pos hw]

/-- A floating constant is read off the text that it stands in front of. -/
theorem words?_constant {cs : List Char} {x : α} (h : IsFloatingConstant cs) (hx : read cs = some x)
    (hrest : Ends rest) :
    words? read (cs ++ rest) = (words? read rest).map (.token (.number x) :: ·) := by
  obtain ⟨hone, hstart, hdigits⟩ := h.isOneWord
  refine words?_append hone (stopsAt_number hstart hrest) ?_
  rw [word?_of_startsNumber hstart, constant?, hdigits, if_neg Bool.false_ne_true, hx]
  rfl

/-- The digits of an integer are read off the text that they stand in front of. -/
theorem words?_whole (n : Nat) (hrest : Ends rest) :
    words? read (Decimal.digitChars n ++ rest) =
      (words? read rest).map (.token (.whole n) :: ·) := by
  have hd := Decimal.isDigits_digitChars n
  have hdigits : Decimal.IsDigits (Decimal.digitChars n ++ []) := by rwa [List.append_nil]
  obtain ⟨-, -, hwhole⟩ := isOneWord_digits hdigits
  obtain ⟨hone, hstart⟩ := hwhole hd.1
  have hvalue : Numeral.ofDigits (Decimal.digitChars n) = n := Nat.ofDigitChars_ten_toDigits
  have hzero {cs : List Char} (h : Decimal.IsWhole cs) : cs = ['0'] ∨ cs.head? ≠ some '0' := by
    cases h with
    | zero => exact .inl rfl
    | digits hc _ => exact .inr (by simpa using hc)
  refine words?_append hone (stopsAt_number hstart hrest) ?_
  rw [word?_of_startsNumber hstart, constant?, List.all_eq_true.mpr hd.2, if_pos rfl,
    if_pos (by simpa using hzero (Decimal.isWhole_digitChars n)), hvalue]

end FuzzyInference.CSource
