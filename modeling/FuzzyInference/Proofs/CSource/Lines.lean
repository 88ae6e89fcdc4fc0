import FuzzyInference.Proofs.CSource.ReadBack

/-!
# The words of statements and functions

The lines of a function are cut into the words of its statements, one after the other. Fixed pieces
of text end with a blank or a mark that nothing runs into; names and expressions are followed by a
character that ends them.
-/

namespace FuzzyInference.CSource

variable {α : Type}

/-! ### Pieces of text -/

/-- Characters are cut into words wherever what stands behind them begins with a character of a
kind. -/
def SpellsBefore (read : List Char → Option α) (P : Char → Prop) (cs : List Char)
    (ws : List (Word α)) : Prop :=
  ∀ rest, (∀ c ∈ rest.head?, P c) → words? read (cs ++ rest) = (words? read rest).map (ws ++ ·)

/-- Characters are cut into words, whatever stands behind them. -/
def Spells (read : List Char → Option α) (cs : List Char) (ws : List (Word α)) : Prop :=
  ∀ rest, words? read (cs ++ rest) = (words? read rest).map (ws ++ ·)

/-- A character that words which are put together do not go on with. -/
def EndsWord (c : Char) : Prop := isNameChar c = false ∧ c ≠ '.' ∧ c ≠ '+' ∧ c ≠ '-'

instance : DecidablePred EndsWord := fun _ ↦ inferInstanceAs (Decidable (_ ∧ _ ∧ _ ∧ _))

section Pieces

variable {read : List Char → Option α} {P : Char → Prop} {c : Char} {cs ds : List Char}
  {ws vs : List (Word α)}

/-- No text has no words. -/
theorem Spells.nil : Spells read [] [] := fun _ ↦ Option.map_id'.symm

/-- A text in front of a blank. -/
theorem Spells.of_space (cs : List Char) (hc : isSpace c = true) (h : words? read cs = some ws) :
    Spells read (cs ++ [c]) ws := by
  intro rest
  rw [List.append_assoc, List.singleton_append, words?_append_space hc h]

/-- Blanks in front of a text. -/
theorem Spells.indent (h : Spells read cs ws) (n : Nat) :
    Spells read (List.replicate n ' ' ++ cs) ws := by
  induction n with
  | zero => exact h
  | succ n ih =>
    intro rest
    rw [List.replicate_succ, List.cons_append, List.cons_append, words?_space rfl, ih]

/-- A text behind another. -/
theorem Spells.append (h : Spells read cs ws) (k : Spells read ds vs) :
    Spells read (cs ++ ds) (ws ++ vs) := by
  intro rest
  rw [List.append_assoc, h, k, Option.map_map]
  simp [Function.comp_def]

/-- A text behind another, in front of characters of a kind. -/
theorem Spells.append_before (h : Spells read cs ws) (k : SpellsBefore read P ds vs) :
    SpellsBefore read P (cs ++ ds) (ws ++ vs) := by
  intro rest hrest
  rw [List.append_assoc, h, k rest hrest, Option.map_map]
  simp [Function.comp_def]

/-- A text behind another that it ends. -/
theorem SpellsBefore.append (h : SpellsBefore read P cs ws) (k : Spells read (c :: ds) vs)
    (hc : P c) : Spells read (cs ++ c :: ds) (ws ++ vs) := by
  intro rest
  have hends : ∀ d ∈ (c :: ds ++ rest).head?, P d := by
    rintro d ⟨⟩
    exact hc
  rw [List.append_assoc, h _ hends, k, Option.map_map]
  simp [Function.comp_def]

/-- An opening parenthesis. -/
theorem spells_opening : Spells read ['('] [.token .opening] :=
  fun rest ↦ words?_append (by decide) (stopsAt_parenthesis (.inl rfl) rest) rfl

/-- A plain name. -/
theorem spells_name {name : String} (h : isPlainName name = true) :
    SpellsBefore read (isNameChar · = false) name.toList [.token (.name name)] :=
  fun _ hrest ↦ words?_name h hrest

/-- Names are ended by what other words are. -/
theorem SpellsBefore.of_name (h : SpellsBefore read (isNameChar · = false) cs ws) :
    SpellsBefore read EndsWord cs ws :=
  fun rest hrest ↦ h rest fun c hc ↦ (hrest c hc).1

/-- Texts with commas between them, each of which a comma ends. -/
theorem spells_intercalate (hcomma : P ',') {parts : List (List Char × List (Word α))}
    (hne : parts ≠ []) (h : ∀ p ∈ parts, SpellsBefore read P p.1 p.2) :
    SpellsBefore read P ([',', ' '].intercalate (parts.map Prod.fst))
      ([.token .comma].intercalate (parts.map Prod.snd)) := by
  induction parts with
  | nil => exact absurd rfl hne
  | cons p parts ih =>
    rw [List.forall_mem_cons] at h
    cases parts with
    | nil => simpa using h.1
    | cons q parts =>
      have hmark : Spells read [',', ' '] [.token .comma] := .of_space [','] rfl rfl
      have hrest := ih (List.cons_ne_nil _ _) h.2
      simpa [List.intercalate_cons_cons] using (h.1.append hmark hcomma).append_before hrest

end Pieces

/-! ### Statements -/

/-- The text of lines. -/
def ofLines (lines : List String) : List Char := lines.flatMap fun line ↦ line.toList ++ ['\n']

variable [Scalar α] {sp : Spelling α}

mutual

/-- The text of a statement is read back, and what is read runs as the statement does. -/
def Statement.Sound (sp : Spelling α) : Statement α → Prop
  | .result value => value.Sound sp
  | .resultIf condition value => condition.Sound sp ∧ value.Sound sp
  | .index name => isPlainName name = true
  | .whole name value => isPlainName name = true ∧ value.Sound sp
  | .floating locals => locals ≠ [] ∧ ∀ p ∈ locals, isPlainName p.1 = true ∧ p.2.Sound sp
  | .increase name value => isPlainName name = true ∧ value.Sound sp
  | .loop index bound body =>
    isPlainName index = true ∧ isPlainName bound = true ∧ BodySound sp body
  | .gap => True

/-- The statements of a body are read back. -/
def BodySound (sp : Spelling α) : List (Statement α) → Prop
  | [] => True
  | statement :: rest => statement.Sound sp ∧ BodySound sp rest

end

omit [Scalar α] in
/-- A local number is declared by its name and its value. -/
def declaratorWords (sp : Spelling α) (p : String × Expression α) : List (Word α) :=
  .token (.name p.1) :: .assign :: p.2.words sp

/-- The words between the parentheses before the body of a loop, and around them. -/
def loopWords (index bound : String) : List (Word α) :=
  [.keyword .looping, .token .opening, .token (.name index), .assign, .token (.whole 0), .semicolon,
    .token (.name index), .token .less, .token (.name bound), .semicolon, .token (.name index),
    .increment, .token .closing]

mutual

/-- The words of a statement. -/
def Statement.words (sp : Spelling α) : Statement α → List (Word α)
  | .result value => .keyword .returning :: value.words sp ++ [.semicolon]
  | .resultIf condition value =>
    .keyword .provided :: .token .opening :: condition.words sp ++ .token .closing ::
      .keyword .returning :: value.words sp ++ [.semicolon]
  | .index name => [.keyword .int, .token (.name name), .semicolon]
  | .whole name value =>
    .keyword .int :: .token (.name name) :: .assign :: value.words sp ++ [.semicolon]
  | .floating locals =>
    .keyword .double :: [.token .comma].intercalate (locals.map (declaratorWords sp)) ++
      [.semicolon]
  | .increase name value => .token (.name name) :: .add :: value.words sp ++ [.semicolon]
  | .loop index bound body =>
    loopWords index bound ++ .openingBrace :: bodyWords sp body ++ [.closingBrace]
  | .gap => []

/-- The words of a body. -/
def bodyWords (sp : Spelling α) : List (Statement α) → List (Word α)
  | [] => []
  | statement :: rest => statement.words sp ++ bodyWords sp rest

end

/-- The words of a sound expression, in front of a character that ends words. -/
theorem Expression.Sound.spells {e : Expression α} (h : e.Sound sp) :
    SpellsBefore sp.read EndsWord (render sp.write e).toList (e.words sp) :=
  fun _ hrest ↦ words?_render h.legible h.ordered hrest

/-- The text of lines behind others. -/
theorem ofLines_append (first rest : List String) :
    ofLines (first ++ rest) = ofLines first ++ ofLines rest :=
  List.flatMap_append

omit [Scalar α] in
private theorem spells_line {code : List Char} {line : String} {ws : List (Word α)} (depth : Nat)
    (h : Spells sp.read code ws) (hline : line.toList ++ ['\n'] = code) :
    Spells sp.read (ofLines [indented depth line]) ws := by
  rw [ofLines, List.flatMap_singleton, indented, String.toList_append, String.toList_ofList,
    List.append_assoc, hline]
  exact h.indent _

section Fixed

variable {read : List Char → Option α}

omit [Scalar α]

private theorem spells_returning :
    Spells read ['r', 'e', 't', 'u', 'r', 'n', ' '] [.keyword .returning] :=
  .of_space ['r', 'e', 't', 'u', 'r', 'n'] rfl rfl

private theorem spells_provided :
    Spells read ['i', 'f', ' ', '('] [.keyword .provided, .token .opening] :=
  (Spells.of_space ['i', 'f'] (c := ' ') rfl rfl).append spells_opening

private theorem spells_looping :
    Spells read ['f', 'o', 'r', ' ', '('] [.keyword .looping, .token .opening] :=
  (Spells.of_space ['f', 'o', 'r'] (c := ' ') rfl rfl).append spells_opening

private theorem spells_int : Spells read ['i', 'n', 't', ' '] [.keyword .int] :=
  .of_space ['i', 'n', 't'] rfl rfl

private theorem spells_double :
    Spells read ['d', 'o', 'u', 'b', 'l', 'e', ' '] [.keyword .double] :=
  .of_space ['d', 'o', 'u', 'b', 'l', 'e'] rfl rfl

private theorem spells_assign : Spells read [' ', '=', ' '] [.assign] :=
  .of_space [' ', '='] rfl rfl

private theorem spells_add : Spells read [' ', '+', '=', ' '] [.add] :=
  .of_space [' ', '+', '='] rfl rfl

private theorem spells_closing : Spells read [')', '\n'] [.token .closing] :=
  .of_space [')'] rfl rfl

private theorem spells_semicolon : Spells read [';', '\n'] [.semicolon] :=
  .of_space [';'] rfl rfl

private theorem spells_closingBrace : Spells read ['\x7d', '\n'] [.closingBrace] :=
  .of_space ['\x7d'] rfl rfl

private theorem spells_loop {index bound : String} (hi : isPlainName index = true)
    (hb : isPlainName bound = true) :
    Spells read (['f', 'o', 'r', ' ', '('] ++ (index.toList ++ ([' ', '=', ' ', '0', ';', ' '] ++
        (index.toList ++ ([' ', '<', ' '] ++ (bound.toList ++ ([';', ' '] ++ (index.toList ++
          ['+', '+', ')', ' ', '\x7b', '\n'])))))))) (loopWords index bound ++
            [.openingBrace]) := by
  have hstart : Spells read [' ', '=', ' ', '0', ';', ' ']
      [.assign, .token (.whole 0), .semicolon] := .of_space [' ', '=', ' ', '0', ';'] rfl rfl
  have hless : Spells read [' ', '<', ' '] [.token .less] := .of_space [' ', '<'] rfl rfl
  have hnext : Spells read [';', ' '] [.semicolon] := .of_space [';'] rfl rfl
  have hend : Spells read ['+', '+', ')', ' ', '\x7b', '\n']
      [.increment, .token .closing, .openingBrace] :=
    .of_space ['+', '+', ')', ' ', '\x7b'] rfl rfl
  have hlast := (spells_name hi).append hend (by decide)
  have hbound := (spells_name hb).append (hnext.append hlast) (by decide)
  have hindex := (spells_name hi).append (hless.append hbound) (by decide)
  exact spells_looping.append ((spells_name hi).append (hstart.append hindex) (by decide))

end Fixed

private theorem Expression.Sound.ended {e : Expression α} (h : e.Sound sp) :
    Spells sp.read ((render sp.write e).toList ++ [';', '\n']) (e.words sp ++ [.semicolon]) :=
  h.spells.append spells_semicolon (by decide)

private theorem spells_declarator {p : String × Expression α} (hname : isPlainName p.1 = true)
    (hvalue : p.2.Sound sp) :
    SpellsBefore sp.read EndsWord
      (p.1.toList ++ [' ', '=', ' '] ++ (render sp.write p.2).toList) (declaratorWords sp p) :=
  ((spells_name hname).append spells_assign (by decide)).append_before hvalue.spells

mutual

/-- The lines of a statement are cut into its words. -/
theorem spells_statement : (s : Statement α) → s.Sound sp → ∀ depth,
    Spells sp.read (ofLines (s.lines sp.write depth)) (s.words sp)
  | .result value, hs, depth => by
    rw [Statement.lines]
    exact spells_line depth (spells_returning.append hs.ended) (by simp)
  | .resultIf condition value, hs, depth => by
    have hcondition := spells_provided.append (hs.1.spells.append spells_closing (by decide))
    have hfirst : Spells sp.read
        (ofLines [indented depth ("if (" ++ render sp.write condition ++ ")")]) _ :=
      spells_line depth hcondition (by simp)
    have hsecond : Spells sp.read
        (ofLines [indented (depth + 1) ("return " ++ render sp.write value ++ ";")]) _ :=
      spells_line (depth + 1) (spells_returning.append hs.2.ended) (by simp)
    simpa [Statement.lines, Statement.words, ofLines] using hfirst.append hsecond
  | .index name, hs, depth => by
    have hname : Spells sp.read (name.toList ++ [';', '\n']) _ :=
      (spells_name hs).append spells_semicolon (by decide)
    rw [Statement.lines]
    exact spells_line depth (spells_int.append hname) (by simp)
  | .whole name value, hs, depth => by
    have hname : Spells sp.read (name.toList ++ [' ', '=', ' ']) _ :=
      (spells_name hs.1).append spells_assign (by decide)
    rw [Statement.lines]
    exact spells_line depth (spells_int.append (hname.append hs.2.ended)) (by simp)
  | .floating locals, hs, depth => by
    have hdeclarators : ∀ q ∈ locals.map fun p ↦
        (p.1.toList ++ [' ', '=', ' '] ++ (render sp.write p.2).toList, declaratorWords sp p),
        SpellsBefore sp.read EndsWord q.1 q.2 :=
      List.forall_mem_map.mpr fun p hp ↦ spells_declarator (hs.2 p hp).1 (hs.2 p hp).2
    have hparts := spells_intercalate (by decide) (by simpa using hs.1) hdeclarators
    rw [List.map_map, List.map_map] at hparts
    rw [Statement.lines]
    exact spells_line depth (spells_double.append (hparts.append spells_semicolon (by decide)))
      (by simp [Function.comp_def])
  | .increase name value, hs, depth => by
    have hname : Spells sp.read (name.toList ++ [' ', '+', '=', ' ']) _ :=
      (spells_name hs.1).append spells_add (by decide)
    rw [Statement.lines]
    exact spells_line depth (hname.append hs.2.ended) (by simp)
  | .loop index bound body, hs, depth => by
    have hfirst : Spells sp.read (ofLines [indented depth ("for (" ++ index ++ " = 0; " ++ index ++
        " < " ++ bound ++ "; " ++ index ++ "++) \x7b")]) _ :=
      spells_line depth (spells_loop hs.1 hs.2.1) (by simp)
    have hlast : Spells sp.read (ofLines [indented depth "\x7d"]) _ :=
      spells_line depth spells_closingBrace (by simp)
    have hbody := spells_body body hs.2.2 (depth + 1)
    rw [Statement.lines, ← List.singleton_append, ofLines_append, ofLines_append]
    simpa [Statement.words] using hfirst.append (hbody.append hlast)
  | .gap, _, _ => .of_space [] rfl rfl

/-- The lines of a body are cut into its words. -/
theorem spells_body : (body : List (Statement α)) → BodySound sp body → ∀ depth,
    Spells sp.read (ofLines (bodyLines sp.write depth body)) (bodyWords sp body)
  | [], _, _ => .nil
  | statement :: rest, hs, depth => by
    rw [bodyLines, ofLines_append, bodyWords]
    exact (spells_statement statement hs.1 depth).append (spells_body rest hs.2 depth)

end

/-! ### Functions -/

/-- The text of a function is read back, and what is read runs as the function does. -/
structure Function.Sound (sp : Spelling α) (f : Function α) : Prop where
  /-- The name is plain. -/
  name : isPlainName f.name = true
  /-- There are parameters. -/
  parameters_ne_nil : f.parameters ≠ []
  /-- Their names are plain. -/
  parameters : ∀ s ∈ f.parameters, isPlainName s = true
  /-- The statements are read back. -/
  body : BodySound sp f.body

/-- The words before the body of a function. -/
def Function.headWords (f : Function α) : List (Word α) :=
  (if f.internal then [.keyword .static] else []) ++
    (.keyword .double :: .token (.name f.name) :: .token .opening ::
      [.token .comma].intercalate (f.parameters.map fun s ↦ [.keyword .double, .token (.name s)]) ++
        [.token .closing])

/-- The words of a function. -/
def Function.words (sp : Spelling α) (f : Function α) : List (Word α) :=
  f.headWords ++ .openingBrace :: bodyWords sp f.body ++ [.closingBrace]

private theorem spells_signature {f : Function α} (hf : f.Sound sp) :
    Spells sp.read (ofLines [f.signature]) f.headWords := by
  have heach : ∀ p ∈ f.parameters.map fun s ↦
      (['d', 'o', 'u', 'b', 'l', 'e', ' '] ++ s.toList, [.keyword .double, .token (.name s)]),
      SpellsBefore sp.read EndsWord p.1 p.2 :=
    List.forall_mem_map.mpr fun s hs ↦
      spells_double.append_before (spells_name (hf.parameters s hs)).of_name
  have hparameters := spells_intercalate (by decide) (by simpa using hf.parameters_ne_nil) heach
  rw [List.map_map, List.map_map] at hparameters
  have hstatic : Spells sp.read ['s', 't', 'a', 't', 'i', 'c', ' '] [.keyword .static] :=
    .of_space ['s', 't', 'a', 't', 'i', 'c'] rfl rfl
  have hname := (spells_name hf.name).append
    (spells_opening.append (hparameters.append spells_closing (by decide))) (by decide)
  have hdouble := spells_double.append hname
  rw [ofLines, List.flatMap_singleton, Function.signature, Function.headWords]
  cases f.internal with
  | false => simpa [Function.comp_def] using hdouble
  | true => simpa [Function.comp_def] using hstatic.append hdouble

/-- The lines of a function are cut into its words. -/
theorem spells_function {f : Function α} (hf : f.Sound sp) :
    Spells sp.read (ofLines (f.lines sp.write)) (f.words sp) := by
  have hopening : Spells sp.read (ofLines ["\x7b"]) [.openingBrace] :=
    .of_space ['\x7b'] (c := '\n') rfl rfl
  have hclosing : Spells sp.read (ofLines ["\x7d"]) [.closingBrace] := spells_closingBrace
  have hbody := (spells_body f.body hf.body 1).append hclosing
  have hlines : f.lines sp.write =
      [f.signature] ++ (["\x7b"] ++ (bodyLines sp.write 1 f.body ++ ["\x7d"])) := rfl
  rw [hlines, ofLines_append, ofLines_append, ofLines_append]
  simpa [Function.words] using (spells_signature hf).append (hopening.append hbody)

end FuzzyInference.CSource
