import FuzzyInference.Proofs.CSource.Lines
import Mathlib.Data.List.Basic

/-!
# Functions that are read back

The words of a function are read as the function that was written: its expressions as they are
spelled, and its statements without the blank lines between them. What is read returns what the
written function does.
-/

namespace FuzzyInference.CSource

variable {α : Type} {sp : Spelling α}

/-! ### What is read -/

mutual

/-- What is read of a statement. -/
def Statement.asRead (sp : Spelling α) : Statement α → List (Statement α)
  | .result value => [.result (value.spelled sp)]
  | .resultIf condition value => [.resultIf (condition.spelled sp) (value.spelled sp)]
  | .index name => [.index name]
  | .whole name value => [.whole name (value.spelled sp)]
  | .floating locals => [.floating (locals.map fun p ↦ (p.1, p.2.spelled sp))]
  | .increase name value => [.increase name (value.spelled sp)]
  | .loop index bound body => [.loop index bound (bodyAsRead sp body)]
  | .gap => []

/-- What is read of a body. -/
def bodyAsRead (sp : Spelling α) : List (Statement α) → List (Statement α)
  | [] => []
  | statement :: rest => statement.asRead sp ++ bodyAsRead sp rest

end

/-- What is read of a function. -/
def Function.asRead (sp : Spelling α) (f : Function α) : Function α :=
  { f with body := bodyAsRead sp f.body }

/-- A statement is a blank line. -/
def Statement.isGap : Statement α → Bool
  | .gap => true
  | _ => false

/-- A function without blank lines, apart from those inside of loops. -/
def Function.withoutGaps (f : Function α) : Function α :=
  { f with body := f.body.filter fun statement ↦ !statement.isGap }

/-! ### Words that belong to one statement -/

/-- A word that does not end what it stands in. -/
def Word.goesOn : Word α → Bool
  | .semicolon | .openingBrace | .closingBrace => false
  | _ => true

variable {fs : List (Function α)} {f : Frame α} {stack : List (Frame α)}
  {pending us ws : List (Word α)}

/-- Words are collected up to the end of what they stand in. -/
theorem functionsFrom?_append (h : us.all Word.goesOn = true) :
    functionsFrom? fs stack pending (us ++ ws) = functionsFrom? fs stack (pending ++ us) ws := by
  induction us generalizing pending with
  | nil => rw [List.nil_append, List.append_nil]
  | cons u us ih =>
    rw [List.all_cons, Bool.and_eq_true] at h
    rw [List.append_cons pending, ← ih h.2]
    cases u <;> first | rfl | cases h.1

/-- A semicolon ends a statement, unless it stands in the head of a loop. -/
theorem functionsFrom?_semicolon {s : Statement α} (hs : simple? pending = some s) :
    functionsFrom? fs (f :: stack) pending (.semicolon :: ws) =
      functionsFrom? fs (f.push s :: stack) [] ws := by
  have hstep : functionsFrom? fs (f :: stack) pending (.semicolon :: ws) =
      (simple? pending).bind fun s ↦ functionsFrom? fs (f.push s :: stack) [] ws := by
    cases pending with
    | nil => rfl
    | cons p ps =>
      cases p with
      | keyword k =>
        cases k with
        | looping => cases hs
        | _ => rfl
      | _ => rfl
  rw [hstep, hs, Option.bind_some]

/-- The words of an expression end nothing. -/
theorem all_goesOn_words (e : Expression α) : (e.words sp).all Word.goesOn = true := by
  rw [Expression.words, List.all_flatMap, List.all_eq_true]
  intro w _
  cases w with
  | number x => rw [Token.words]; cases sp.signed x <;> rfl
  | _ => rfl

/-- What commas part ends nothing if no part does. -/
theorem all_goesOn_intercalate (uss : List (List (Word α)))
    (h : ∀ us ∈ uss, us.all Word.goesOn = true) :
    ([.token .comma].intercalate uss).all Word.goesOn = true := by
  induction uss with
  | nil => rfl
  | cons us uss ih =>
    rw [List.forall_mem_cons] at h
    cases uss with
    | nil => simpa using h.1
    | cons vs uss =>
      rw [List.intercalate_cons_cons, List.all_append, List.all_append, h.1, ih h.2]
      rfl

/-- The words of an ordered expression are read as what it spells. -/
theorem expression?_words {e : Expression α} (h : e.Ordered sp) :
    expression? (e.words sp) = some (e.spelled sp) :=
  expressionFrom?_words h

/-- Commas part what stands between them. -/
theorem parts_intercalate {uss : List (List (Word α))} (hne : uss ≠ [])
    (h : ∀ us ∈ uss, us.foldlM Word.inner? 0 = some 0) :
    parts 0 ([.token .comma].intercalate uss) = uss := by
  induction uss with
  | nil => exact absurd rfl hne
  | cons us uss ih =>
    rw [List.forall_mem_cons] at h
    cases uss with
    | nil =>
      have hparts := parts_append h.1 []
      rw [List.append_nil] at hparts
      rw [List.intercalate_singleton, hparts]
      simp [parts]
    | cons vs uss =>
      rw [List.intercalate_cons_cons, List.append_assoc, parts_append h.1, List.singleton_append,
        parts, ih (List.cons_ne_nil _ _) h.2]
      simp

/-! ### Statements and functions -/

private theorem functionsFrom?_simple {s : Statement α} (hus : us.all Word.goesOn = true)
    (hs : simple? us = some s) :
    functionsFrom? fs (f :: stack) [] (us ++ [.semicolon] ++ ws) =
      functionsFrom? fs ({ f with body := f.body ++ [s] } :: stack) [] ws := by
  rw [List.append_assoc, functionsFrom?_append hus]
  exact functionsFrom?_semicolon hs

private theorem header?_loopWords (index bound : String) :
    header? (α := α) (loopWords index bound) = some (.loop index bound) := by
  simp [header?, loopWords]

private theorem functionsFrom?_loopWords (index bound : String) :
    functionsFrom? fs (f :: stack) [] (loopWords index bound ++ .openingBrace :: ws) =
      functionsFrom? fs (⟨.loop index bound, []⟩ :: f :: stack) [] ws := by
  show (header? (loopWords index bound)).bind _ = _
  rw [header?_loopWords]
  rfl

private theorem mapM_declarator? {locals : List (String × Expression α)}
    (h : ∀ p ∈ locals, p.2.Ordered sp) :
    (locals.map (declaratorWords sp)).mapM declarator? =
      some (locals.map fun p ↦ (p.1, p.2.spelled sp)) := by
  induction locals with
  | nil => rfl
  | cons p locals ih =>
    rw [List.forall_mem_cons] at h
    have hp : declarator? (declaratorWords sp p) = some (p.1, p.2.spelled sp) := by
      rw [declaratorWords, declarator?, expression?_words h.1]
      rfl
    rw [List.map_cons, List.mapM_cons, hp, ih h.2]
    rfl

private theorem parameters?_words {names : List String} (h : names ≠ []) :
    parameters? (α := α) ([.token .comma].intercalate
      (names.map fun s ↦ [.keyword .double, .token (.name s)]) ++ [.token .closing]) =
        some names := by
  induction names with
  | nil => exact absurd rfl h
  | cons name names ih =>
    cases names with
    | nil => rfl
    | cons other names =>
      rw [List.map_cons, List.map_cons, List.intercalate_cons_cons]
      exact congrArg (Option.map (name :: ·)) (ih (List.cons_ne_nil _ _))

private theorem header?_headWords {f : Function α} (h : f.parameters ≠ []) :
    header? f.headWords = some (.function f.internal f.name f.parameters) := by
  rw [Function.headWords]
  cases f.internal <;> simp [header?, parameters?_words h]

private theorem all_goesOn_headWords (f : Function α) : f.headWords.all Word.goesOn = true := by
  have hparameters := all_goesOn_intercalate
    (f.parameters.map fun s ↦ [Word.keyword (α := α) .double, .token (.name s)])
    (by simp [Word.goesOn])
  rw [Function.headWords]
  cases f.internal <;> simp [Word.goesOn, hparameters]

variable [Scalar α]

mutual

/-- The words of a statement are read as it is. -/
theorem functionsFrom?_statement : (s : Statement α) → s.Sound sp →
    ∀ (f : Frame α) (stack : List (Frame α)) (ws : List (Word α)),
      functionsFrom? fs (f :: stack) [] (s.words sp ++ ws) =
        functionsFrom? fs ({ f with body := f.body ++ s.asRead sp } :: stack) [] ws
  | .result value, hs, f, stack, ws => by
    have hsimple : simple? (.keyword .returning :: value.words sp) =
        some (.result (value.spelled sp)) := by
      rw [simple?, expression?_words hs.ordered]
      rfl
    exact functionsFrom?_simple (by simp [Word.goesOn, all_goesOn_words]) hsimple
  | .resultIf condition value, hs, f, stack, ws => by
    -- The condition reaches to the first parenthesis that it did not open.
    have huntil : untilClosing? 0 (condition.words sp ++ .token .closing :: .keyword .returning ::
        value.words sp) = some (condition.words sp, .keyword .returning :: value.words sp) := by
      rw [untilClosing?_append (inner?_words hs.1.ordered)]
      simp [untilClosing?]
    have hsimple : simple? (.keyword .provided :: .token .opening :: condition.words sp ++
        .token .closing :: .keyword .returning :: value.words sp) =
          some (.resultIf (condition.spelled sp) (value.spelled sp)) := by
      simp [simple?, huntil, expression?_words hs.1.ordered, expression?_words hs.2.ordered]
    exact functionsFrom?_simple (by simp [Word.goesOn, all_goesOn_words]) hsimple
  | .index name, _, f, stack, ws => rfl
  | .whole name value, hs, f, stack, ws => by
    have hsimple : simple? (.keyword .int :: .token (.name name) :: .assign :: value.words sp) =
        some (.whole name (value.spelled sp)) := by
      rw [simple?, expression?_words hs.2.ordered]
      rfl
    exact functionsFrom?_simple (by simp [Word.goesOn, all_goesOn_words]) hsimple
  | .floating locals, hs, f, stack, ws => by
    have hordered : ∀ p ∈ locals, p.2.Ordered sp := fun p hp ↦ (hs.2 p hp).2.ordered
    have hparts : parts 0 ([.token .comma].intercalate (locals.map (declaratorWords sp))) =
        locals.map (declaratorWords sp) :=
      parts_intercalate (by simpa using hs.1)
        (List.forall_mem_map.mpr fun p hp ↦ inner?_words (hordered p hp))
    have hsimple : simple? (.keyword .double ::
        [.token .comma].intercalate (locals.map (declaratorWords sp))) =
          some (.floating (locals.map fun p ↦ (p.1, p.2.spelled sp))) := by
      rw [simple?, hparts, mapM_declarator? hordered]
      rfl
    have hgoes := all_goesOn_intercalate (locals.map (declaratorWords sp))
      (List.forall_mem_map.mpr fun p _ ↦ by simp [declaratorWords, Word.goesOn, all_goesOn_words])
    exact functionsFrom?_simple (by simp [Word.goesOn, hgoes]) hsimple
  | .increase name value, hs, f, stack, ws => by
    have hsimple : simple? (.token (.name name) :: .add :: value.words sp) =
        some (.increase name (value.spelled sp)) := by
      rw [simple?, expression?_words hs.2.ordered]
      rfl
    exact functionsFrom?_simple (by simp [Word.goesOn, all_goesOn_words]) hsimple
  | .loop index bound body, hs, f, stack, ws => by
    -- The head opens a frame of its own, which the last brace adds to the one around it.
    have hbody := functionsFrom?_body body hs.2.2 ⟨.loop index bound, []⟩ (f :: stack)
      (.closingBrace :: ws)
    rw [Statement.words, List.append_assoc, List.append_assoc, List.cons_append,
      functionsFrom?_loopWords, List.singleton_append, hbody]
    rfl
  | .gap, _, f, stack, ws => by
    rw [Statement.asRead, List.append_nil]
    rfl

/-- The words of a body are read as it is. -/
theorem functionsFrom?_body : (body : List (Statement α)) → BodySound sp body →
    ∀ (f : Frame α) (stack : List (Frame α)) (ws : List (Word α)),
      functionsFrom? fs (f :: stack) [] (bodyWords sp body ++ ws) =
        functionsFrom? fs ({ f with body := f.body ++ bodyAsRead sp body } :: stack) [] ws
  | [], _, f, stack, ws => by
    rw [bodyAsRead, List.append_nil]
    rfl
  | statement :: rest, hs, f, stack, ws => by
    rw [bodyWords, List.append_assoc, functionsFrom?_statement statement hs.1,
      functionsFrom?_body rest hs.2, bodyAsRead, List.append_assoc]

end

/-- The words of a function are read as it is. -/
theorem functionsFrom?_function {f : Function α} (hf : f.Sound sp) :
    functionsFrom? fs [] [] (f.words sp ++ ws) = functionsFrom? (fs ++ [f.asRead sp]) [] [] ws := by
  rw [Function.words, List.append_assoc, List.append_assoc,
    functionsFrom?_append (all_goesOn_headWords f), List.cons_append, List.nil_append]
  show (header? f.headWords).bind _ = _
  rw [header?_headWords hf.parameters_ne_nil, List.singleton_append]
  exact functionsFrom?_body f.body hf.body ⟨.function f.internal f.name f.parameters, []⟩ []
    (.closingBrace :: ws)

/-- The words of several functions are read as they are. -/
theorem functionsFrom?_functions {gs : List (Function α)} (h : ∀ f ∈ gs, f.Sound sp) :
    functionsFrom? fs [] [] (gs.flatMap (Function.words sp)) =
      some (fs ++ gs.map (Function.asRead sp)) := by
  induction gs generalizing fs with
  | nil =>
    rw [List.map_nil, List.append_nil]
    rfl
  | cons f gs ih =>
    rw [List.forall_mem_cons] at h
    rw [List.flatMap_cons, functionsFrom?_function h.1, ih h.2, List.map_cons, List.append_assoc]
    rfl

/-- The lines of a function are read as it is. -/
theorem functions?_lines {f : Function α} (hf : f.Sound sp) :
    (words? sp.read (ofLines (f.lines sp.write))).bind functions? = some [f.asRead sp] := by
  have hspells := spells_function hf []
  rw [List.append_nil, words?_nil, Option.map_some, List.append_nil] at hspells
  rw [hspells, Option.bind_some, ← List.append_nil (f.words sp)]
  exact functionsFrom?_function hf

private theorem spells_functions {gs : List (Function α)} (h : ∀ f ∈ gs, f.Sound sp) :
    Spells sp.read (ofLines (gs.flatMap fun f ↦ "" :: f.lines sp.write))
      (gs.flatMap (Function.words sp)) := by
  induction gs with
  | nil => exact .nil
  | cons f gs ih =>
    rw [List.forall_mem_cons] at h
    have hblank : Spells sp.read (ofLines [""]) [] := .of_space [] rfl rfl
    rw [List.flatMap_cons, List.flatMap_cons, ofLines_append]
    exact (hblank.append (spells_function h.1)).append (ih h.2)

private theorem toList_text (u : SourceUnit α) (write : α → String) :
    (u.text write).toList = "#include <math.h>\n".toList ++
      ofLines (u.functions.flatMap fun f ↦ "" :: f.lines write) := by
  rw [SourceUnit.text, String.toList_join, List.flatMap_map, List.flatMap_cons, ofLines]
  simp only [String.toList_append]
  rfl

/-- The text of a unit ends with the lines of the function for the centroid. -/
theorem exists_toList_text (u : SourceUnit α) (write : α → String) :
    ∃ before, (u.text write).toList = before ++ ofLines (u.crispFunction.lines write) := by
  have hfunctions : u.functions = (prelude ++ [u.degreeFunction]) ++ [u.crispFunction] := rfl
  have hlast : "" :: u.crispFunction.lines write = [""] ++ u.crispFunction.lines write := rfl
  rw [toList_text, hfunctions, List.flatMap_append, List.flatMap_singleton, hlast, ofLines_append,
    ofLines_append, ← List.append_assoc, ← List.append_assoc]
  exact ⟨_, rfl⟩

/-- The text of a unit is read as its functions are. -/
theorem readUnit?_text {u : SourceUnit α} (h : ∀ f ∈ u.functions, f.Sound sp) :
    readUnit? sp.read (u.text sp.write) = some (u.functions.map (Function.asRead sp)) := by
  have hprefix : "#include <math.h>\n".toList.isPrefixOf? (u.text sp.write).toList =
      some (ofLines (u.functions.flatMap fun f ↦ "" :: f.lines sp.write)) :=
    List.isPrefixOf?_eq_some_iff_append_eq.mpr (toList_text u sp.write).symm
  have hspells := spells_functions h []
  rw [List.append_nil, words?_nil, Option.map_some, List.append_nil] at hspells
  simp only [readUnit?, hprefix, hspells, Option.bind_some]
  exact functionsFrom?_functions h

/-! ### What it returns -/

variable {functions : Functions α}

private theorem foldlM_spelled {locals : List (String × Expression α)}
    (h : ∀ p ∈ locals, p.2.Sound sp) (env : Environment α) :
    (locals.map fun p ↦ (p.1, p.2.spelled sp)).foldlM (fun env (name, e) ↦ do
        return Environment.set env name (.floating (← valueOf functions env e).toFloating)) env =
      locals.foldlM (fun env (name, e) ↦ do
        return Environment.set env name (.floating (← valueOf functions env e).toFloating))
        env := by
  induction locals generalizing env with
  | nil => rfl
  | cons p locals ih =>
    rw [List.forall_mem_cons] at h
    simp only [List.map_cons, List.foldlM_cons, h.1.value_eq, ih h.2]

mutual

/-- A statement is read as one that does the same, or it is a blank line. -/
theorem Statement.run_asRead : (s : Statement α) → s.Sound sp →
    (s = .gap ∧ s.asRead sp = []) ∨
      ∃ t, s.asRead sp = [t] ∧ ∀ env, t.run functions env = s.run functions env
  | .result value, hs => by
    refine .inr ⟨_, rfl, fun env ↦ ?_⟩
    simp only [Statement.run, hs.value_eq]
  | .resultIf condition value, hs => by
    refine .inr ⟨_, rfl, fun env ↦ ?_⟩
    simp only [Statement.run, hs.1.value_eq, hs.2.value_eq]
  | .index _, _ => .inr ⟨_, rfl, fun _ ↦ rfl⟩
  | .whole name value, hs => by
    refine .inr ⟨_, rfl, fun env ↦ ?_⟩
    simp only [Statement.run, hs.2.value_eq]
  | .floating locals, hs => by
    refine .inr ⟨_, rfl, fun env ↦ ?_⟩
    rw [Statement.run, Statement.run, foldlM_spelled fun p hp ↦ (hs.2 p hp).2]
  | .increase name value, hs => by
    refine .inr ⟨_, rfl, fun env ↦ ?_⟩
    simp only [Statement.run, hs.2.value_eq]
  | .loop index bound body, hs => by
    refine .inr ⟨_, rfl, fun env ↦ ?_⟩
    simp only [Statement.run, runBody_asRead body hs.2.2]
  | .gap, _ => .inl ⟨rfl, rfl⟩

/-- What is read of a body does the same as the body. -/
theorem runBody_asRead : (body : List (Statement α)) → BodySound sp body → ∀ env,
    runBody functions env (bodyAsRead sp body) = runBody functions env body
  | [], _, _ => rfl
  | statement :: rest, hs, env => by
    rcases statement.run_asRead hs.1 with ⟨rfl, hread⟩ | ⟨t, hread, hrun⟩
    · rw [bodyAsRead, hread, List.nil_append, runBody_asRead rest hs.2]
      rfl
    · rw [bodyAsRead, hread, List.singleton_append, runBody, runBody, hrun]
      simp only [runBody_asRead rest hs.2]

end

/-- What is read of a function returns what the function does. -/
theorem Function.result_asRead {f : Function α} (hf : f.Sound sp) (functions : Functions α)
    (arguments : List α) :
    (f.asRead sp).result functions arguments = f.result functions arguments := by
  rw [Function.result, Function.result, Function.asRead, runBody_asRead f.body hf.body]

/-- What is read of functions defines the same. -/
theorem foldl_extend_asRead {gs : List (Function α)} (h : ∀ f ∈ gs, f.Sound sp)
    (base : Functions α) :
    (gs.map (Function.asRead sp)).foldl Functions.extend base =
      gs.foldl Functions.extend base := by
  induction gs generalizing base with
  | nil => rfl
  | cons f gs ih =>
    rw [List.forall_mem_cons] at h
    have hf : base.extend (f.asRead sp) = base.extend f := by
      funext name arguments
      rw [Functions.extend, Functions.extend, Function.result_asRead h.1]
      rfl
    rw [List.map_cons, List.foldl_cons, List.foldl_cons, hf, ih h.2]

end FuzzyInference.CSource
