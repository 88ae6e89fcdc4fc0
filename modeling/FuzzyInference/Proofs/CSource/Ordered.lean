import FuzzyInference.Proofs.CSource.Evaluation
import FuzzyInference.Proofs.CSource.Spelled

/-!
# The text of expressions

Words that could run into one another are kept apart by the order in which an expression has
operands and operators. The text of an expression whose words are ordered is read back as the
expression that it spells, and that has the value of the one that was written.
-/

namespace FuzzyInference.CSource

variable {α : Type} {sp : Spelling α}

/-! ### The order of words -/

/-- What is to come next in an expression. -/
inductive Place where
  /-- An operand, perhaps behind a sign. -/
  | operand
  /-- An operand, behind a sign. -/
  | signed
  /-- An operator, or nothing more. -/
  | operator
  deriving DecidableEq

/-- Where a word leads to in an expression, from a place inside of some parentheses. A number that
is written with a sign does not stand behind another sign. -/
def Token.step (sp : Spelling α) : Token α → Place × Nat → Option (Place × Nat)
  | .opening, (_, depth) => some (.operand, depth + 1)
  | .closing, (.operator, depth + 1) => some (.operator, depth)
  | .comma, (.operator, depth + 1) => some (.operand, depth + 1)
  | .closing, _ | .comma, _ => none
  | .number x, (.signed, depth) => if sp.signed x then none else some (.operator, depth)
  | .number _, (.operand, depth) => some (.operator, depth)
  | .whole _, (.operand, depth) | .whole _, (.signed, depth) => some (.operator, depth)
  | .name _, (.operand, depth) | .name _, (.signed, depth) => some (.operator, depth)
  | .toInt, (.operand, depth) | .toInt, (.signed, depth) => some (.operand, depth)
  | .negative, (.operand, depth) => some (.signed, depth)
  | .number _, _ | .whole _, _ | .name _, _ | .toInt, _ | .negative, _ => none
  | _, (.operator, depth) => some (.operand, depth)
  | _, _ => none

namespace Expression

/-- Where the words of an expression lead to, one after the other. -/
def walk (sp : Spelling α) (e : Expression α) (s : Place × Nat) : Option (Place × Nat) :=
  e.foldlM (fun s w ↦ w.step sp s) s

/-- Operands and operators take turns, and parentheses match. -/
def Ordered (sp : Spelling α) (e : Expression α) : Prop :=
  e.walk sp (.operand, 0) = some (.operator, 0)

/-- The numbers in an expression are read back, and its names are plain. -/
structure Legible [Neg α] (sp : Spelling α) (e : Expression α) : Prop where
  /-- The numbers are read back. -/
  number : ∀ x, .number x ∈ e → sp.ReadsBack x
  /-- The names are plain. -/
  name : ∀ s, .name s ∈ e → isPlainName s = true

variable {e : Expression α} {s s' : Place × Nat} {w : Token α}

/-- The words of an expression lead on from where its first word has led. -/
theorem walk_cons : Expression.walk sp (w :: e) s = (w.step sp s).bind (Expression.walk sp e) := rfl

/-- The words of two expressions lead on from where those of the first have led. -/
theorem walk_append (l r : Expression α) :
    Expression.walk sp (l ++ r) s = (l.walk sp s).bind (r.walk sp) :=
  List.foldlM_append

/-- What is behind the first word of a legible expression is legible. -/
theorem Legible.tail [Neg α] (h : Legible sp (w :: e)) : Legible sp e :=
  ⟨fun x hx ↦ h.number x (List.mem_cons_of_mem _ hx),
    fun s hs ↦ h.name s (List.mem_cons_of_mem _ hs)⟩

end Expression

variable {e : Expression α} {p : Place} {depth depth' : Nat} {rest : List Char}

/-! ### The text of an expression -/

/-- The text of an expression is that of its first word, and of the others behind it. -/
theorem toList_render_cons (write : α → String) (w : Token α) (e : Expression α) :
    (render write (w :: e)).toList = (w.text write).toList ++ (render write e).toList := by
  rw [render, List.map_cons, String.join_cons, String.toList_append, render]

private theorem head?_text_of_step {w : Token α} {s : Place × Nat}
    (h : w.step sp (.operator, depth) = some s) :
    ∃ c, (w.text sp.write).toList.head? = some c ∧
      isNameChar c = false ∧ c ≠ '.' ∧ c ≠ '+' ∧ c ≠ '-' := by
  cases w with
  | number _ | whole _ | name _ | negative | toInt => cases h
  | _ => exact ⟨_, by simp [Token.text]; rfl, by decide⟩

private theorem ends_of_walk (h : e.walk sp (.operator, depth) = some (.operator, depth'))
    (hrest : Ends rest) : Ends ((render sp.write e).toList ++ rest) := by
  cases e with
  | nil => exact hrest
  | cons w e =>
    rw [Expression.walk_cons, Option.bind_eq_some_iff] at h
    obtain ⟨s, hs, -⟩ := h
    obtain ⟨c, hhead, hc⟩ := head?_text_of_step hs
    intro d hd
    rw [toList_render_cons, List.append_assoc, List.head?_append, hhead] at hd
    cases hd
    exact hc

private theorem beginsOperand_name {name : String} (h : isPlainName name = true)
    (rest : List Char) : BeginsOperand (name.toList ++ rest) := by
  rw [isPlainName, Bool.and_eq_true] at h
  cases hcs : name.toList with
  | nil =>
    rw [hcs] at h
    cases h.1
  | cons c cs =>
    rw [hcs, isIdentifier, Bool.and_eq_true] at h
    rintro d ⟨⟩
    exact .inl (by rw [isNameChar, h.1.1, Bool.true_or])

private theorem beginsOperand_whole (n : Nat) (rest : List Char) :
    BeginsOperand ((toString n).toList ++ rest) := by
  have htext : (toString n).toList = Decimal.digitChars n := String.toList_ofList
  have hd := Decimal.isDigits_digitChars n
  obtain ⟨c, cs, hcs⟩ := List.exists_cons_of_ne_nil hd.1
  have hc : c.isDigit = true := hd.2 c (hcs ▸ List.mem_cons_self)
  rw [htext, hcs]
  rintro d ⟨⟩
  exact .inl (by rw [isNameChar, hc, Bool.or_true])

private theorem beginsOperand_of_walk [Neg α] (he : e.Legible sp)
    (h : e.walk sp (.signed, depth) = some (.operator, depth')) :
    BeginsOperand ((render sp.write e).toList ++ rest) := by
  cases e with
  | nil => cases h
  | cons w e =>
    rw [Expression.walk_cons, Option.bind_eq_some_iff] at h
    obtain ⟨s, hs, -⟩ := h
    rw [toList_render_cons, List.append_assoc]
    cases w with
    | number y =>
      cases hy : sp.signed y with
      | true => simp [Token.step, hy] at hs
      | false =>
        have hback := (he.number y List.mem_cons_self).beginsOperand
        have hwrite := sp.toList_write y
        rw [hy, if_neg Bool.false_ne_true, List.nil_append] at hwrite
        rw [Token.text, hwrite]
        exact hback _
    | whole n => exact beginsOperand_whole n _
    | name s => exact beginsOperand_name (he.name s List.mem_cons_self) _
    | opening | toInt =>
      rintro c hc
      rw [Token.text] at hc
      cases hc
      exact .inr (.inr rfl)
    | _ => cases hs

/-- The text of an expression is cut into its words. -/
theorem words?_render [Neg α] (he : e.Legible sp)
    (hwalk : e.walk sp (p, depth) = some (.operator, depth')) (hrest : Ends rest) :
    words? sp.read ((render sp.write e).toList ++ rest) =
      (words? sp.read rest).map (e.words sp ++ ·) := by
  induction e generalizing p depth with
  | nil => exact Option.map_id'.symm
  | cons w e ih =>
    rw [Expression.walk_cons, Option.bind_eq_some_iff] at hwalk
    obtain ⟨⟨q, d⟩, hstep, hwalk⟩ := hwalk
    have hapart : w.ApartFrom ((render sp.write e).toList ++ rest) := by
      cases w with
      | number _ | whole _ | name _ =>
        obtain rfl : q = .operator := by
          cases p <;> simp_all [Token.step]
        exact ends_of_walk hwalk hrest
      | negative =>
        obtain rfl : q = .signed := by
          cases p <;> simp_all [Token.step]
        exact stopsAt_minus (beginsOperand_of_walk he.tail hwalk)
      | _ => trivial
    rw [toList_render_cons, List.append_assoc, words?_token (fun y hy ↦ he.number y (by simp [hy]))
      (fun s hs ↦ he.name s (by simp [hs])) hapart, ih he.tail hwalk, Option.map_map]
    simp [Expression.words, Function.comp_def]

/-! ### The expression in a text -/

private theorem expressionFrom?_token {behind : Bool} {w : Token α} {ws : List (Word α)}
    (hw : w = .minus → behind = true) (hws : ∀ k us, ws ≠ .keyword k :: us) :
    expressionFrom? behind (.token w :: ws) =
      (expressionFrom? w.endsOperand ws).map (w :: ·) := by
  cases w with
  | opening =>
    cases ws with
    | nil => cases behind <;> rfl
    | cons u us =>
      cases u with
      | keyword k => exact absurd rfl (hws k us)
      | _ => cases behind <;> rfl
  | minus =>
    cases hw rfl
    rfl
  | _ => cases behind <;> rfl

private theorem words_ne_keyword (e : Expression α) (k : Keyword) (us : List (Word α)) :
    e.words sp ≠ .keyword k :: us := by
  cases e with
  | nil => exact nofun
  | cons w e =>
    cases w with
    | number y =>
      cases hy : sp.signed y <;> simp [Expression.words, Token.words, hy]
    | _ => simp [Expression.words, Token.words]

private theorem expressionFrom?_step {w : Token α} {q : Place} {d : Nat} {ws : List (Word α)}
    (hstep : w.step sp (p, depth) = some (q, d)) (hws : ∀ k us, ws ≠ .keyword k :: us) :
    expressionFrom? (p = .operator) (w.words sp ++ ws) =
      (expressionFrom? (q = .operator) ws).map (w.spelled sp ++ ·) := by
  cases w with
  | number y =>
    obtain rfl : q = .operator := by cases p <;> simp_all [Token.step]
    have hnumber (behind : Bool) : expressionFrom? behind (.token (.number (sp.size y)) :: ws) =
        (expressionFrom? true ws).map (.number (sp.size y) :: ·) :=
      expressionFrom?_token (by simp) hws
    cases hy : sp.signed y with
    | false =>
      rw [Token.words, Token.spelled, hy]
      exact hnumber _
    | true =>
      obtain rfl : p = .operand := by cases p <;> simp_all [Token.step]
      rw [Token.words, Token.spelled, hy]
      exact (congrArg (Option.map _) (hnumber false)).trans (Option.map_map _ _ _)
  | negative =>
    obtain ⟨rfl, rfl⟩ : p = .operand ∧ q = .signed := by cases p <;> simp_all [Token.step]
    rfl
  | toInt =>
    obtain rfl : q = .operand := by cases p <;> simp_all [Token.step]
    cases p <;> rfl
  | minus =>
    obtain ⟨rfl, rfl⟩ : p = .operator ∧ q = .operand := by cases p <;> simp_all [Token.step]
    rfl
  | opening =>
    obtain rfl : q = .operand := by cases p <;> simp_all [Token.step]
    exact expressionFrom?_token (by simp) hws
  | closing =>
    obtain rfl : q = .operator := by cases p <;> cases depth <;> simp_all [Token.step]
    exact expressionFrom?_token (by simp) hws
  | comma =>
    obtain rfl : q = .operand := by cases p <;> cases depth <;> simp_all [Token.step]
    exact expressionFrom?_token (by simp) hws
  | whole n | name s =>
    obtain rfl : q = .operator := by cases p <;> simp_all [Token.step]
    exact expressionFrom?_token (by simp) hws
  | _ =>
    obtain rfl : q = .operand := by cases p <;> simp_all [Token.step]
    exact expressionFrom?_token (by simp) hws

/-- The words of an expression are read as what it spells. -/
theorem expressionFrom?_words (hwalk : e.walk sp (p, depth) = some (.operator, depth')) :
    expressionFrom? (p = .operator) (e.words sp) = some (e.spelled sp) := by
  induction e generalizing p depth with
  | nil => rfl
  | cons w e ih =>
    rw [Expression.walk_cons, Option.bind_eq_some_iff] at hwalk
    obtain ⟨⟨q, d⟩, hstep, hwalk⟩ := hwalk
    exact (expressionFrom?_step hstep (words_ne_keyword e)).trans (congrArg _ (ih hwalk))

/-- The text of an ordered expression is read as what it spells. -/
theorem readExpression?_render [Neg α] (he : e.Legible sp) (hordered : e.Ordered sp) :
    readExpression? sp.read (render sp.write e) = some (e.spelled sp) := by
  have hwords := words?_render he hordered (show Ends [] from nofun)
  rw [List.append_nil, words?_nil, Option.map_some, List.append_nil] at hwords
  rw [readExpression?, hwords]
  exact expressionFrom?_words hordered

/-! ### Parentheses -/

/-- The number of parentheses that are open behind a word, unless it closes or parts what stands in
none. -/
def Word.inner? (depth : Nat) : Word α → Option Nat
  | .token .closing => if depth = 0 then none else some (depth - 1)
  | .token .comma => if depth = 0 then none else some depth
  | w => some (w.nesting depth)

section Parentheses

variable {q : Place} {d : Nat} {w : Token α} {us ws : List (Word α)}

/-- The words of an expression neither close nor part what the expression stands in. -/
theorem inner?_words (hwalk : e.walk sp (p, depth) = some (q, d)) :
    (e.words sp).foldlM Word.inner? depth = some d := by
  induction e generalizing p depth with
  | nil =>
    cases hwalk
    rfl
  | cons w e ih =>
    rw [Expression.walk_cons, Option.bind_eq_some_iff] at hwalk
    obtain ⟨⟨q, d⟩, hstep, hwalk⟩ := hwalk
    have hinner : (w.words sp).foldlM Word.inner? depth = some d := by
      cases w with
      | number y =>
        obtain rfl : depth = d := by cases p <;> simp_all [Token.step]
        rw [Token.words]
        cases sp.signed y <;> rfl
      | opening =>
        cases hstep
        rfl
      | closing | comma =>
        cases depth <;> cases p <;> cases hstep
        rfl
      | _ =>
        obtain rfl : depth = d := by cases p <;> simp_all [Token.step]
        rfl
    rw [Expression.words, List.flatMap_cons, List.foldlM_append, hinner]
    exact ih hwalk

private theorem of_inner? {u : Word α} (h : u.inner? depth = some d) :
    untilClosing? depth (u :: ws) =
        ((untilClosing? d ws).map fun (inside, after) ↦ (u :: inside, after)) ∧
      parts depth (u :: ws) = (parts d ws).modifyHead (u :: ·) := by
  cases u with
  | token t =>
    cases t with
    | closing | comma =>
      cases depth <;> cases h
      exact ⟨rfl, rfl⟩
    | _ =>
      cases h
      cases depth <;> exact ⟨rfl, rfl⟩
  | _ =>
    cases h
    cases depth <;> exact ⟨rfl, rfl⟩

/-- Words are taken up to the parenthesis that closes the one before them. -/
theorem untilClosing?_append (h : us.foldlM Word.inner? depth = some d) :
    untilClosing? depth (us ++ ws) =
      (untilClosing? d ws).map fun (inside, after) ↦ (us ++ inside, after) := by
  induction us generalizing depth with
  | nil =>
    cases h
    exact Option.map_id'.symm
  | cons u us ih =>
    rw [List.foldlM_cons, Option.bind_eq_bind, Option.bind_eq_some_iff] at h
    obtain ⟨d', hu, hus⟩ := h
    rw [List.cons_append, (of_inner? hu).1, ih hus, Option.map_map]
    rfl

/-- Words that part nothing belong to one part. -/
theorem parts_append (h : us.foldlM Word.inner? depth = some d) (ws : List (Word α)) :
    parts depth (us ++ ws) = (parts d ws).modifyHead (us ++ ·) := by
  induction us generalizing depth with
  | nil =>
    cases h
    exact (congrFun List.modifyHead_id _).symm
  | cons u us ih =>
    rw [List.foldlM_cons, Option.bind_eq_bind, Option.bind_eq_some_iff] at h
    obtain ⟨d', hu, hus⟩ := h
    rw [List.cons_append, (of_inner? hu).2, ih hus, List.modifyHead_modifyHead]
    rfl

end Parentheses

/-! ### Expressions of the grammar -/

private theorem walk_grouped {p : Place}
    (h : e.walk sp (.operand, depth + 1) = some (.operator, depth + 1)) :
    Expression.walk sp (Expression.grouped e) (p, depth) = some (.operator, depth) := by
  have hopening : Token.opening.step sp (p, depth) = some (.operand, depth + 1) := by
    cases p <;> rfl
  rw [Expression.grouped, List.cons_append, Expression.walk_cons, hopening, Option.bind_some,
    Expression.walk_append, h]
  rfl

private theorem walk_between {w : Token α} {l r : Expression α}
    (hl : l.walk sp (.operand, depth) = some (.operator, depth))
    (hw : w.step sp (.operator, depth) = some (.operand, depth))
    (hr : r.walk sp (.operand, depth) = some (.operator, depth)) :
    Expression.walk sp (l ++ w :: r) (.operand, depth) = some (.operator, depth) := by
  rw [Expression.walk_append, hl, Option.bind_some, Expression.walk_cons, hw]
  exact hr

mutual

/-- An expression of the grammar is ordered if there are no signs in it. -/
theorem Reads.walk : {n : Nat} → {e : Expression α} → {t : Term α} → Reads n e t →
    .negative ∉ e → ∀ depth, e.walk sp (.operand, depth) = some (.operator, depth)
  | _, _, _, .number _, _, _ => rfl
  | _, _, _, .whole _, _, _ => rfl
  | _, _, _, .variable _, _, _ => rfl
  | _, _, _, @Reads.group _ e _ h, hn, depth => by
    have hn : .negative ∉ e := fun hm ↦ hn (by simp [Expression.grouped, hm])
    exact walk_grouped (h.walk hn (depth + 1))
  | _, _, _, @Reads.call _ function es _ hs, hn, depth => by
    have hn : .negative ∉ Expression.joined .comma es :=
      fun hm ↦ hn (by simp [Expression.call, Expression.grouped, hm])
    exact walk_grouped (p := .operator) (hs.walk hn depth)
  | _, _, _, .negation _, hn, _ => absurd List.mem_cons_self hn
  | _, _, _, .conversion h, hn, depth => h.walk (fun hm ↦ hn (List.mem_cons_of_mem _ hm)) depth
  | _, _, _, @Reads.binary _ w op n l r _ _ hw _ h k, hn, depth => by
    rw [List.mem_append, List.mem_cons, not_or, not_or] at hn
    have hstep : w.step sp (.operator, depth) = some (.operand, depth) := by
      cases w <;> first | rfl | cases hw
    exact walk_between (h.walk hn.1 depth) hstep (k.walk hn.2.2 depth)
  | _, _, _, @Reads.choice _ c y z _ _ _ hc hy hz, hn, depth => by
    simp only [Expression.choice, List.mem_append, List.mem_cons, not_or] at hn
    obtain ⟨⟨hnc, -, hny⟩, -, hnz⟩ := hn
    have hyes := walk_between (w := .question) (hc.walk hnc depth) rfl (hy.walk hny depth)
    exact walk_between hyes rfl (hz.walk hnz depth)
  | _, _, _, .looser h, hn, depth => h.walk hn depth

/-- Arguments are ordered. -/
theorem ReadAll.walk : {es : List (Expression α)} → {ts : List (Term α)} → ReadAll es ts →
    .negative ∉ Expression.joined .comma es → ∀ depth,
      (Expression.joined .comma es).walk sp (.operand, depth + 1) = some (.operator, depth + 1)
  | _, _, .one h, hn, depth => h.walk hn (depth + 1)
  | _, _, @ReadAll.more _ e _ (e' :: es) _ h hs, hn, depth => by
    have hjoined : Expression.joined .comma (e :: e' :: es) =
      e ++ .comma :: Expression.joined .comma (e' :: es) := rfl
    rw [hjoined, List.mem_append, List.mem_cons, not_or, not_or] at hn
    exact walk_between (h.walk hn.1 _) rfl (hs.walk hn.2.2 depth)

end

end FuzzyInference.CSource
