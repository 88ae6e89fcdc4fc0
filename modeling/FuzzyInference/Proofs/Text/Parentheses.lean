import Mathlib.Data.List.TakeWhile

/-!
# Texts in parentheses

Where a text in parentheses ends can be told from the text: the parenthesis that closes it is the
first one that closes more than was opened. So texts that are put in parentheses are told apart by
what comes out, whatever follows them.
-/

namespace FuzzyInference.Text

/-- A text in which every parenthesis has its partner. -/
inductive Balanced : List Char → Prop
  /-- The empty text. -/
  | nil : Balanced []
  /-- Another character in front. -/
  | cons {c : Char} {cs : List Char} : c ≠ '(' → c ≠ ')' → Balanced cs → Balanced (c :: cs)
  /-- A text in parentheses in front. -/
  | nest {cs ds : List Char} : Balanced cs → Balanced ds → Balanced ('(' :: (cs ++ ')' :: ds))

namespace Balanced

variable {cs ds rest rest' : List Char}

/-- A text without parentheses. -/
theorem of_forall (h : ∀ c ∈ cs, c ≠ '(' ∧ c ≠ ')') : Balanced cs := by
  induction cs with
  | nil => exact nil
  | cons c cs ih =>
    rw [List.forall_mem_cons] at h
    exact cons h.1.1 h.1.2 (ih h.2)

/-- Two such texts one behind the other. -/
theorem append (hc : Balanced cs) (hd : Balanced ds) : Balanced (cs ++ ds) := by
  induction hc with
  | nil => exact hd
  | cons hopen hclose _ ih => exact cons hopen hclose ih
  | nest hinner _ _ ih =>
    rw [List.cons_append, List.append_assoc, List.cons_append]
    exact nest hinner ih

/-- Such a text ends at the first parenthesis that closes more than it opens. -/
theorem append_close_inj (hc : Balanced cs) (hd : Balanced ds)
    (h : cs ++ ')' :: rest = ds ++ ')' :: rest') : cs = ds ∧ rest = rest' := by
  induction hc generalizing ds rest rest' with
  | nil =>
    cases hd with
    | nil => exact ⟨rfl, (List.cons.inj h).2⟩
    | cons _ hclose _ => exact absurd (List.cons.inj h).1.symm hclose
    | nest _ _ => cases h
  | cons hopen hclose _ ih =>
    cases hd with
    | nil => exact absurd (List.cons.inj h).1 hclose
    | cons _ _ hd =>
      rw [List.cons_append, List.cons_append, List.cons.injEq] at h
      obtain ⟨hcs, hrest⟩ := ih hd h.2
      exact ⟨by rw [h.1, hcs], hrest⟩
    | nest _ _ => exact absurd (List.cons.inj h).1 hopen
  | nest _ _ ihinner ihouter =>
    cases hd with
    | nil => cases h
    | cons hopen _ _ => exact absurd (List.cons.inj h).1.symm hopen
    | nest hinner houter =>
      rw [List.cons_append, List.cons_append, List.cons.injEq, List.append_assoc, List.append_assoc,
        List.cons_append, List.cons_append] at h
      obtain ⟨hcs, hbehind⟩ := ihinner hinner h.2
      obtain ⟨hds, hrest⟩ := ihouter houter hbehind
      exact ⟨by rw [hcs, hds], hrest⟩

end Balanced

/-! ### Marks -/

/-- A text is empty or begins with a mark. -/
def StartsAt (mark : Char) (cs : List Char) : Prop := cs = [] ∨ ∃ rest, cs = mark :: rest

/-- What stands in front of the first mark is told from what follows. -/
theorem append_startsAt_inj {mark : Char} {before before' after after' : List Char}
    (hb : mark ∉ before) (hb' : mark ∉ before') (ha : StartsAt mark after)
    (ha' : StartsAt mark after') (h : before ++ after = before' ++ after') :
    before = before' ∧ after = after' := by
  have hcut {before after : List Char} (hb : mark ∉ before) (ha : StartsAt mark after) :
      (before ++ after).takeWhile (· ≠ mark) = before := by
    have hbefore : ∀ c ∈ before, decide (c ≠ mark) = true := by
      intro c hc
      rw [decide_eq_true_eq]
      rintro rfl
      exact hb hc
    have hafter : after.takeWhile (· ≠ mark) = [] := by
      rcases ha with rfl | ⟨rest, rfl⟩
      · rfl
      · simp
    rw [List.takeWhile_append_of_pos hbefore, hafter, List.append_nil]
  have hbefore : before = before' := by rw [← hcut hb ha, h, hcut hb' ha']
  subst hbefore
  exact ⟨rfl, List.append_cancel_left h⟩

end FuzzyInference.Text
