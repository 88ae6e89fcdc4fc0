import FuzzyInference.Text.Blank
import Mathlib.Data.List.Forall2

/-!
# Patterns

Patterns of single characters and of repeated ones, and what the parts of a text are that a pattern
matches. Of all ways to match, the one counts that is found first when each repetition tries its
lengths in turn, the longest first or the shortest first, and earlier repetitions decide before
later ones.
-/

namespace FuzzyInference.Text

/-- A part of a pattern. -/
inductive Piece where
  /-- One certain character. -/
  | mark (c : Char)
  /-- As many characters of a kind as possible. -/
  | longest (p : Char → Bool)
  /-- As few characters of a kind as possible. -/
  | shortest (p : Char → Bool)

variable {β : Type} {p : Char → Bool} {accept : List Char → Option β} {cs ds : List Char} {b : β}

/-- The first way to go on behind a repetition that tries its longest length first. -/
def takeLongest (p : Char → Bool) (accept : List Char → Option β) :
    List Char → Option (List Char × β)
  | [] => (accept []).map ([], ·)
  | c :: cs =>
    match if p c then takeLongest p accept cs else none with
    | some (taken, found) => some (c :: taken, found)
    | none => (accept (c :: cs)).map ([], ·)

/-- The first way to go on behind a repetition that tries its shortest length first. -/
def takeShortest (p : Char → Bool) (accept : List Char → Option β) :
    List Char → Option (List Char × β)
  | [] => (accept []).map ([], ·)
  | c :: cs =>
    match accept (c :: cs) with
    | some found => some ([], found)
    | none =>
      if p c then (takeShortest p accept cs).map fun (taken, found) ↦ (c :: taken, found) else none

/-- What the pieces of a pattern take of a text that they match as a whole. -/
def firstMatch : List Piece → List Char → Option (List (List Char))
  | [], cs => if cs = [] then some [] else none
  | .mark c :: pieces, cs =>
    match cs with
    | d :: ds => if d = c then (firstMatch pieces ds).map ([c] :: ·) else none
    | [] => none
  | .longest p :: pieces, cs => (takeLongest p (firstMatch pieces) cs).map fun (taken, found) ↦
      taken :: found
  | .shortest p :: pieces, cs => (takeShortest p (firstMatch pieces) cs).map fun (taken, found) ↦
      taken :: found

/-! ### What pieces take -/

/-- What a repetition takes, longest length first. -/
theorem of_takeLongest {taken : List Char} (h : takeLongest p accept cs = some (taken, b)) :
    ∃ rest, cs = taken ++ rest ∧ (∀ c ∈ taken, p c = true) ∧ accept rest = some b := by
  have hstop {cs taken : List Char} (h : (accept cs).map ([], ·) = some (taken, b)) :
      ∃ rest, cs = taken ++ rest ∧ (∀ c ∈ taken, p c = true) ∧ accept rest = some b := by
    obtain ⟨_, hb, he⟩ := Option.map_eq_some_iff.mp h
    cases he
    exact ⟨cs, rfl, nofun, hb⟩
  induction cs generalizing taken with
  | nil => exact hstop h
  | cons c cs ih =>
    rw [takeLongest] at h
    split at h
    · next taken' found heq =>
      cases h
      obtain ⟨hc, heq⟩ := Option.ite_none_right_eq_some.mp heq
      obtain ⟨rest, rfl, hall, hrest⟩ := ih heq
      exact ⟨rest, rfl, List.forall_mem_cons.mpr ⟨hc, hall⟩, hrest⟩
    · exact hstop h

/-- What a repetition takes, shortest length first. -/
theorem of_takeShortest {taken : List Char} (h : takeShortest p accept cs = some (taken, b)) :
    ∃ rest, cs = taken ++ rest ∧ (∀ c ∈ taken, p c = true) ∧ accept rest = some b := by
  induction cs generalizing taken with
  | nil =>
    obtain ⟨_, hb, he⟩ := Option.map_eq_some_iff.mp h
    cases he
    exact ⟨[], rfl, nofun, hb⟩
  | cons c cs ih =>
    rw [takeShortest] at h
    split at h
    · next found hfound =>
      cases h
      exact ⟨c :: cs, rfl, nofun, hfound⟩
    · obtain ⟨hc, h⟩ := Option.ite_none_right_eq_some.mp h
      obtain ⟨⟨taken', _⟩, htaken, he⟩ := Option.map_eq_some_iff.mp h
      cases he
      obtain ⟨rest, rfl, hall, hrest⟩ := ih htaken
      exact ⟨rest, rfl, List.forall_mem_cons.mpr ⟨hc, hall⟩, hrest⟩

/-- A text that a piece can take. -/
def Piece.Takes : Piece → List Char → Prop
  | mark c, taken => taken = [c]
  | longest p, taken => ∀ c ∈ taken, p c = true
  | shortest p, taken => ∀ c ∈ taken, p c = true

/-- The pieces take what they can, and all of the text together. -/
theorem of_firstMatch {pieces : List Piece} {parts : List (List Char)}
    (h : firstMatch pieces cs = some parts) :
    List.Forall₂ Piece.Takes pieces parts ∧ cs = parts.flatten := by
  induction pieces generalizing cs parts with
  | nil =>
    rw [firstMatch, Option.ite_none_right_eq_some] at h
    obtain ⟨rfl, h⟩ := h
    cases h
    exact ⟨.nil, rfl⟩
  | cons piece pieces ih =>
    cases piece with
    | mark c =>
      cases cs with
      | nil => cases h
      | cons d ds =>
        rw [firstMatch, Option.ite_none_right_eq_some] at h
        obtain ⟨rfl, h⟩ := h
        obtain ⟨rest, hrest, rfl⟩ := Option.map_eq_some_iff.mp h
        obtain ⟨hall, rfl⟩ := ih hrest
        exact ⟨.cons rfl hall, rfl⟩
    | longest p =>
      obtain ⟨⟨taken, _⟩, htaken, rfl⟩ := Option.map_eq_some_iff.mp h
      obtain ⟨_, rfl, hp, hrest⟩ := of_takeLongest htaken
      obtain ⟨hall, rfl⟩ := ih hrest
      exact ⟨.cons hp hall, rfl⟩
    | shortest p =>
      obtain ⟨⟨taken, _⟩, htaken, rfl⟩ := Option.map_eq_some_iff.mp h
      obtain ⟨_, rfl, hp, hrest⟩ := of_takeShortest htaken
      obtain ⟨hall, rfl⟩ := ih hrest
      exact ⟨.cons hp hall, rfl⟩

/-! ### Matching piece by piece -/

section Pieces

variable {pieces : List Piece} {parts : List (List Char)}

/-- A character is matched by itself. -/
theorem firstMatch_mark (c : Char) (h : firstMatch pieces ds = some parts) :
    firstMatch (.mark c :: pieces) (c :: ds) = some ([c] :: parts) := by
  rw [firstMatch, if_pos rfl, h, Option.map_some]

/-- The longest repetition is one behind which no longer one leads to a match. -/
theorem firstMatch_longest (hp : ∀ c ∈ cs, p c = true)
    (hlonger : ∀ before after, ds = before ++ after → before ≠ [] → (∀ c ∈ before, p c = true) →
      firstMatch pieces after = none)
    (h : firstMatch pieces ds = some parts) :
    firstMatch (.longest p :: pieces) (cs ++ ds) = some (cs :: parts) := by
  have hnone : ∀ taken found, takeLongest p (firstMatch pieces) ds = some (taken, found) →
      taken = [] := by
    intro taken found htaken
    obtain ⟨rest, hsplit, htakenp, hrest⟩ := of_takeLongest htaken
    by_contra hne
    rw [hlonger taken rest hsplit hne htakenp] at hrest
    cases hrest
  have hstop : takeLongest p (firstMatch pieces) ds = some ([], parts) := by
    cases ds with
    | nil => rw [takeLongest, h, Option.map_some]
    | cons d ds =>
      rw [takeLongest]
      split
      · next taken found heq =>
        refine absurd (hnone (d :: taken) found ?_) (List.cons_ne_nil _ _)
        rw [takeLongest, heq]
      · rw [h, Option.map_some]
  have hall : takeLongest p (firstMatch pieces) (cs ++ ds) = some (cs, parts) := by
    induction cs with
    | nil => exact hstop
    | cons c cs ih =>
      obtain ⟨hc, hcs⟩ := List.forall_mem_cons.mp hp
      rw [List.cons_append, takeLongest, if_pos hc, ih hcs]
  rw [firstMatch, hall, Option.map_some]

/-- The shortest repetition is one in front of which no shorter one leads to a match. -/
theorem firstMatch_shortest (hp : ∀ c ∈ cs, p c = true)
    (hshorter : ∀ before after, cs = before ++ after → after ≠ [] →
      firstMatch pieces (after ++ ds) = none)
    (h : firstMatch pieces ds = some parts) :
    firstMatch (.shortest p :: pieces) (cs ++ ds) = some (cs :: parts) := by
  have hall : takeShortest p (firstMatch pieces) (cs ++ ds) = some (cs, parts) := by
    induction cs with
    | nil =>
      cases ds with
      | nil => rw [List.nil_append, takeShortest, h, Option.map_some]
      | cons d ds => rw [List.nil_append, takeShortest, h]
    | cons c cs ih =>
      obtain ⟨hc, hcs⟩ := List.forall_mem_cons.mp hp
      have hrest := ih hcs fun before after hsplit ↦
        hshorter (c :: before) after (by rw [hsplit, List.cons_append])
      have hfirst : firstMatch pieces (c :: (cs ++ ds)) = none :=
        hshorter [] (c :: cs) rfl (List.cons_ne_nil _ _)
      rw [List.cons_append, takeShortest, hfirst, if_pos hc, hrest, Option.map_some]
  rw [firstMatch, hall, Option.map_some]

end Pieces

end FuzzyInference.Text
