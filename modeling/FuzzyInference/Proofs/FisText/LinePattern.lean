import FuzzyInference.Proofs.FisText.RulePattern

/-!
# The patterns of headers and membership functions

The name in a header and the parts of a membership function are found by cutting a line at its
brackets, quotes and marks. They are what matching the line against a pattern of its form finds.
-/

namespace FuzzyInference.FisText

open Text

/-- The pattern of a header. -/
def headerPattern : List Piece := [.mark '[', .longest inLine, .mark ']']

/-- The name in a header that the pattern finds; it must not be empty. -/
def matchedName? (line : List Char) : Option (List Char) :=
  match firstMatch headerPattern line with
  | some [_, name, _] => if name = [] then none else some name
  | _ => none

/-- The pattern of a list of parameters, behind the kind. -/
def listPattern : List Piece :=
  [.longest isBlank, .mark ',', .longest isBlank, .mark '[', .longest inLine, .mark ']']

/-- The pattern of a kind and a list of parameters, behind the label. -/
def kindPattern : List Piece :=
  .longest isBlank :: .mark ':' :: .longest isBlank :: .mark '\x27' :: .longest inLine ::
    .mark '\x27' :: listPattern

/-- The pattern of a membership function. Its label, its kind and its parameters are as long as they
can be. -/
def membershipPattern : List Piece :=
  .mark '\x27' :: .longest inLine :: .mark '\x27' :: kindPattern

/-- The label, the kind and the parameters of a membership function that the pattern finds. -/
def matchedMembership? (line : List Char) : Option (List Char × List Char × List Char) :=
  (firstMatch membershipPattern line).map fun parts ↦
    (parts.getD 1 [], parts.getD 7 [], parts.getD 13 [])

variable {pieces : List Piece} {cs line : List Char}

/-- Only the last character of a line can stand behind the rest. -/
theorem firstMatch_enclosed (h : '\n' ∉ cs) (c : Char) :
    firstMatch [.longest inLine, .mark c] cs =
      match cs.reverse with
      | d :: body => if d = c then some [body.reverse, [c]] else none
      | [] => none := by
  cases hcs : cs.reverse with
  | nil =>
    rw [List.reverse_eq_nil_iff.mp hcs]
    rfl
  | cons d body =>
    obtain rfl : cs = body.reverse ++ [d] := by
      rw [← List.reverse_cons, ← hcs, List.reverse_reverse]
    by_cases hd : d = c
    · subst hd
      have hline : ∀ b ∈ body.reverse, inLine b = true := fun b hb ↦
        decide_eq_true fun hn ↦ h (hn ▸ List.mem_append_left _ hb)
      have hlast : firstMatch [.mark d] [d] = some [[d]] := firstMatch_mark d (if_pos rfl)
      refine (firstMatch_longest hline (fun before after hsplit hne _ ↦ ?_) hlast).trans
        (if_pos rfl).symm
      -- Nothing is left behind the last character.
      obtain ⟨b, before, rfl⟩ := List.exists_cons_of_ne_nil hne
      rw [List.cons_append, List.cons.injEq, List.nil_eq, List.append_eq_nil_iff] at hsplit
      rw [hsplit.2.2]
      rfl
    · refine Eq.trans (Option.eq_none_iff_forall_ne_some.mpr fun parts hparts ↦ hd ?_)
        (if_neg hd).symm
      obtain ⟨htakes, htext⟩ := of_firstMatch hparts
      obtain ⟨taken, _, -, hmark, rfl⟩ := List.forall₂_cons_left_iff.mp htakes
      obtain ⟨_, _, rfl, hnil, rfl⟩ := List.forall₂_cons_left_iff.mp hmark
      cases hnil
      simpa using (List.append_inj' htext rfl).2

/-- Behind all blanks there is one place for a mark that is no blank. -/
theorem firstMatch_afterMark {β : Type} {mark : Char} (hmark : isBlank mark = false)
    (pick : List (List Char) → β) :
    (firstMatch (.longest isBlank :: .mark mark :: pieces) cs).map
      (fun parts ↦ pick (parts.drop 2)) =
      (afterMark mark cs).bind fun rest ↦ (firstMatch pieces rest).map pick := by
  have htake : (takeLongest isBlank (firstMatch (.mark mark :: pieces)) cs).map
      (fun found ↦ pick (found.2.drop 1)) =
        (afterMark mark cs).bind fun rest ↦ (firstMatch pieces rest).map pick := by
    induction cs with
    | nil => rfl
    | cons c cs ih =>
      rw [takeLongest]
      cases hc : isBlank c with
      | true =>
        have hne : c ≠ mark := by
          rintro rfl
          rw [hc] at hmark
          cases hmark
        have hafter : afterMark mark (c :: cs) = afterMark mark cs := by
          rw [afterMark, afterMark, trimStart, trimStart, List.dropWhile_cons_of_pos hc]
        rw [hafter, ← ih, if_pos rfl]
        cases takeLongest isBlank (firstMatch (.mark mark :: pieces)) cs with
        | some found => rfl
        | none => rw [firstMatch, if_neg hne, Option.map_none]
      | false =>
        have hafter : afterMark mark (c :: cs) = if c = mark then some cs else none := by
          rw [afterMark, trimStart, List.dropWhile_cons_of_neg (by simp [hc])]
        rw [hafter, if_neg Bool.false_ne_true]
        by_cases hm : c = mark
        · simp [firstMatch, hm, Function.comp_def]
        · simp [firstMatch, hm]
  rw [← htake, firstMatch, Option.map_map]
  rfl

private theorem subset_of_afterMark {mark : Char} {rest : List Char}
    (h : afterMark mark cs = some rest) : rest ⊆ cs := by
  unfold afterMark at h
  split at h
  · next c _ heq =>
    obtain ⟨-, ⟨⟩⟩ := Option.ite_none_right_eq_some.mp h
    exact fun b hb ↦ (List.dropWhile_suffix _).subset (heq ▸ List.mem_cons_of_mem c hb)
  · cases h

/-- What is found behind the last quote that something is found behind is found by a pattern. -/
theorem cutAtLastQuote_eq {β : Type} {accept : List Char → Option β} {pick : List (List Char) → β}
    (haccept : ∀ rest, '\n' ∉ rest → accept rest = (firstMatch pieces rest).map pick)
    (h : '\n' ∉ cs) :
    cutAtLastQuote accept cs =
      (firstMatch (.longest inLine :: .mark '\x27' :: pieces) cs).map fun parts ↦
        (parts.getD 0 [], pick (parts.drop 2)) := by
  have htake : cutAtLastQuote accept cs =
      (takeLongest inLine (firstMatch (.mark '\x27' :: pieces)) cs).map fun found ↦
        (found.1, pick (found.2.drop 1)) := by
    induction cs with
    | nil => rfl
    | cons c cs ih =>
      rw [List.mem_cons, not_or] at h
      have hc : inLine c = true := decide_eq_true (Ne.symm h.1)
      rw [cutAtLastQuote, takeLongest, if_pos hc, ih h.2]
      cases takeLongest inLine (firstMatch (.mark '\x27' :: pieces)) cs with
      | some found => rfl
      | none =>
        simp only [Option.map_none, firstMatch]
        split <;> simp [haccept cs h.2, Function.comp_def]
  rw [htake, firstMatch, Option.map_map]
  rfl

/-- In a line, the name between brackets is the one that the pattern finds. -/
theorem bracketed?_eq_matchedName? (hline : '\n' ∉ line) : bracketed? line = matchedName? line := by
  cases line with
  | nil => rfl
  | cons c rest =>
    rw [matchedName?, headerPattern, firstMatch]
    by_cases hc : c = '['
    · rw [if_pos hc, firstMatch_enclosed (fun hm ↦ hline (List.mem_cons_of_mem c hm)), hc,
        bracketed?]
      cases rest.reverse with
      | nil => rfl
      | cons d body =>
        by_cases hd : d = ']'
        · subst hd
          cases body with
          | nil => rfl
          | cons b body => simp
        · simp [hd]
    · rw [if_neg hc]
      simp [bracketed?, hc]

private theorem parameterList?_eq (h : '\n' ∉ cs) :
    parameterList? cs = (firstMatch listPattern cs).map (·.getD 4 []) := by
  have hpick : (fun parts : List (List Char) ↦ parts.getD 4 []) =
      fun parts ↦ ((parts.drop 2).drop 2).getD 0 [] := by simp
  rw [listPattern, hpick, firstMatch_afterMark (by decide) fun parts ↦ (parts.drop 2).getD 0 [],
    parameterList?]
  cases hcomma : afterMark ',' cs with
  | none => rfl
  | some rest =>
    simp only [Option.bind_eq_bind, Option.bind_some]
    rw [firstMatch_afterMark (by decide) (·.getD 0 [])]
    cases hbracket : afterMark '[' rest with
    | none => rfl
    | some inner =>
      have hinner : '\n' ∉ inner := fun hm ↦
        h (subset_of_afterMark hcomma (subset_of_afterMark hbracket hm))
      rw [Option.bind_some, Option.bind_some, firstMatch_enclosed hinner]
      cases inner.reverse with
      | nil => rfl
      | cons d body => by_cases hd : d = ']' <;> simp [hd]

private theorem kindAndParameters?_eq (h : '\n' ∉ cs) :
    kindAndParameters? cs =
      (firstMatch kindPattern cs).map fun parts ↦ (parts.getD 4 [], parts.getD 10 []) := by
  have hpick : (fun parts : List (List Char) ↦ (parts.getD 4 [], parts.getD 10 [])) =
      fun parts ↦
        (((parts.drop 2).drop 2).getD 0 [], (((parts.drop 2).drop 2).drop 2).getD 4 []) := by
    simp
  rw [kindPattern, hpick, firstMatch_afterMark (by decide) fun parts ↦
    ((parts.drop 2).getD 0 [], ((parts.drop 2).drop 2).getD 4 []), kindAndParameters?]
  cases hcolon : afterMark ':' cs with
  | none => rfl
  | some rest =>
    simp only [Option.bind_eq_bind, Option.bind_some]
    rw [firstMatch_afterMark (by decide) fun parts ↦ (parts.getD 0 [], (parts.drop 2).getD 4 [])]
    cases hquote : afterMark '\x27' rest with
    | none => rfl
    | some inner =>
      have hinner : '\n' ∉ inner := fun hm ↦
        h (subset_of_afterMark hcolon (subset_of_afterMark hquote hm))
      rw [Option.bind_some, Option.bind_some,
        cutAtLastQuote_eq (fun _ ↦ parameterList?_eq) hinner]

/-- In a line, the parts of a membership function are those that the pattern finds. -/
theorem membershipParts?_eq_matchedMembership? (hline : '\n' ∉ line) :
    membershipParts? line = matchedMembership? line := by
  cases line with
  | nil => rfl
  | cons c rest =>
    rw [matchedMembership?, membershipPattern, firstMatch]
    by_cases hc : c = '\x27'
    · have hrest : '\n' ∉ rest := fun hm ↦ hline (List.mem_cons_of_mem c hm)
      rw [if_pos hc, hc, membershipParts?, cutAtLastQuote_eq (fun _ ↦ kindAndParameters?_eq) hrest,
        Option.map_map]
      simp [Function.comp_def]
    · rw [if_neg hc]
      simp [membershipParts?, hc]

end FuzzyInference.FisText
