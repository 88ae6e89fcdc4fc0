import FuzzyInference.FisText.Rule
import FuzzyInference.Proofs.FisText.Line
import FuzzyInference.Proofs.Text.Pattern

/-!
# The pattern of a rule's text

A rule's text `indices, output (weight)` is cut at its first comma and at the first parenthesis
behind that. These are the parts that are found by matching the text against a pattern of its form.
-/

namespace FuzzyInference.FisText

open Text

/-- A character that can stand in a line. -/
def inLine (c : Char) : Bool := c ≠ '\n'

/-- The pattern of a rule's text. The indices and the output index are as short as they can be, and
the weight and the blanks around the parts as long as they can be. -/
def rulePattern : List Piece :=
  [.longest isBlank, .shortest inLine, .mark ',',
    .longest isBlank, .shortest inLine, .longest isBlank,
    .mark '(', .longest inLine, .mark ')', .longest isBlank]

/-- The parts of a rule's text that the pattern finds. -/
def matchedParts? (line : List Char) : Option RuleParts :=
  match firstMatch rulePattern line with
  | some [_, indices, _, _, output, _, _, weight, _, _] => some ⟨indices, output, weight⟩
  | _ => none

variable {line : List Char}

/-! ### Where a text is cut -/

/-- A text with the parts of a rule's text in their places, cut as early as possible. -/
structure CutInto (line : List Char) (parts : RuleParts) : Prop where
  /-- No comma stands in the indices. -/
  comma : ',' ∉ parts.indices
  /-- No opening parenthesis stands in front of the weight. -/
  opening : '(' ∉ parts.output
  /-- The blanks in front do not belong to the indices. -/
  indices : ∀ c rest, parts.indices = c :: rest → isBlank c = false
  /-- The blanks around the output index do not belong to it. -/
  output : Trimmed parts.output
  /-- What stands between the parts are blanks and marks. -/
  line : ∃ l m n r, Blanks l ∧ Blanks m ∧ Blanks n ∧ Blanks r ∧ (parts.output = [] → n = []) ∧
    line = l ++ (parts.indices ++ ',' :: (m ++ (parts.output ++ (n ++ '(' ::
      (parts.weight ++ ')' :: r)))))

private theorem exists_trimStart (cs : List Char) :
    ∃ l, Blanks l ∧ cs = l ++ trimStart cs ∧
      ∀ c rest, trimStart cs = c :: rest → isBlank c = false :=
  ⟨cs.takeWhile isBlank, fun _ ↦ List.mem_takeWhile_imp, List.takeWhile_append_dropWhile.symm,
    fun _ _ ↦ of_dropWhile_eq_cons⟩

private theorem trimmed_trimEnd {cs ds : List Char}
    (hfirst : ∀ c rest, cs ++ ds = c :: rest → isBlank c = false) : Trimmed (trimEnd cs) := by
  have htrim : trim cs = trimEnd cs := by
    rw [trim, trimStart]
    cases cs with
    | nil => rfl
    | cons c cs => rw [List.dropWhile_cons_of_neg (by simp [hfirst c _ rfl])]
  exact htrim ▸ trimmed_trim cs

/-- The parts that a rule's text is cut into are in their places. -/
theorem cutInto_of_ruleParts? {parts : RuleParts} (h : ruleParts? line = some parts) :
    CutInto line parts := by
  obtain ⟨⟨indices, comma, rest⟩, hcomma, h⟩ := Option.bind_eq_some_iff.mp h
  obtain ⟨⟨before, opening, tail⟩, hopening, h⟩ := Option.bind_eq_some_iff.mp h
  obtain ⟨hline, hmark, hindices⟩ := splitFirst_eq_some hcomma
  obtain ⟨hrest, hmark', hbefore⟩ := splitFirst_eq_some hopening
  obtain rfl : comma = ',' := of_decide_eq_true hmark
  obtain rfl : opening = '(' := of_decide_eq_true hmark'
  dsimp only at h
  split at h
  · next weight hweight =>
    cases h
    obtain ⟨l, hl, hstart, hfirst⟩ := exists_trimStart line
    obtain ⟨m, hm, hmiddle, hfirst'⟩ := exists_trimStart rest
    obtain ⟨n, hn, hgap⟩ := exists_trimEnd before
    obtain ⟨r, hr, hend⟩ := exists_trimEnd tail
    rw [List.reverse_eq_iff, List.reverse_cons] at hweight
    have hnone {c : Char} {cs : List Char} (h : ∀ d ∈ cs, decide (d = c) = false) : c ∉ cs :=
      fun hm ↦ of_decide_eq_false (h c hm) rfl
    have houtput : Trimmed (trimEnd before) := trimmed_trimEnd (hrest ▸ hfirst')
    refine ⟨hnone hindices, fun hm ↦ hnone hbefore ?_, fun c cs hc ↦ ?_, houtput,
      l, m, n, r, hl, hm, hn, hr, fun hempty ↦ ?_, ?_⟩
    · rw [hgap]
      exact List.mem_append_left _ hm
    · have hc : indices = c :: cs := hc
      exact hfirst c (cs ++ ',' :: rest) (by rw [hline, hc, List.cons_append])
    · -- Blanks alone would have been taken off in front.
      cases n with
      | nil => rfl
      | cons c n =>
        have hempty : trimEnd before = [] := hempty
        rw [hempty, List.nil_append] at hgap
        have hblank := hfirst' c (n ++ '(' :: tail) (by rw [hrest, hgap, List.cons_append])
        rw [hn c List.mem_cons_self] at hblank
        cases hblank
    · rw [hweight] at hend
      rw [hstart, hline, hmiddle, hrest, hend]
      nth_rewrite 1 [hgap]
      simp
  · cases h

private theorem exists_trimStart_append {c : Char} (hc : isBlank c = false) (cs ds : List Char) :
    ∃ before, trimStart (cs ++ c :: ds) = before ++ c :: ds := by
  induction cs with
  | nil => exact ⟨[], List.dropWhile_cons_of_neg (by simp [hc])⟩
  | cons b cs ih =>
    by_cases hb : isBlank b = true
    · obtain ⟨before, hbefore⟩ := ih
      exact ⟨before, (List.dropWhile_cons_of_pos hb).trans hbefore⟩
    · exact ⟨b :: cs, List.dropWhile_cons_of_neg hb⟩

private theorem exists_splitFirst (mark : Char) (cs ds : List Char) :
    ∃ before between, splitFirst (· = mark) (cs ++ mark :: ds) =
      some (before, mark, between ++ ds) := by
  induction cs with
  | nil => exact ⟨[], [], if_pos (decide_eq_true rfl)⟩
  | cons c cs ih =>
    by_cases hc : c = mark
    · subst hc
      exact ⟨[], cs ++ [c], by simp [splitFirst]⟩
    · obtain ⟨before, between, hsplit⟩ := ih
      refine ⟨c :: before, between, ?_⟩
      rw [List.cons_append, splitFirst, if_neg (by simp [hc]), hsplit, Option.map_some]

/-- A text with the marks of a rule's text in their order can be cut. -/
theorem exists_ruleParts? {cs ds ws r : List Char} (hr : Blanks r)
    (hline : line = cs ++ ',' :: (ds ++ '(' :: (ws ++ ')' :: r))) :
    ∃ parts, ruleParts? line = some parts := by
  obtain ⟨front, hfront⟩ := exists_trimStart_append (c := ',') (by decide) cs
    (ds ++ '(' :: (ws ++ ')' :: r))
  obtain ⟨indices, between, hcomma⟩ := exists_splitFirst ',' front (ds ++ '(' :: (ws ++ ')' :: r))
  obtain ⟨middle, hmiddle⟩ := exists_trimStart_append (c := '(') (by decide) (between ++ ds)
    (ws ++ ')' :: r)
  obtain ⟨output, inside, hopening⟩ := exists_splitFirst '(' middle (ws ++ ')' :: r)
  have hend : trimEnd (inside ++ (ws ++ ')' :: r)) = (inside ++ ws) ++ [')'] := by
    have hsplit : inside ++ (ws ++ ')' :: r) = (inside ++ ws) ++ [')'] ++ r := by simp
    rw [hsplit, trimEnd, dropEndWhile_append hr, dropEndWhile_of_last (by decide)]
  refine ⟨⟨indices, trimEnd output, (inside ++ ws)⟩, ?_⟩
  rw [List.append_assoc] at hmiddle
  simp only [ruleParts?, hline, hfront, hcomma, Option.bind_eq_bind, Option.bind_some, hmiddle,
    hopening, hend, List.reverse_append, List.reverse_singleton, List.singleton_append]
  simp

/-! ### What the pattern finds -/

section Pattern

variable {pieces : List Piece} {parts : List (List Char)} {cs ds : List Char}

private theorem firstMatch_blanks (hblanks : Blanks cs)
    (hfirst : ∀ c rest, ds = c :: rest → isBlank c = false)
    (h : firstMatch pieces ds = some parts) :
    firstMatch (.longest isBlank :: pieces) (cs ++ ds) = some (cs :: parts) := by
  refine firstMatch_longest hblanks (fun before after hsplit hne hbefore ↦ ?_) h
  obtain ⟨c, before, rfl⟩ := List.exists_cons_of_ne_nil hne
  have hc := hfirst c (before ++ after) (by rw [hsplit, List.cons_append])
  rw [hbefore c List.mem_cons_self] at hc
  cases hc

private theorem firstMatch_weight {weight r : List Char} (hweight : '\n' ∉ weight)
    (hr : Blanks r) :
    firstMatch [.longest inLine, .mark ')', .longest isBlank] (weight ++ ')' :: r) =
      some [weight, [')'], r] := by
  have hblanks : firstMatch [.longest isBlank] r = some [r] := by
    have hmatch : firstMatch [.longest isBlank] (r ++ []) = some [r] :=
      firstMatch_blanks hr nofun (if_pos rfl)
    rwa [List.append_nil] at hmatch
  refine firstMatch_longest (fun c hc ↦ decide_eq_true fun hn ↦ hweight (hn ▸ hc)) ?_
    (firstMatch_mark ')' hblanks)
  -- Behind the last parenthesis there are blanks only.
  intro before after hsplit hne _
  obtain ⟨c, before, rfl⟩ := List.exists_cons_of_ne_nil hne
  cases hsplit
  cases after with
  | nil => rfl
  | cons c after =>
    have hc : c ≠ ')' := by
      rintro rfl
      cases hr ')' (List.mem_append_right _ List.mem_cons_self)
    rw [firstMatch, if_neg hc]

private theorem firstMatch_output {output n : List Char} (hline : '\n' ∉ output)
    (hopening : '(' ∉ output) (houtput : Trimmed output) (hn : Blanks n)
    (h : firstMatch pieces ds = some parts) :
    firstMatch (.shortest inLine :: .longest isBlank :: .mark '(' :: pieces)
      (output ++ (n ++ '(' :: ds)) = some (output :: n :: ['('] :: parts) := by
  have hblank : ∀ {cs : List Char}, Blanks cs → '(' ∉ cs := fun hcs hm ↦ by cases hcs _ hm
  refine firstMatch_shortest (fun c hc ↦ decide_eq_true fun hnl ↦ hline (hnl ▸ hc)) ?_
    (firstMatch_blanks hn (by rintro c rest ⟨⟩; rfl) (firstMatch_mark '(' h))
  intro before after hsplit hne
  rw [Option.eq_none_iff_forall_ne_some]
  intro found hfound
  obtain ⟨htakes, htext⟩ := of_firstMatch hfound
  obtain ⟨taken, _, htaken, hmarks, rfl⟩ := List.forall₂_cons_left_iff.mp htakes
  obtain ⟨_, rest, rfl, -, rfl⟩ := List.forall₂_cons_left_iff.mp hmarks
  -- What is left of the output index would have to be blank up to the parenthesis.
  have hcut : splitFirst (· = '(') ((after ++ n) ++ '(' :: ds) =
      splitFirst (· = '(') (taken ++ '(' :: rest.flatten) := by
    rw [List.append_assoc, htext]
    rfl
  have hafter : '(' ∉ after ++ n := by
    rw [List.mem_append, not_or]
    exact ⟨fun hm ↦ hopening (hsplit ▸ List.mem_append_right _ hm), hblank hn⟩
  have hother {cs : List Char} (h : '(' ∉ cs) : ∀ c ∈ cs, decide (c = '(') = false :=
    fun c hc ↦ decide_eq_false fun he ↦ h (he ▸ hc)
  rw [splitFirst_append (hother hafter) (decide_eq_true rfl),
    splitFirst_append (hother (hblank htaken)) (decide_eq_true rfl), Option.some.injEq,
    Prod.mk.injEq] at hcut
  obtain ⟨a, last, rfl⟩ := (List.eq_nil_or_concat after).resolve_left hne
  have hlast : isBlank last = false := by
    rcases houtput with rfl | houtput
    · simp at hsplit
    · obtain ⟨front, b, hb, hblank⟩ := houtput.last
      rw [hsplit, List.concat_eq_append, ← List.append_assoc] at hb
      have hb := (List.append_inj' hb rfl).2
      rwa [List.singleton_inj.mp hb]
  have hblanklast := htaken last (hcut.1 ▸ by simp)
  rw [hlast] at hblanklast
  cases hblanklast

private theorem firstMatch_indices {indices : List Char} (hline : '\n' ∉ indices)
    (hcomma : ',' ∉ indices) (h : firstMatch pieces ds = some parts) :
    firstMatch (.shortest inLine :: .mark ',' :: pieces) (indices ++ ',' :: ds) =
      some (indices :: [','] :: parts) := by
  refine firstMatch_shortest (fun c hc ↦ decide_eq_true fun hn ↦ hline (hn ▸ hc)) ?_
    (firstMatch_mark ',' h)
  intro before after hsplit hne
  obtain ⟨c, after, rfl⟩ := List.exists_cons_of_ne_nil hne
  have hc : c ≠ ',' := by
    rintro rfl
    exact hcomma (hsplit ▸ by simp)
  rw [List.cons_append, firstMatch, if_neg hc]

end Pattern

/-- In a line, the parts that a rule's text is cut into are those that the pattern finds. -/
theorem ruleParts?_eq_matchedParts? (hline : '\n' ∉ line) :
    ruleParts? line = matchedParts? line := by
  cases hparts : ruleParts? line with
  | some parts =>
    have hcut := cutInto_of_ruleParts? hparts
    obtain ⟨l, m, n, r, hl, hm, hn, hr, hgap, rfl⟩ := hcut.line
    simp only [List.mem_append, List.mem_cons, not_or] at hline
    obtain ⟨-, hindices, -, -, houtput, -, -, hweight, -⟩ := hline
    have hmatch := firstMatch_blanks hl ?_ (firstMatch_indices hindices hcut.comma
      (firstMatch_blanks hm ?_ (firstMatch_output houtput hcut.opening hcut.output hn
        (firstMatch_weight hweight hr))))
    · rw [matchedParts?, rulePattern, hmatch]
    · intro c rest hc
      cases hi : parts.indices with
      | nil =>
        rw [hi] at hc
        cases hc
        rfl
      | cons d indices =>
        rw [hi] at hc
        cases hc
        exact hcut.indices _ _ hi
    · intro c rest hc
      rcases hcut.output with ho | ho
      · rw [hgap ho, ho] at hc
        cases hc
        rfl
      · obtain ⟨a, output, ho, ha⟩ := ho.first
        rw [ho] at hc
        cases hc
        exact ha
  | none =>
    cases hmatched : firstMatch rulePattern line with
    | none => rw [matchedParts?, hmatched]
    | some found =>
      obtain ⟨htakes, htext⟩ := of_firstMatch hmatched
      simp only [rulePattern, List.forall₂_cons_left_iff, List.forall₂_nil_left_iff,
        Piece.Takes] at htakes
      obtain ⟨l, _, -, ⟨indices, _, -, ⟨_, _, rfl, ⟨m, _, -, ⟨output, _, -, ⟨n, _, -, ⟨_, _, rfl,
        ⟨weight, _, -, ⟨_, _, rfl, ⟨r, _, hr, rfl, rfl⟩, rfl⟩, rfl⟩, rfl⟩, rfl⟩, rfl⟩, rfl⟩, rfl⟩,
        rfl⟩, rfl⟩ := htakes
      have hline : line =
          (l ++ indices) ++ ',' :: ((m ++ output ++ n) ++ '(' :: (weight ++ ')' :: r)) := by
        rw [htext]
        simp
      obtain ⟨parts, hsome⟩ := exists_ruleParts? hr hline
      rw [hparts] at hsome
      cases hsome

end FuzzyInference.FisText
