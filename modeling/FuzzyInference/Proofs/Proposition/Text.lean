import FuzzyInference.Proofs.Proposition.Resolution
import FuzzyInference.Proofs.Proposition.Singles
import FuzzyInference.Proofs.Text.Parentheses

/-!
# Texts of statements

A statement can be read off its text, up to the connective of combinations of one part, if the names
in it have neither blanks nor parentheses. A text begins with words that tell what kind of statement
it is, the operands stand in parentheses, which are balanced, and the connective stands between each
two of them.
-/

namespace FuzzyInference

open Text Scalar

namespace Statement

/-- A name without blanks and parentheses. -/
def IsWord (name : String) : Prop := ' ' ∉ name.toList ∧ '(' ∉ name.toList ∧ ')' ∉ name.toList

/-- A statement whose names are words and whose combinations have operands. Names may be empty and
negations may have any number of operands: texts tell these apart as well. -/
structure Readable (s : Statement) : Prop where
  /-- The variables and the labels are words. -/
  names : ∀ subject label, is subject label ∈ s.nodes ∨ isNot subject label ∈ s.nodes →
    IsWord subject ∧ IsWord label
  /-- No conjunction is empty. -/
  conjunctions : and [] ∉ s.nodes
  /-- No disjunction is empty. -/
  disjunctions : or [] ∉ s.nodes

variable {s t : Statement} {ss ts : List Statement}

/-- What stands in a readable statement is readable. -/
theorem Readable.mono (h : s.Readable) (ht : t.nodes ⊆ s.nodes) : t.Readable where
  names subject label hl := h.names subject label (hl.imp (fun hl ↦ ht hl) fun hl ↦ ht hl)
  conjunctions hc := h.conjunctions (ht hc)
  disjunctions hd := h.disjunctions (ht hd)

/-! ### Texts and their parts -/

/-- What a text begins with, in front of its first parenthesis. -/
def lead : Statement → List Char
  | is subject label => subject.toList ++ ' ' :: ("is".toList ++ ' ' :: label.toList)
  | isNot subject label =>
    subject.toList ++ ' ' :: ("is".toList ++ ' ' :: ("not".toList ++ ' ' :: label.toList))
  | not _ => "not ".toList
  | and _ | or _ => []

/-- The operands of a negation or a combination. -/
def operands : Statement → List Statement
  | is _ _ | isNot _ _ => []
  | not children | and children | or children => children

/-- What stands between each two operands. -/
def separator : Statement → List Char
  | is _ _ | isNot _ _ => []
  | not _ => " ".toList
  | and _ => " and ".toList
  | or _ => " or ".toList

/-- Operands in parentheses, each with something in front. -/
def enclosedBehind (between : List Char) : List Statement → List Char
  | [] => []
  | s :: rest => between ++ '(' :: (s.text.toList ++ ')' :: enclosedBehind between rest)

/-- Operands in parentheses, with something between each two. -/
def enclosed (between : List Char) : List Statement → List Char
  | [] => []
  | s :: rest => '(' :: (s.text.toList ++ ')' :: enclosedBehind between rest)

/-- What is put in front of all operands. -/
theorem toList_joinedBehind (between : String) (ss : List Statement) :
    (joinedBehind between ss).toList = enclosedBehind between.toList ss := by
  induction ss with
  | nil => rfl
  | cons s ss ih => simp [joinedBehind, enclosedBehind, ih]

/-- What is put between the operands. -/
theorem toList_joined (between : String) (ss : List Statement) :
    (joined between ss).toList = enclosed between.toList ss := by
  cases ss with
  | nil => rfl
  | cons s ss => simp [joined, enclosed, toList_joinedBehind]

/-- A text is a lead and the operands behind it. -/
theorem toList_text (s : Statement) :
    s.text.toList = s.lead ++ enclosed s.separator s.operands := by
  cases s <;> simp [text, lead, separator, operands, toList_joined, enclosed]

/-- Operands begin with a parenthesis, if there are some. -/
theorem startsAt_enclosed (between : List Char) (ss : List Statement) :
    StartsAt '(' (enclosed between ss) := by
  cases ss with
  | nil => exact .inl rfl
  | cons s ss => exact .inr ⟨_, rfl⟩

/-! ### Parentheses -/

/-- A text without parentheses. -/
def Plain (cs : List Char) : Prop := ∀ c ∈ cs, c ≠ '(' ∧ c ≠ ')'

/-- A word has no parentheses. -/
theorem IsWord.plain {name : String} (h : IsWord name) : Plain name.toList := by
  rintro c hc
  exact ⟨by rintro rfl; exact h.2.1 hc, by rintro rfl; exact h.2.2 hc⟩

/-- No separator has parentheses. -/
theorem plain_separator (s : Statement) : Plain s.separator := by
  cases s <;> simp [separator, Plain]

/-- The lead of a readable statement has no parentheses. -/
theorem Readable.plain_lead (h : s.Readable) : Plain s.lead := by
  cases s with
  | is subject label =>
    obtain ⟨hsubject, hlabel⟩ := h.names subject label (.inl (by simp [nodes]))
    have hs := hsubject.plain
    have hl := hlabel.plain
    simp_all [Plain, lead, or_imp, forall_and]
  | isNot subject label =>
    obtain ⟨hsubject, hlabel⟩ := h.names subject label (.inr (by simp [nodes]))
    have hs := hsubject.plain
    have hl := hlabel.plain
    simp_all [Plain, lead, or_imp, forall_and]
  | not ss => simp [Plain, lead]
  | and ss | or ss => simp [Plain, lead]

/-! ### Operands -/

/-- What holds of a statement if it holds of its operands holds of all statements. -/
theorem induction_operands {P : Statement → Prop} (step : ∀ s, (∀ t ∈ s.operands, P t) → P s)
    (s : Statement) : P s := by
  refine step s fun t ht ↦ ?_
  have hlt : sizeOf t < sizeOf s := by
    cases s with
    | is subject label | isNot subject label => cases ht
    | not ss | and ss | or ss =>
      have hmem : sizeOf t < sizeOf ss := List.sizeOf_lt_of_mem ht
      simp only [not.sizeOf_spec, and.sizeOf_spec, or.sizeOf_spec]
      omega
  exact induction_operands step t
termination_by sizeOf s

/-- The operands of a readable statement are readable. -/
theorem Readable.of_mem_operands (h : s.Readable) (ht : t ∈ s.operands) : t.Readable := by
  have hmono {ss : List Statement} (hss : nodesAll ss ⊆ s.nodes) (ht : t ∈ ss) : t.Readable :=
    h.mono fun _ hu ↦ hss (mem_nodesAll_iff.mpr ⟨t, ht, hu⟩)
  cases s with
  | is subject label | isNot subject label => cases ht
  | not ss | and ss | or ss => exact hmono (List.subset_cons_self _ _) ht

/-- Operands whose texts are balanced are balanced together. -/
theorem balanced_enclosedBehind {between : List Char} (hplain : Plain between)
    (h : ∀ s ∈ ss, Balanced s.text.toList) : Balanced (enclosedBehind between ss) := by
  induction ss with
  | nil => exact .nil
  | cons s ss ih =>
    rw [List.forall_mem_cons] at h
    exact (Balanced.of_forall hplain).append (.nest h.1 (ih h.2))

/-- Every parenthesis in the text of a readable statement has its partner. -/
theorem Readable.balanced_text (h : s.Readable) : Balanced s.text.toList := by
  induction s using induction_operands with
  | step s ih =>
    have hall : ∀ t ∈ s.operands, Balanced t.text.toList :=
      fun t ht ↦ ih t ht (h.of_mem_operands ht)
    rw [toList_text]
    refine (Balanced.of_forall h.plain_lead).append ?_
    cases hss : s.operands with
    | nil => exact .nil
    | cons t ss =>
      rw [hss, List.forall_mem_cons] at hall
      exact .nest hall.1 (balanced_enclosedBehind (plain_separator s) hall.2)

/-! ### Reading texts -/

/-- Where the text of a statement in parentheses ends is told from what follows. -/
theorem closed_inj (hs : s.Readable) (ht : t.Readable) {rest rest' : List Char}
    (h : s.text.toList ++ ')' :: rest = t.text.toList ++ ')' :: rest') :
    s.text = t.text ∧ rest = rest' := by
  obtain ⟨htext, hrest⟩ := hs.balanced_text.append_close_inj ht.balanced_text h
  exact ⟨String.toList_injective htext, hrest⟩

section Operands

variable {between between' : List Char} (hplain : Plain between) (hplain' : Plain between')
  (hs : ∀ s ∈ ss, s.Readable) (ht : ∀ t ∈ ts, t.Readable)
  (hread : ∀ s ∈ ss, ∀ t : Statement, t.Readable → s.text = t.text →
    s.singlesConjoined = t.singlesConjoined)

include hplain hplain' hs ht hread

/-- Operands are told from what they are written as, if they are told from their texts, and so is
what stands in front of them. -/
theorem enclosedBehind_inj (h : enclosedBehind between ss = enclosedBehind between' ts) :
    singlesConjoinedAll ss = singlesConjoinedAll ts ∧ (ss ≠ [] → between = between') := by
  induction ss generalizing ts with
  | nil =>
    cases ts with
    | nil => exact ⟨rfl, absurd rfl⟩
    | cons t ts => simp [enclosedBehind] at h
  | cons s ss ih =>
    cases ts with
    | nil => simp [enclosedBehind] at h
    | cons t ts =>
      rw [List.forall_mem_cons] at hs ht hread
      obtain ⟨hbetween, hopened⟩ := append_startsAt_inj (fun hm ↦ (hplain _ hm).1 rfl)
        (fun hm ↦ (hplain' _ hm).1 rfl) (.inr ⟨_, rfl⟩) (.inr ⟨_, rfl⟩) h
      obtain ⟨htext, hbehind⟩ := closed_inj hs.1 ht.1 (List.cons.inj hopened).2
      obtain ⟨hrest, -⟩ := ih hs.2 ht.2 hread.2 hbehind
      refine ⟨?_, fun _ ↦ hbetween⟩
      rw [singlesConjoinedAll, singlesConjoinedAll, hread.1 t ht.1 htext, hrest]

/-- So is what stands between them, if there are two. -/
theorem enclosed_inj (h : enclosed between ss = enclosed between' ts) :
    singlesConjoinedAll ss = singlesConjoinedAll ts ∧ (2 ≤ ss.length → between = between') := by
  cases ss with
  | nil =>
    cases ts with
    | nil => exact ⟨rfl, by simp⟩
    | cons t ts => cases h
  | cons s ss =>
    cases ts with
    | nil => cases h
    | cons t ts =>
      rw [List.forall_mem_cons] at hs ht hread
      obtain ⟨htext, hbehind⟩ := closed_inj hs.1 ht.1 (List.cons.inj h).2
      obtain ⟨hrest, hbetween⟩ :=
        enclosedBehind_inj hplain hplain' hs.2 ht.2 hread.2 hbehind
      refine ⟨?_, fun htwo ↦ hbetween (by rintro rfl; simp at htwo)⟩
      rw [singlesConjoinedAll, singlesConjoinedAll, hread.1 t ht.1 htext, hrest]

end Operands

/-- How many blanks the lead has if no name has any. -/
def blanks : Statement → ℕ
  | is _ _ => 2
  | isNot _ _ => 3
  | not _ => 1
  | and _ | or _ => 0

/-- The lead of a readable statement has as many blanks as its kind says. -/
theorem Readable.count_lead (h : s.Readable) : s.lead.count ' ' = s.blanks := by
  cases s with
  | is subject label =>
    obtain ⟨hsubject, hlabel⟩ := h.names subject label (.inl (by simp [nodes]))
    simp [lead, blanks, List.count_eq_zero.mpr hsubject.1, List.count_eq_zero.mpr hlabel.1]
  | isNot subject label =>
    obtain ⟨hsubject, hlabel⟩ := h.names subject label (.inr (by simp [nodes]))
    simp [lead, blanks, List.count_eq_zero.mpr hsubject.1, List.count_eq_zero.mpr hlabel.1]
  | not ss => rfl
  | and ss | or ss => rfl

/-- As many statements are left. -/
theorem length_singlesConjoinedAll (ss : List Statement) :
    (singlesConjoinedAll ss).length = ss.length := by
  induction ss with
  | nil => rfl
  | cons s ss ih => rw [singlesConjoinedAll, List.length_cons, List.length_cons, ih]

/-- Conjunctions of several parts are told from disjunctions by what stands between the parts. -/
theorem singlesConjoined_and_eq_or (hne : ss ≠ [])
    (hoperands : singlesConjoinedAll ss = singlesConjoinedAll ts)
    (hseparator : 2 ≤ ss.length → (and ss).separator = (or ts).separator) :
    (and ss).singlesConjoined = (or ts).singlesConjoined := by
  match ss, hne with
  | [s], _ =>
    rw [singlesConjoined, singlesConjoined, ← hoperands]
    rfl
  | s :: t :: rest, _ => exact absurd (hseparator (by simp)) (by simp [separator])

/-- Names are told from the lead that they stand in. -/
theorem names_of_lead {subject subject' : String} {after after' : List Char}
    (h : IsWord subject) (h' : IsWord subject')
    (hlead : subject.toList ++ ' ' :: after = subject'.toList ++ ' ' :: after') :
    subject = subject' ∧ after = after' := by
  obtain ⟨hsubject, hafter⟩ :=
    append_startsAt_inj h.1 h'.1 (.inr ⟨_, rfl⟩) (.inr ⟨_, rfl⟩) hlead
  exact ⟨String.toList_injective hsubject, (List.cons.inj hafter).2⟩

/-- Statements are told, up to combinations of one part, from their leads, their operands and what
stands between these. -/
theorem singlesConjoined_of_parts (hs : s.Readable) (ht : t.Readable) (hlead : s.lead = t.lead)
    (hoperands : singlesConjoinedAll s.operands = singlesConjoinedAll t.operands)
    (hseparator : 2 ≤ s.operands.length → s.separator = t.separator) :
    s.singlesConjoined = t.singlesConjoined := by
  -- The blanks of the leads leave only statements of one kind and combinations.
  have hblanks : s.blanks = t.blanks := by rw [← hs.count_lead, ← ht.count_lead, hlead]
  cases s with
  | is subject label =>
    cases t with
    | is subject' label' =>
      have hw := hs.names subject label (.inl (by simp [nodes]))
      have hw' := ht.names subject' label' (.inl (by simp [nodes]))
      obtain ⟨rfl, hafter⟩ := names_of_lead hw.1 hw'.1 hlead
      rw [String.toList_injective (List.cons.inj (List.append_cancel_left hafter)).2]
    | _ => simp [blanks] at hblanks
  | isNot subject label =>
    cases t with
    | isNot subject' label' =>
      have hw := hs.names subject label (.inr (by simp [nodes]))
      have hw' := ht.names subject' label' (.inr (by simp [nodes]))
      obtain ⟨rfl, hafter⟩ := names_of_lead hw.1 hw'.1 hlead
      have hbehind := (List.cons.inj (List.append_cancel_left hafter)).2
      rw [String.toList_injective (List.cons.inj (List.append_cancel_left hbehind)).2]
    | _ => simp [blanks] at hblanks
  | not ss =>
    cases t with
    | not ts => exact congrArg not hoperands
    | _ => simp [blanks] at hblanks
  | and ss =>
    cases t with
    | and ts => exact congrArg and hoperands
    | or ts =>
      exact singlesConjoined_and_eq_or (by rintro rfl; exact hs.conjunctions (by simp [nodes]))
        hoperands hseparator
    | _ => simp [blanks] at hblanks
  | or ss =>
    cases t with
    | or ts => exact congrArg disjoin hoperands
    | and ts =>
      refine (singlesConjoined_and_eq_or ?_ hoperands.symm ?_).symm
      · rintro rfl
        exact ht.conjunctions (by simp [nodes])
      · intro htwo
        have hlength : ss.length = ts.length := by
          rw [← length_singlesConjoinedAll ss, ← length_singlesConjoinedAll ts]
          exact congrArg List.length hoperands
        exact (hseparator (hlength ▸ htwo)).symm
    | _ => simp [blanks] at hblanks

/-- Readable statements of equal texts are equal up to combinations of one part. -/
theorem singlesConjoined_of_text (hs : s.Readable) (ht : t.Readable) (h : s.text = t.text) :
    s.singlesConjoined = t.singlesConjoined := by
  induction s using induction_operands generalizing t with
  | step s ih =>
    have hparts : s.lead ++ enclosed s.separator s.operands =
        t.lead ++ enclosed t.separator t.operands := by
      rw [← toList_text, ← toList_text, h]
    obtain ⟨hlead, henclosed⟩ := append_startsAt_inj (fun hm ↦ (hs.plain_lead _ hm).1 rfl)
      (fun hm ↦ (ht.plain_lead _ hm).1 rfl) (startsAt_enclosed _ _) (startsAt_enclosed _ _) hparts
    obtain ⟨hoperands, hseparator⟩ := enclosed_inj (plain_separator s) (plain_separator t)
      (fun u hu ↦ hs.of_mem_operands hu) (fun u hu ↦ ht.of_mem_operands hu)
      (fun u hu v hv huv ↦ ih u hu (hs.of_mem_operands hu) hv huv) henclosed
    exact singlesConjoined_of_parts hs ht hlead hoperands hseparator

/-! ### Texts of combinations of one part -/

/-- Which connective a single operand stands under is not in the text. -/
theorem text_disjoin (ss : List Statement) : (disjoin ss).text = joined " or " ss := by
  unfold disjoin
  split <;> rfl

mutual

/-- Where combinations of one part are conjunctions, the text is the same. -/
theorem text_singlesConjoined : (s : Statement) → s.singlesConjoined.text = s.text
  | is _ _ | isNot _ _ => rfl
  | not ss => by rw [singlesConjoined, text, text, joined_singlesConjoinedAll]
  | and ss => by rw [singlesConjoined, text, text, joined_singlesConjoinedAll]
  | or ss => by rw [singlesConjoined, text_disjoin, text, joined_singlesConjoinedAll]

/-- So is what several statements are joined to. -/
theorem joined_singlesConjoinedAll (between : String) :
    (ss : List Statement) → joined between (singlesConjoinedAll ss) = joined between ss
  | [] => rfl
  | s :: ss => by
    rw [singlesConjoinedAll, joined, joined, text_singlesConjoined s,
      joinedBehind_singlesConjoinedAll]

/-- So is it with something in front of each. -/
theorem joinedBehind_singlesConjoinedAll (between : String) :
    (ss : List Statement) → joinedBehind between (singlesConjoinedAll ss) = joinedBehind between ss
  | [] => rfl
  | s :: ss => by
    rw [singlesConjoinedAll, joinedBehind, joinedBehind, text_singlesConjoined s,
      joinedBehind_singlesConjoinedAll between ss]

end

/-! ### Main result -/

/-- Readable statements have one text exactly when they are equal up to the connective of
combinations of one part. In exact arithmetic they hold, or fail, alike in every registry whose
labels give degrees to the values of their variables. -/
theorem text_eq_iff :
    (∀ s t : Statement, s.Readable → t.Readable →
      (s.text = t.text ↔ s.singlesConjoined = t.singlesConjoined)) ∧
    ∀ s t : Statement, s.Readable → t.Readable → s.text = t.text →
      ∀ (r : Registry Exact) (inputs : Assignment Exact) (ctx : Context),
        r.GivesValues IsDegree inputs ctx → s.degree r inputs ctx = t.degree r inputs ctx := by
  refine ⟨fun s t hs ht ↦ ⟨singlesConjoined_of_text hs ht, fun h ↦ ?_⟩, ?_⟩
  · rw [← text_singlesConjoined s, h, text_singlesConjoined]
  · intro s t hs ht htext r inputs ctx hvalues
    rw [← degree_singlesConjoined hvalues s, singlesConjoined_of_text hs ht htext,
      degree_singlesConjoined hvalues t]

-- With a blank in a label, texts do not tell what is stated from what is denied.
example : (is "soil" "not dry").text = (isNot "soil" "dry").text := rfl

/-- That soil is not dry is one text and one degree, whichever connective its single part stands
under. -/
theorem soil_text_eq_iff :
    (not [or [is "soil" "dry"]]).Readable ∧ (not [and [is "soil" "dry"]]).Readable ∧
      FuzzySystem.irrigation.registry.GivesValues IsDegree (FuzzySystem.moist 40) {} ∧
      (not [or [is "soil" "dry"]]).text = (not [and [is "soil" "dry"]]).text ∧
      (not [or [is "soil" "dry"]]).singlesConjoined =
        (not [and [is "soil" "dry"]]).singlesConjoined ∧
      (not [or [is "soil" "dry"]]).degree FuzzySystem.irrigation.registry
          (FuzzySystem.moist 40) {} =
        (not [and [is "soil" "dry"]]).degree FuzzySystem.irrigation.registry
          (FuzzySystem.moist 40) {} := by
  have hwords : IsWord "soil" ∧ IsWord "dry" := by unfold IsWord; decide
  have hor : (not [or [is "soil" "dry"]]).Readable :=
    ⟨fun _ _ h ↦ by simp [nodes, nodesAll] at h; rw [h.1, h.2]; exact hwords,
      by simp [nodes, nodesAll], by simp [nodes, nodesAll]⟩
  have hand : (not [and [is "soil" "dry"]]).Readable :=
    ⟨fun _ _ h ↦ by simp [nodes, nodesAll] at h; rw [h.1, h.2]; exact hwords,
      by simp [nodes, nodesAll], by simp [nodes, nodesAll]⟩
  have hvalues : FuzzySystem.irrigation.registry.GivesValues IsDegree (FuzzySystem.moist 40) {} :=
    fun v hv y hy ↦ FuzzySystem.obtained_irrigation.wellFormed.gives_isDegree_of_get
      FuzzySystem.irrigation_graded (FuzzySystem.isFinite_moist 40) v.name y hy v hv
  have htext : (not [or [is "soil" "dry"]]).text = (not [and [is "soil" "dry"]]).text := rfl
  obtain ⟨hiff, hdegree⟩ := text_eq_iff
  exact ⟨hor, hand, hvalues, htext, (hiff _ _ hor hand).mp htext,
    hdegree _ _ hor hand htext _ _ _ hvalues⟩

end Statement

end FuzzyInference
