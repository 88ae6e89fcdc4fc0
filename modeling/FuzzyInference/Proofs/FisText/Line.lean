import FuzzyInference.Proofs.FisText.Section

/-!
# Forms of lines

How the lines of a `.fis` text are written, apart from how they are read. A line holds a content,
with blanks around it and a comment behind it: nothing, a name in brackets, or a key and a value
with a separator between them. Every line means what its form says, and no other line means
anything.
-/

namespace FuzzyInference.FisText

open Text

variable {line text key value name : List Char}

/-! ### Forms -/

/-- A text of blanks. -/
def Blanks (cs : List Char) : Prop := ∀ c ∈ cs, isBlank c = true

instance : DecidablePred Blanks := fun _ ↦ decidable_of_iff _ List.all_eq_true

/-- Nothing stands in a line but a text, blanks around it, and a comment behind them. -/
inductive Holds (text : List Char) : List Char → Prop where
  /-- A line without a comment. -/
  | plain {l r : List Char} (hl : Blanks l) (hr : Blanks r) : Holds text (l ++ (text ++ r))
  /-- A line with a comment. -/
  | commented {l r : List Char} (hl : Blanks l) (hr : Blanks r) (comment : List Char) :
    Holds text (l ++ (text ++ r) ++ '%' :: comment)

/-- A line that is blank but for a comment. -/
def IsVoid (line : List Char) : Prop := Holds [] line

/-- A line that opens a section: a name in brackets, between which there must be something. -/
inductive IsHeader (name : List Char) : List Char → Prop where
  /-- Blanks may stand around the name. -/
  | bracketed {l r line : List Char} (hname : Trimmed name) (hcomment : '%' ∉ name)
    (hl : Blanks l) (hr : Blanks r) (hne : l ++ (name ++ r) ≠ [])
    (h : Holds (inBrackets (l ++ (name ++ r))) line) : IsHeader name line

/-- A key and a value do not look like a name in brackets together. -/
def Unbracketed (key value : List Char) : Prop :=
  ¬ (key.head? = some '[' ∧ value.getLast? = some ']')

instance (key value : List Char) : Decidable (Unbracketed key value) :=
  inferInstanceAs (Decidable (¬ (key.head? = some '[' ∧ value.getLast? = some ']')))

/-- A line that is an entry: a key and a value with a separator between them, the first of the
line. -/
inductive IsEntry (key value : List Char) : List Char → Prop where
  /-- Blanks may stand around the separator. -/
  | separated {l r line : List Char} {mark : Char} (hkey : Trimmed key) (hvalue : Trimmed value)
    (hcomment : '%' ∉ key ++ value) (hfirst : ∀ c ∈ key, isSeparator c = false)
    (hmark : isSeparator mark = true) (hl : Blanks l) (hr : Blanks r)
    (hopen : Unbracketed key value) (h : Holds (key ++ (l ++ mark :: (r ++ value))) line) :
    IsEntry key value line

/-! ### Contents -/

private theorem Blanks.percent_not_mem {cs : List Char} (h : Blanks cs) : '%' ∉ cs := by
  intro hm
  exact absurd (h _ hm) (by decide)

private theorem trim_blanks {l r : List Char} (hl : Blanks l) (hr : Blanks r) :
    trim (l ++ (text ++ r)) = trim text := by
  obtain ⟨l', r', hl', hr', htext⟩ := exists_padding text
  have houter : l ++ (text ++ r) = (l ++ l') ++ (trim text ++ (r' ++ r)) := by
    conv_lhs => rw [htext]
    simp only [List.append_assoc]
  rw [houter]
  exact (trimmed_trim text).trim_padded (List.forall_mem_append.mpr ⟨hl, hl'⟩)
    (List.forall_mem_append.mpr ⟨hr', hr⟩)

/-- What a line holds is its content. -/
theorem Holds.content_eq (h : Holds text line) (hcomment : '%' ∉ text) :
    content line = trim text := by
  have hkept {l r : List Char} (hl : Blanks l) (hr : Blanks r) :
      ∀ c ∈ l ++ (text ++ r), decide (c ≠ '%') = true := by
    intro c hc
    have hnot : '%' ∉ l ++ (text ++ r) := by
      simp [hl.percent_not_mem, hr.percent_not_mem, hcomment]
    exact decide_eq_true fun he ↦ hnot (he ▸ hc)
  cases h with
  | plain hl hr =>
    rw [content, List.takeWhile_eq_self_iff.mpr (hkept hl hr), trim_blanks hl hr]
  | commented hl hr comment =>
    rw [content, List.takeWhile_append_of_pos (hkept hl hr),
      List.takeWhile_cons_of_neg (by simp), List.append_nil, trim_blanks hl hr]

private theorem holds_content (line : List Char) : Holds (content line) line := by
  obtain ⟨l, r, hl, hr, hraw⟩ := exists_padding (line.takeWhile (· ≠ '%'))
  rw [← content] at hraw
  have hline := List.takeWhile_append_dropWhile (p := fun c ↦ decide (c ≠ '%')) (l := line)
  rw [hraw] at hline
  cases hrest : line.dropWhile (· ≠ '%') with
  | nil =>
    rw [hrest, List.append_nil] at hline
    have h : Holds (content line) (l ++ (content line ++ r)) := .plain hl hr
    rwa [hline] at h
  | cons c comment =>
    have hc := of_dropWhile_eq_cons hrest
    rw [hrest, show c = '%' by simpa using hc] at hline
    have h : Holds (content line) (l ++ (content line ++ r) ++ '%' :: comment) :=
      .commented hl hr comment
    rwa [hline] at h

private theorem percent_not_mem_content (line : List Char) : '%' ∉ content line := by
  obtain ⟨l, r, -, -, hraw⟩ := exists_padding (line.takeWhile (· ≠ '%'))
  intro hm
  have hraw' : '%' ∈ line.takeWhile (· ≠ '%') := by
    rw [hraw]
    exact List.mem_append_right _ (List.mem_append_left _ hm)
  simpa using List.mem_takeWhile_imp hraw'

private theorem content_eq_of_holds {line' : List Char} (h : Holds (content line) line') :
    content line' = content line := by
  rw [h.content_eq (percent_not_mem_content line)]
  exact (trimmed_trim _).trim_eq

private theorem Holds.append_comment (h : Holds text line) (comment : List Char) :
    Holds text (line ++ '%' :: comment) := by
  cases h with
  | plain hl hr => exact .commented hl hr comment
  | commented hl hr first =>
    rw [List.append_assoc, List.cons_append]
    exact .commented hl hr (first ++ '%' :: comment)

private theorem Holds.pad {l r : List Char} (hl : Blanks l) (hr : Blanks r) (h : Holds text line) :
    Holds text (l ++ (line ++ r)) := by
  cases h with
  | @plain l' r' hl' hr' =>
    have houter : Holds text ((l ++ l') ++ (text ++ (r' ++ r))) :=
      .plain (List.forall_mem_append.mpr ⟨hl, hl'⟩) (List.forall_mem_append.mpr ⟨hr', hr⟩)
    simpa using houter
  | @commented l' r' hl' hr' comment =>
    have houter : Holds text ((l ++ l') ++ (text ++ r') ++ '%' :: (comment ++ r)) :=
      .commented (List.forall_mem_append.mpr ⟨hl, hl'⟩) hr' _
    simpa using houter

/-- A comment that is appended to a line does not change its content. -/
theorem content_comment (line comment : List Char) :
    content (line ++ '%' :: comment) = content line :=
  content_eq_of_holds ((holds_content line).append_comment comment)

/-- Nor do blanks that are put around it. -/
theorem content_pad {l r : List Char} (hl : Blanks l) (hr : Blanks r) (line : List Char) :
    content (l ++ (line ++ r)) = content line :=
  content_eq_of_holds ((holds_content line).pad hl hr)

/-! ### Meanings -/

private theorem bracketed?_eq_some_iff :
    bracketed? text = some name ↔ name ≠ [] ∧ text = inBrackets name := by
  constructor
  · intro h
    unfold bracketed? at h
    split at h
    · next rest =>
      split at h
      · next c body hreverse =>
        cases h
        refine ⟨by simp, congrArg ('[' :: ·) ?_⟩
        rw [← List.reverse_reverse rest, hreverse, List.reverse_cons]
      · cases h
    · cases h
  · rintro ⟨hne, rfl⟩
    obtain ⟨c, body, hreverse⟩ :=
      List.exists_cons_of_ne_nil (mt List.reverse_eq_nil_iff.mp hne)
    have hname : name = (c :: body).reverse := by rw [← hreverse, List.reverse_reverse]
    simp [bracketed?, inBrackets, hname]

/-- A line means nothing if it is blank but for a comment. -/
theorem classify_eq_blank_iff : classify (content line) = .blank ↔ IsVoid line := by
  have hcontent : content line = [] ↔ IsVoid line := by
    constructor
    · intro h
      have hline := holds_content line
      rwa [h] at hline
    · intro h
      rw [Holds.content_eq h List.not_mem_nil]
      rfl
  rw [← hcontent, classify]
  split
  · next h => exact iff_of_true rfl h
  · next h =>
    refine iff_of_false ?_ h
    intro hblank
    split at hblank
    · cases hblank
    · split at hblank <;> cases hblank

/-- A line opens a section if it has the form of it. -/
theorem classify_eq_header_iff : classify (content line) = .header name ↔ IsHeader name line := by
  constructor
  · intro h
    unfold classify at h
    split at h
    · cases h
    · split at h
      · next inner hinner =>
        cases h
        obtain ⟨hne, hcontent⟩ := bracketed?_eq_some_iff.mp hinner
        obtain ⟨l, r, hl, hr, hpadded⟩ := exists_padding inner
        have hline := holds_content line
        have hpercent := percent_not_mem_content line
        rw [hcontent] at hline hpercent
        refine .bracketed (trimmed_trim inner) ?_ hl hr (hpadded ▸ hne) (hpadded ▸ hline)
        intro hm
        apply hpercent
        rw [inBrackets, hpadded]
        simp [hm]
      · split at h <;> cases h
  · rintro @⟨l, r, _, hname, hcomment, hl, hr, hne, h⟩
    have htight : Tight (inBrackets (l ++ (name ++ r))) := .enclosed (by decide) (by decide)
    have hpercent : '%' ∉ inBrackets (l ++ (name ++ r)) := by
      simp [inBrackets, hl.percent_not_mem, hr.percent_not_mem, hcomment]
    rw [h.content_eq hpercent, htight.trim_eq, classify,
      if_neg (show inBrackets _ ≠ [] from List.cons_ne_nil _ _),
      bracketed?_eq_some_iff.mpr ⟨hne, rfl⟩]
    exact congrArg Line.header (hname.trim_padded hl hr)

instance (line : List Char) : Decidable (IsVoid line) := decidable_of_iff _ classify_eq_blank_iff

instance (name line : List Char) : Decidable (IsHeader name line) :=
  decidable_of_iff _ classify_eq_header_iff

private theorem exists_trim_entry {l r : List Char} {mark : Char} (hkey : Trimmed key)
    (hvalue : Trimmed value) (hmark : isBlank mark = false) (hl : Blanks l) (hr : Blanks r) :
    ∃ l' r', Blanks l' ∧ Blanks r' ∧
      trim (key ++ (l ++ mark :: (r ++ value))) = key ++ (l' ++ mark :: (r' ++ value)) := by
  have hsingle : Tight [mark] := .singleton hmark
  rcases hkey with rfl | hkey
  · rcases hvalue with rfl | hvalue
    · refine ⟨[], [], nofun, nofun, ?_⟩
      rw [List.nil_append, List.append_nil]
      exact hsingle.trim_padded hl hr
    · refine ⟨[], r, nofun, hr, ?_⟩
      have htrim := (hsingle.append hvalue r).trim_padded (r := []) hl nofun
      rwa [List.append_nil] at htrim
  · rcases hvalue with rfl | hvalue
    · refine ⟨l, [], hl, nofun, ?_⟩
      have htrim := (hkey.append hsingle l).trim_padded (l := []) nofun hr
      simpa using htrim
    · refine ⟨l, r, hl, hr, ?_⟩
      have htrim := (hkey.append hvalue (l ++ mark :: r)).trim_eq
      simpa using htrim

private theorem isBlank_of_isSeparator {c : Char} (h : isSeparator c = true) :
    isBlank c = false := by
  rw [isSeparator, Bool.or_eq_true, decide_eq_true_eq, decide_eq_true_eq] at h
  rcases h with rfl | rfl <;> decide

private theorem bracketed?_entry {l r : List Char} {mark : Char} (hmark : isSeparator mark = true)
    (hl : Blanks l) (hr : Blanks r) (hopen : Unbracketed key value) :
    bracketed? (key ++ (l ++ mark :: (r ++ value))) = none := by
  have hbetween : ∀ c ∈ l ++ mark :: r, isBlank c = true ∨ isSeparator c = true := by
    intro c hc
    rcases List.mem_append.mp hc with hc | hc
    · exact .inl (hl c hc)
    · rcases List.mem_cons.mp hc with rfl | hc
      · exact .inr hmark
      · exact .inl (hr c hc)
  cases hbracketed : bracketed? (key ++ (l ++ mark :: (r ++ value))) with
  | none => rfl
  | some inner =>
    obtain ⟨-, he⟩ := bracketed?_eq_some_iff.mp hbracketed
    have hparts : key ++ (l ++ mark :: r ++ value) = inBrackets inner := by
      rw [← he, List.append_assoc, List.cons_append]
    refine absurd ⟨?_, ?_⟩ hopen
    · have hhead := congrArg List.head? hparts
      rw [List.head?_append, List.head?_append, inBrackets, List.head?_cons] at hhead
      cases hkey : key.head? with
      | some a => rwa [hkey] at hhead
      | none =>
        have hfirst : (l ++ mark :: r).head? = some '[' := by
          cases l <;> simpa [hkey] using hhead
        exact absurd (hbetween _ (List.mem_of_head? hfirst)) (by decide)
    · have hlast := congrArg List.getLast? hparts
      rw [List.getLast?_append, List.getLast?_append, inBrackets, List.getLast?_cons,
        List.getLast?_concat] at hlast
      cases hvalue : value.getLast? with
      | some b => simpa [hvalue] using hlast
      | none =>
        have hfinal : (l ++ mark :: r).getLast? = some ']' := by simpa [hvalue] using hlast
        exact absurd (hbetween _ (List.mem_of_getLast? hfinal)) (by decide)

private theorem Holds.of_padded {l r : List Char} (hl : Blanks l) (hr : Blanks r)
    (h : Holds (l ++ (text ++ r)) line) : Holds text line := by
  cases h with
  | @plain l' r' hl' hr' =>
    have houter : Holds text ((l' ++ l) ++ (text ++ (r ++ r'))) :=
      .plain (List.forall_mem_append.mpr ⟨hl', hl⟩) (List.forall_mem_append.mpr ⟨hr, hr'⟩)
    simpa using houter
  | @commented l' r' hl' hr' comment =>
    have houter : Holds text ((l' ++ l) ++ (text ++ (r ++ r')) ++ '%' :: comment) :=
      .commented (List.forall_mem_append.mpr ⟨hl', hl⟩) (List.forall_mem_append.mpr ⟨hr, hr'⟩) _
    simpa using houter

private theorem exists_bracketed?_eq {between : List Char} (hne : between ≠ [])
    (hkey : key.head? = some '[') (hvalue : value.getLast? = some ']') :
    Tight (key ++ (between ++ value)) ∧
      ∃ inner, bracketed? (key ++ (between ++ value)) = some inner := by
  obtain ⟨key', rfl⟩ := List.head?_eq_some_iff.mp hkey
  obtain ⟨value', rfl⟩ := List.getLast?_eq_some_iff.mp hvalue
  have hinner : key' ++ (between ++ value') ≠ [] := by simp [hne]
  have hparts : '[' :: key' ++ (between ++ (value' ++ [']'])) =
      inBrackets (key' ++ (between ++ value')) := by
    simp [inBrackets]
  rw [hparts]
  exact ⟨.enclosed (by decide) (by decide), _, bracketed?_eq_some_iff.mpr ⟨hinner, rfl⟩⟩

private theorem exists_isEntry {e : Entry} (h : classify (content line) = .entry e) :
    ∃ key, IsEntry key e.value line ∧ toLower key = e.key := by
  unfold classify at h
  split at h
  · cases h
  · split at h
    · cases h
    · next hbracketed =>
      split at h
      · next before mark after hcut =>
        cases h
        obtain ⟨hcontent, hmark, hfirst⟩ := splitFirst_eq_some hcut
        obtain ⟨l, l', hl, hl', hbefore⟩ := exists_padding before
        obtain ⟨r', r, hr', hr, hafter⟩ := exists_padding after
        have hparts : content line =
            l ++ (trim before ++ (l' ++ mark :: r' ++ trim after) ++ r) := by
          rw [hcontent]
          conv_lhs => rw [hbefore, hafter]
          simp only [List.append_assoc, List.cons_append]
        have hline := (hparts ▸ holds_content line).of_padded hl hr
        rw [List.append_assoc, List.cons_append] at hline
        refine ⟨trim before, .separated (trimmed_trim before) (trimmed_trim after) ?_ ?_ hmark hl'
          hr' ?_ hline, rfl⟩
        · intro hm
          apply percent_not_mem_content line
          rw [hparts]
          rcases List.mem_append.mp hm with hm | hm <;> simp [hm]
        · intro c hc
          apply hfirst
          rw [hbefore]
          exact List.mem_append_right _ (List.mem_append_left _ hc)
        · rintro ⟨hkey, hvalue⟩
          have hbetween : l' ++ mark :: r' ≠ [] := by simp
          obtain ⟨htight, inner, hinner⟩ := exists_bracketed?_eq hbetween hkey hvalue
          have htrim : trim (content line) = content line := (trimmed_trim _).trim_eq
          rw [hparts, trim_blanks hl hr, htight.trim_eq, ← hparts] at htrim
          rw [htrim, hbracketed] at hinner
          cases hinner
      · cases h

private theorem IsEntry.classify_eq (h : IsEntry key value line) :
    classify (content line) = .entry ⟨toLower key, value⟩ := by
  obtain @⟨l, r, _, mark, hkey, hvalue, hcomment, hfirst, hmark, hl, hr, hopen, h⟩ := h
  have hmark' := isBlank_of_isSeparator hmark
  have hpercent : '%' ∉ key ++ (l ++ mark :: (r ++ value)) := by
    rw [List.mem_append, not_or] at hcomment
    have hne : '%' ≠ mark := by
      rintro rfl
      exact absurd hmark (by decide)
    simp [hcomment, hl.percent_not_mem, hr.percent_not_mem, hne]
  obtain ⟨l', r', hl', hr', htrim⟩ := exists_trim_entry hkey hvalue hmark' hl hr
  have hcut : splitFirst isSeparator (key ++ (l' ++ mark :: (r' ++ value))) =
      some (key ++ l', mark, r' ++ value) := by
    rw [← List.append_assoc]
    apply splitFirst_append _ hmark
    refine List.forall_mem_append.mpr ⟨hfirst, ?_⟩
    intro c hc
    by_contra hseparator
    have hblank := isBlank_of_isSeparator (by simpa using hseparator)
    rw [hl' c hc] at hblank
    cases hblank
  have hkeyTrimmed := hkey.trim_padded (l := []) nofun hl'
  have hvalueTrimmed := hvalue.trim_padded (r := []) hr' nofun
  rw [List.nil_append] at hkeyTrimmed
  rw [List.append_nil] at hvalueTrimmed
  rw [h.content_eq hpercent, htrim, classify, if_neg (by simp),
    bracketed?_entry hmark hl' hr' hopen]
  simp only [hcut, hkeyTrimmed, hvalueTrimmed]

/-- A line is an entry if it has the form of one; the key is read in lower case. -/
theorem classify_eq_entry_iff {e : Entry} :
    classify (content line) = .entry e ↔ ∃ key, IsEntry key e.value line ∧ toLower key = e.key := by
  refine ⟨exists_isEntry, ?_⟩
  rintro ⟨key, h, hlower⟩
  rw [h.classify_eq, hlower]

end FuzzyInference.FisText
