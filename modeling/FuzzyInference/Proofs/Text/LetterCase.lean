import FuzzyInference.Proofs.Text.Basic

/-!
# Letters

What is left of a text when the case of its letters is ignored. The two ways of lower-casing texts
do not differ where a plain text is looked for: full lower case keeps the letters, and no letter
outside of ASCII but the sign for kelvin becomes an ASCII letter.
-/

namespace FuzzyInference.Text

variable {cs ds : List Char}

/-- The small sigma that ends a word is a spelling of the one within words. -/
def unfinal (c : Char) : Char := if c = 'ς' then 'σ' else c

/-- A text without final forms. -/
def unfinals (cs : List Char) : List Char := cs.map unfinal

/-- The letters of a text: what it has in common with all texts that differ from it in letter case
only. -/
def letters (cs : List Char) : List Char := unfinals (cs.flatMap lowerChar)

/-- A text of ASCII characters without the letter k. -/
def IsPlain (cs : List Char) : Prop := ∀ c ∈ cs, c.toNat < 0x80 ∧ c.toLower ≠ 'k'

instance : DecidablePred IsPlain := fun cs ↦
  decidable_of_iff (cs.all (fun c ↦ decide (c.toNat < 0x80 ∧ c.toLower ≠ 'k')) = true)
    (by simp only [IsPlain, List.all_eq_true, decide_eq_true_eq])

/-! ### Final forms -/

private theorem unfinal_of_ascii {c : Char} (h : (unfinal c).toNat < 0x80) : unfinal c = c := by
  by_cases hc : c = 'ς'
  · subst hc
    exact absurd h (by decide)
  · exact if_neg hc

private theorem unfinals_of_not_mem (h : 'ς' ∉ cs) : unfinals cs = cs := by
  have hkept : ∀ c ∈ cs, unfinal c = c := by
    intro c hc
    apply if_neg
    rintro rfl
    exact h hc
  rw [unfinals, List.map_congr_left hkept, List.map_id']

/-- No other text becomes one without the letter sigma. -/
theorem unfinals_eq_iff (hinner : 'σ' ∉ ds) (hfinal : 'ς' ∉ ds) : unfinals cs = ds ↔ cs = ds := by
  constructor
  · rintro rfl
    have hcs : 'ς' ∉ cs := by
      intro hm
      exact hinner (List.mem_map_of_mem (f := unfinal) hm)
    exact (unfinals_of_not_mem hcs).symm
  · rintro rfl
    exact unfinals_of_not_mem hfinal

/-- What is no ASCII character does not occur in an ASCII text. -/
theorem not_mem_of_ascii {c : Char} (h : ∀ d ∈ ds, d.toNat < 0x80) (hc : ¬ c.toNat < 0x80) :
    c ∉ ds :=
  fun hm ↦ hc (h c hm)

private theorem unfinals_append : unfinals (cs ++ ds) = unfinals cs ++ unfinals ds :=
  List.map_append

/-! ### Full lower case -/

private theorem letters_cons {c : Char} :
    letters (c :: cs) = unfinals (lowerChar c) ++ letters cs := by
  rw [letters, List.flatMap_cons, unfinals_append, letters]

/-- Full lower case keeps the letters: where a sigma stands only decides about its form. -/
theorem unfinals_toLower (cs : List Char) : unfinals (toLower cs) = letters cs := by
  have hafter (before : List Char) : unfinals (lowerAfter before cs) = letters cs := by
    induction cs generalizing before with
    | nil => rfl
    | cons c cs ih =>
      have hc : unfinals (if c = 'Σ' then
          [if meetsCased before && !meetsCased cs then 'ς' else 'σ'] else lowerChar c) =
          unfinals (lowerChar c) := by
        by_cases hsigma : c = 'Σ'
        · rw [if_pos hsigma, hsigma, show lowerChar 'Σ' = ['σ'] by decide]
          split <;> rfl
        · rw [if_neg hsigma]
      rw [lowerAfter, unfinals_append, hc, ih, letters_cons]
  exact hafter []

/-! ### The case of ASCII letters -/

private theorem toLower_lt {c : Char} (hc : c.toNat < 0x80) : c.toLower.toNat < 0x80 := by
  have h := of_ascii (p := fun c ↦ decide (c.toLower.toNat < 0x80)) (by decide) hc
  simpa using h

private theorem letters_of_ascii (h : ∀ c ∈ cs, c.toNat < 0x80) :
    letters cs = cs.map Char.toLower := by
  have hlower : ∀ d ∈ cs.map Char.toLower, d.toNat < 0x80 :=
    List.forall_mem_map.mpr fun c hc ↦ toLower_lt (h c hc)
  rw [← unfinals_toLower, toLower_of_ascii h]
  exact unfinals_of_not_mem (not_mem_of_ascii hlower (by decide))

private theorem lowerRuns_beyond : ∀ r ∈ lowerRuns, r.last < 0x80 ∨
    0x80 ≤ r.lower ∧ (r.lower + (r.last - r.first) < 0xD800 ∨
      0xDFFF < r.lower ∧ r.lower + (r.last - r.first) < 0x110000) ∨
    r.lower = 'k'.toNat ∧ r.first = r.last := by
  decide +kernel

private theorem beyond_of_lower? {r : CaseRun} (hr : r ∈ lowerRuns) {n m : Nat} (hn : 0x80 ≤ n)
    (h : r.lower? n = some m) : ¬ ((Char.ofNat m).toNat < 0x80 ∧ Char.ofNat m ≠ 'k') := by
  unfold CaseRun.lower? at h
  split at h
  · next hin =>
    simp only [Bool.and_eq_true, decide_eq_true_eq] at hin
    have hm : r.lower + (n - r.first) = m := Option.some.inj h
    rintro ⟨hlt, hne⟩
    rcases lowerRuns_beyond r hr with hlast | ⟨hlow, hvalid⟩ | ⟨hk, hsingle⟩
    · omega
    · have hm' : m.isValidChar := by
        unfold Nat.isValidChar
        omega
      rw [Char.ofNat, dif_pos hm'] at hlt
      have : m < 0x80 := hlt
      omega
    · apply hne
      rw [show m = 'k'.toNat by omega, Char.ofNat_toNat]
  · cases h

private theorem exists_letter {c : Char} (hc : ¬ c.toNat < 0x80) :
    ∃ d ∈ unfinals (lowerChar c), ¬ (d.toNat < 0x80 ∧ d ≠ 'k') := by
  have hunfinal {d : Char} (h : ¬ (d.toNat < 0x80 ∧ d ≠ 'k')) :
      ¬ ((unfinal d).toNat < 0x80 ∧ unfinal d ≠ 'k') := by
    rintro ⟨hlt, hne⟩
    have hkept := unfinal_of_ascii hlt
    rw [hkept] at hlt hne
    exact h ⟨hlt, hne⟩
  by_cases hdotted : c = 'İ'
  · subst hdotted
    exact ⟨'\u0307', by decide, by decide⟩
  · rw [lowerChar, if_neg hc, if_neg hdotted]
    refine ⟨_, List.mem_singleton_self _, hunfinal ?_⟩
    cases hrun : lowerRuns.findSome? fun r ↦ r.lower? c.toNat with
    | none => exact fun h ↦ hc h.1
    | some m =>
      obtain ⟨r, hr, hm⟩ := List.exists_of_findSome?_eq_some hrun
      exact beyond_of_lower? hr (Nat.le_of_not_lt hc) hm

/-- Lower case makes no line ends. -/
theorem newline_mem_of_mem_toLower (h : '\n' ∈ toLower cs) : '\n' ∈ cs := by
  have hletters : '\n' ∈ letters cs := by
    rw [← unfinals_toLower]
    exact List.mem_map.mpr ⟨_, h, if_neg (by decide)⟩
  obtain ⟨d, hd, hnewline⟩ := List.mem_map.mp hletters
  obtain rfl : d = '\n' := by
    rw [← hnewline]
    exact (unfinal_of_ascii (by rw [hnewline]; decide)).symm
  obtain ⟨c, hc, hlower⟩ := List.mem_flatMap.mp hd
  unfold lowerChar at hlower
  split at hlower
  · next hascii =>
    have hkept := of_ascii (p := fun c ↦ c.toLower ≠ '\n' || c = '\n') (by decide) hascii
    rw [← List.mem_singleton.mp hlower] at hkept
    have hc' : c = '\n' := by simpa using hkept
    exact hc' ▸ hc
  · next hbeyond =>
    split at hlower
    · exact absurd hlower (by decide)
    · cases hrun : lowerRuns.findSome? fun r ↦ r.lower? c.toNat with
      | none =>
        rw [hrun] at hlower
        exact List.mem_singleton.mp hlower ▸ hc
      | some m =>
        rw [hrun] at hlower
        have hm : '\n' = Char.ofNat m := List.mem_singleton.mp hlower
        obtain ⟨r, hr, hlow⟩ := List.exists_of_findSome?_eq_some hrun
        exact absurd (hm ▸ ⟨by decide, by decide⟩)
          (beyond_of_lower? hr (Nat.le_of_not_lt hbeyond) hlow)

private theorem lt_of_letters (h : ∀ d ∈ letters cs, d.toNat < 0x80 ∧ d ≠ 'k') :
    ∀ c ∈ cs, c.toNat < 0x80 := by
  intro c hc
  by_contra hbeyond
  obtain ⟨d, hd, hplain⟩ := exists_letter hbeyond
  apply hplain (h d _)
  rw [letters, unfinals, List.map_flatMap]
  exact List.mem_flatMap_of_mem hc hd

/-- Where only the case of ASCII letters is ignored, a text is equal to a plain one if it has its
letters. -/
theorem eqIgnoringCase_iff (h : IsPlain ds) :
    eqIgnoringCase cs ds = true ↔ letters cs = letters ds := by
  have hlower : ∀ d ∈ ds.map Char.toLower, d.toNat < 0x80 ∧ d ≠ 'k' :=
    List.forall_mem_map.mpr fun d hd ↦ ⟨toLower_lt (h d hd).1, (h d hd).2⟩
  have hds : letters ds = ds.map Char.toLower := letters_of_ascii fun d hd ↦ (h d hd).1
  rw [eqIgnoringCase, beq_iff_eq, hds]
  constructor
  · intro he
    have hcs : ∀ c ∈ cs, c.toNat < 0x80 := by
      intro c hc
      by_contra hbeyond
      have hlt := (hlower _ (he ▸ List.mem_map_of_mem hc)).1
      rw [toLower_of_not_ascii hbeyond] at hlt
      exact hbeyond hlt
    rw [letters_of_ascii hcs, he]
  · intro he
    have hcs : ∀ c ∈ cs, c.toNat < 0x80 := lt_of_letters (he ▸ hlower)
    rw [← he, letters_of_ascii hcs]

end FuzzyInference.Text
