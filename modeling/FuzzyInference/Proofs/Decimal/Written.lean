import FuzzyInference.Decimal.Layout

/-!
# Written numbers

What the text of a number consists of: digits without a superfluous zero in front, a fraction and an
exponent. A number of an interchange text always has one of the last two, so it is never taken for a
whole number.
-/

namespace FuzzyInference.Decimal

/-- Digits, of which there is at least one. -/
def IsDigits (cs : List Char) : Prop := cs ≠ [] ∧ ∀ c ∈ cs, c.isDigit = true

/-- A zero alone, or digits that do not begin with one. -/
inductive IsWhole : List Char → Prop
  | zero : IsWhole ['0']
  | digits {c : Char} {cs : List Char} :
    c ≠ '0' → IsDigits (c :: cs) → IsWhole (c :: cs)

/-- No fraction, or digits behind a point. -/
inductive IsFraction : List Char → Prop
  | none : IsFraction []
  | digits {cs : List Char} : IsDigits cs → IsFraction ('.' :: cs)

/-- No exponent, or digits behind a mark and a sign. -/
inductive IsExponent : List Char → Prop
  | none : IsExponent []
  | digits {sign : Char} {cs : List Char} :
    sign = '+' ∨ sign = '-' → IsDigits cs → IsExponent ('e' :: sign :: cs)

/-- The parts of the text of a number. -/
structure Written (cs whole fraction exponent : List Char) : Prop where
  /-- The text consists of the parts. -/
  eq : cs = whole ++ (fraction ++ exponent)
  /-- The digits before the point. -/
  whole : IsWhole whole
  /-- The fraction. -/
  fraction : IsFraction fraction
  /-- The exponent. -/
  exponent : IsExponent exponent

/-! ### Digits -/

/-- The digits of a number are digits. -/
theorem isDigits_digitChars (n : Nat) : IsDigits (digitChars n) :=
  ⟨Nat.toDigits_ne_nil, fun _ hc ↦ Nat.isDigit_of_mem_toDigits (by decide) (by decide) hc⟩

/-- More digits behind digits. -/
theorem IsDigits.append {cs ds : List Char} (hc : IsDigits cs)
    (hd : ∀ d ∈ ds, d.isDigit = true) : IsDigits (cs ++ ds) :=
  ⟨List.append_ne_nil_of_left_ne_nil hc.1 ds, by
    intro d hm
    exact (List.mem_append.mp hm).elim (hc.2 d) (hd d)⟩

/-- Digits that begin with another one than zero are whole as far as they are taken. -/
theorem IsWhole.take {c : Char} {cs : List Char} (hc : c ≠ '0') (hd : IsDigits (c :: cs)) {n : Nat}
    (hn : 0 < n) : IsWhole ((c :: cs).take n) := by
  obtain ⟨m, rfl⟩ := Nat.exists_eq_succ_of_ne_zero (Nat.pos_iff_ne_zero.mp hn)
  rw [List.take_succ_cons]
  refine .digits hc ⟨by simp, fun d hm ↦ hd.2 d ?_⟩
  exact List.mem_of_mem_take (i := m + 1) (by simpa using hm)

/-- The digits of a positive number do not begin with a zero. -/
theorem exists_digitChars_eq {n : Nat} (hn : 0 < n) :
    ∃ c cs, digitChars n = c :: cs ∧ c ≠ '0' := by
  induction n using Nat.strongRecOn with
  | ind n ih =>
    by_cases hlt : n < 10
    · have hall : ∀ k < 10, 0 < k → k.digitChar ≠ '0' := by decide
      exact ⟨n.digitChar, [], Nat.toDigits_of_lt_base hlt, hall n hlt hn⟩
    · obtain ⟨c, cs, he, hc⟩ := ih (n / 10) (by omega) (by omega)
      refine ⟨c, cs ++ [(n % 10).digitChar], ?_, hc⟩
      rw [digitChars, Nat.toDigits_of_base_le (by decide) (by omega), ← digitChars, he,
        List.cons_append]

/-- The digits of a number are whole. -/
theorem isWhole_digitChars (n : Nat) : IsWhole (digitChars n) := by
  rcases Nat.eq_zero_or_pos n with rfl | hn
  · rw [digitChars, Nat.toDigits_zero]
    exact .zero
  · have hd := isDigits_digitChars n
    obtain ⟨c, cs, he, hc⟩ := exists_digitChars_eq hn
    rw [he] at hd ⊢
    exact .digits hc hd

/-! ### Shortest decimals -/

private theorem compareScaled_zero {n : Nat} (hn : 0 < n) (k : Int) {d : Decimal}
    (hd : d.digits = 0) : Dyadic.compareScaled n k d = .gt := by
  have hpos : 0 < Dyadic.numerator n k * Nat.pow 10 (-d.exponent).toNat :=
    Nat.mul_pos (Nat.mul_pos hn (Nat.pow_pos (by decide))) (Nat.pow_pos (by decide))
  rw [Dyadic.compareScaled, hd, Nat.zero_mul, Nat.zero_mul, Nat.compare_eq_gt]
  exact hpos

/-- Zero does not read back to a positive number. -/
theorem digits_pos_of_readsBack {x : Dyadic} (hx : 0 < x.mantissa) {d : Decimal}
    (h : x.readsBack d = true) : 0 < d.digits := by
  apply Nat.pos_of_ne_zero
  intro hd
  have hlow := compareScaled_zero (n := 4 * x.mantissa - if x.narrowBelow then 1 else 2)
    (by split <;> omega) (x.exponent - 2) hd
  unfold Dyadic.readsBack at h
  simp only [hlow] at h
  split at h <;> cases h

private theorem digits_pos_of_choose {tie : Tie} {x : Dyadic} (hx : 0 < x.mantissa) {k : Int}
    {d : Decimal} (h : x.choose tie k = some d) : 0 < d.digits := by
  have hbelow (hr : x.readsBack ⟨x.countBelow k, k⟩ = true) : 0 < x.countBelow k :=
    digits_pos_of_readsBack hx hr
  have habove : 0 < x.countBelow k + 1 := Nat.succ_pos _
  unfold Dyadic.choose at h
  simp only at h
  cases hb : x.readsBack ⟨x.countBelow k, k⟩ <;> cases ha : x.readsBack ⟨x.countBelow k + 1, k⟩ <;>
    simp only [hb, ha] at h
  · cases h
  · cases h
    exact habove
  · cases h
    exact hbelow hb
  · have hpos := hbelow hb
    split at h
    · cases h
      exact hpos
    · cases h
      exact habove
    · split at h
      · cases h
        exact habove
      · cases h
        split
        · exact hpos
        · exact habove

private theorem digits_pos_stripZeros {fuel : Nat} {d : Decimal} (hd : 0 < d.digits) :
    0 < (stripZeros fuel d).digits := by
  induction fuel generalizing d with
  | zero => exact hd
  | succ fuel ih =>
    rw [stripZeros]
    split
    · next hz => exact ih (Nat.div_pos (by omega) (by decide))
    · exact hd

/-- The shortest decimal of a number has a digit, or is zero without an exponent. -/
theorem digits_pos_shortest (tie : Tie) (x : Dyadic) :
    0 < (x.shortest tie).digits ∨ (x.shortest tie).exponent ≤ 0 := by
  unfold Dyadic.shortest
  split
  · exact .inr (Int.le_refl 0)
  · next hx =>
    have hx := Nat.pos_of_ne_zero hx
    refine .inl (digits_pos_stripZeros ?_)
    cases hf : (List.range maxDigits).findSome? fun (n : Nat) =>
        x.choose tie (x.decimalScale - 1 - n) with
    | none =>
      exact Nat.mul_pos (Nat.mul_pos hx (Nat.pow_pos (by decide))) (Nat.pow_pos (by decide))
    | some d =>
      obtain ⟨n, -, hd⟩ := List.exists_of_findSome?_eq_some hf
      exact digits_pos_of_choose hx hd

/-! ### Decimals -/

/-- A decimal in positional notation with a point. -/
theorem written_positionalText {layout : Layout} (hp : layout.pointZero = true) {d : Decimal}
    (hd : 0 < d.digits ∨ d.exponent ≤ 0) :
    ∃ whole fraction, Written (d.positionalText layout) whole fraction [] ∧ fraction ≠ [] := by
  have hdigits := isDigits_digitChars d.digits
  unfold positionalText
  by_cases he : 0 ≤ d.exponent
  · have hwhole : IsWhole (digitChars d.digits ++ List.replicate d.exponent.toNat '0') := by
      rcases Nat.eq_zero_or_pos d.digits with hz | hpos
      · have hexp : d.exponent.toNat = 0 := by omega
        rw [hexp, List.replicate_zero, List.append_nil]
        exact isWhole_digitChars _
      · obtain ⟨c, cs, hcs, hc⟩ := exists_digitChars_eq hpos
        have hzeros : ∀ c ∈ List.replicate d.exponent.toNat '0', c.isDigit = true :=
          fun _ hm ↦ by simp [List.eq_of_mem_replicate hm]
        have hall := hdigits.append hzeros
        rw [hcs, List.cons_append] at hall ⊢
        exact .digits hc hall
    rw [if_pos he, hp]
    exact ⟨_, ['.', '0'], ⟨by simp, hwhole, .digits ⟨by simp, by simp⟩, .none⟩, by simp⟩
  · rw [if_neg he]
    by_cases hlt : (-d.exponent).toNat < (digitChars d.digits).length
    · have hpos : 0 < d.digits := by
        apply Nat.pos_of_ne_zero
        intro hz
        rw [hz, digitChars, Nat.toDigits_zero, List.length_singleton] at hlt
        omega
      obtain ⟨c, cs, hcs, hc⟩ := exists_digitChars_eq hpos
      have hwhole := IsWhole.take (n := (digitChars d.digits).length - (-d.exponent).toNat) hc
        (hcs ▸ hdigits) (by omega)
      rw [← hcs] at hwhole
      have hfraction : IsDigits ((digitChars d.digits).drop
          ((digitChars d.digits).length - (-d.exponent).toNat)) := by
        refine ⟨fun hnil ↦ ?_, fun e hm ↦ hdigits.2 e (List.mem_of_mem_drop hm)⟩
        have hlen := List.drop_eq_nil_iff.mp hnil
        omega
      simp only [if_pos hlt]
      exact ⟨_, _, ⟨by simp, hwhole, .digits hfraction, .none⟩, by simp⟩
    · have hfraction : IsDigits (List.replicate
          ((-d.exponent).toNat - (digitChars d.digits).length) '0' ++ digitChars d.digits) := by
        refine ⟨List.append_ne_nil_of_right_ne_nil _ hdigits.1, fun e hm ↦ ?_⟩
        rcases List.mem_append.mp hm with hm | hm
        · simp [List.eq_of_mem_replicate hm]
        · exact hdigits.2 e hm
      simp only [if_neg hlt]
      exact ⟨['0'], _, ⟨by simp, .zero, .digits hfraction, .none⟩, by simp⟩

/-- A decimal with an exponent that is signed. -/
theorem written_exponentText {layout : Layout} (hs : layout.signedExponent = true) {d : Decimal}
    (hd : 0 < d.digits) :
    ∃ whole fraction exponent,
      Written (d.exponentText layout) whole fraction exponent ∧ exponent ≠ [] := by
  have hdigits := isDigits_digitChars d.digits
  obtain ⟨c, cs, hcs, hc⟩ := exists_digitChars_eq hd
  rw [hcs] at hdigits
  have hexponent : IsExponent ('e' ::
      ((if d.leadingExponent < 0 then ['-'] else if layout.signedExponent then ['+'] else []) ++
        digitChars d.leadingExponent.natAbs)) := by
    have he := isDigits_digitChars d.leadingExponent.natAbs
    rw [hs]
    split
    · exact .digits (.inr rfl) he
    · exact .digits (.inl rfl) he
  have hwhole : IsWhole [c] := .digits hc ⟨by simp, fun e hm ↦ hdigits.2 e (by simp_all)⟩
  unfold exponentText
  rw [hcs]
  cases cs with
  | nil => exact ⟨[c], [], _, ⟨by simp, hwhole, .none, hexponent⟩, by simp⟩
  | cons second rest =>
    have hfraction : IsDigits (second :: rest) :=
      ⟨by simp, fun e hm ↦ hdigits.2 e (List.mem_cons_of_mem _ hm)⟩
    exact ⟨[c], '.' :: second :: rest, _, ⟨by simp, hwhole, .digits hfraction, hexponent⟩,
      by simp⟩

/-- A decimal that is laid out with points and signs in full has a fraction or an exponent. -/
theorem written_text {layout : Layout} (hp : layout.pointZero = true)
    (hs : layout.signedExponent = true) {d : Decimal} (hd : 0 < d.digits ∨ d.exponent ≤ 0) :
    ∃ whole fraction exponent, Written (d.text layout) whole fraction exponent ∧
      fraction ++ exponent ≠ [] := by
  unfold text
  split
  · obtain ⟨whole, fraction, hw, hne⟩ := written_positionalText hp hd
    exact ⟨whole, fraction, [], hw, by simpa using hne⟩
  · next hz =>
    have hpos : 0 < d.digits := by
      apply Nat.pos_of_ne_zero
      intro h
      apply hz
      simp [h]
    obtain ⟨whole, fraction, exponent, hw, hne⟩ := written_exponentText hs hpos
    exact ⟨whole, fraction, exponent, hw, List.append_ne_nil_of_right_ne_nil _ hne⟩

end FuzzyInference.Decimal

namespace FuzzyInference.Layout

/-! ### Machine numbers -/

/-- A machine number is finite exactly when it is a number and no infinity. -/
theorem isFinite_iff {x : Float} : x.isFinite = true ↔ x.isNaN = false ∧ x.isInf = false := by
  show x.toModel.unpack.isFinite = true ↔
    x.toModel.unpack.isNaN = false ∧ x.toModel.unpack.isInf = false
  cases x.toModel.unpack with
  | zero | finite => exact ⟨fun _ ↦ ⟨rfl, rfl⟩, fun _ ↦ rfl⟩
  | infinity | notANumber => exact ⟨nofun, nofun⟩

/-- The text of a number that is finite: its magnitude, behind a sign if the sign bit is set. -/
theorem toList_render {layout : Layout} {x : Float} (hx : x.isFinite = true) :
    (layout.render x).toList =
      if signBit x then '-' :: layout.magnitude x else layout.magnitude x := by
  obtain ⟨hn, hi⟩ := isFinite_iff.mp hx
  rw [render, hn, hi]
  simp only [Bool.false_eq_true, if_false, String.toList_ofList]

end FuzzyInference.Layout
