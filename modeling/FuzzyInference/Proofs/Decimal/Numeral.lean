import FuzzyInference.Decimal.Numeral
import FuzzyInference.Proofs.Decimal.Written
import FuzzyInference.Proofs.Text.Basic
import Mathlib.Data.Option.Basic

/-!
# The texts of numerals

What is read as a number consists of ASCII letters, digits, points and signs, whatever wrote it, and
is read alike in lower case. Digits are read back as the count that they were written for.
-/

namespace FuzzyInference.Numeral

open Text (of_ascii toLower_of_not_ascii)

variable {cs : List Char}

/-- A character that occurs in texts of numerals. -/
def isNumeralChar (c : Char) : Bool := c.isAlphanum || c = '.' || c = '+' || c = '-'

/-- A text of such characters that is not empty. -/
def IsWord (cs : List Char) : Prop := cs ≠ [] ∧ ∀ c ∈ cs, isNumeralChar c = true

instance : DecidablePred IsWord := fun cs ↦
  decidable_of_iff (cs ≠ [] ∧ cs.all isNumeralChar = true) (by rw [IsWord, List.all_eq_true])

/-! ### ASCII characters -/

private theorem toLower_kept {p : Char → Bool}
    (h : ∀ n < 0x80, (p (Char.ofNat n).toLower == p (Char.ofNat n)) = true) (c : Char) :
    p c.toLower = p c := by
  by_cases hc : c.toNat < 0x80
  · exact eq_of_beq (of_ascii (p := fun c ↦ p c.toLower == p c) h hc)
  · rw [toLower_of_not_ascii hc]

private theorem toLower_toLower (c : Char) : c.toLower.toLower = c.toLower := by
  by_cases hc : c.toNat < 0x80
  · have h := of_ascii (p := fun c ↦ c.toLower.toLower == c.toLower) (by decide) hc
    exact eq_of_beq h
  · rw [toLower_of_not_ascii hc, toLower_of_not_ascii hc]

private theorem isDigit_toLower (c : Char) : c.toLower.isDigit = c.isDigit :=
  toLower_kept (by decide) c

/-- A digit has no case. -/
theorem toLower_of_isDigit {c : Char} (hc : c.isDigit = true) : c.toLower = c := by
  have hupper : ¬ (c.val ≥ 'A'.val ∧ c.val ≤ 'Z'.val) := by
    rw [Char.isDigit, Bool.and_eq_true, decide_eq_true_eq, decide_eq_true_eq] at hc
    rintro ⟨h, -⟩
    have hlow := UInt32.le_iff_toNat_le.mp h
    have hhigh := UInt32.le_iff_toNat_le.mp hc.2
    exact absurd (Nat.le_trans hlow hhigh) (by decide)
  exact dif_neg hupper

private theorem isAlpha_toLower (c : Char) : c.toLower.isAlpha = c.isAlpha :=
  toLower_kept (by decide) c

/-- A character of a numeral is an ASCII character. -/
theorem lt_of_isNumeralChar {c : Char} (h : isNumeralChar c = true) : c.toNat < 0x80 := by
  have hval {d : Char} (hd : c.val ≤ d.val) (hlt : d.toNat < 0x80) : c.toNat < 0x80 :=
    Nat.lt_of_le_of_lt (UInt32.le_iff_toNat_le.mp hd) hlt
  unfold isNumeralChar Char.isAlphanum Char.isAlpha Char.isUpper Char.isLower Char.isDigit at h
  simp only [Bool.or_eq_true, Bool.and_eq_true, decide_eq_true_eq] at h
  rcases h with ((((h | h) | h) | rfl) | rfl) | rfl
  · exact hval (d := 'Z') h.2 (by decide)
  · exact hval (d := 'z') h.2 (by decide)
  · exact hval (d := '9') h.2 (by decide)
  · decide
  · decide
  · decide

/-- What holds of the characters of numerals, if it does of those that are ASCII. -/
theorem of_isNumeralChar {p : Char → Bool}
    (h : ∀ n < 0x80, (!isNumeralChar (Char.ofNat n) || p (Char.ofNat n)) = true) {c : Char}
    (hc : isNumeralChar c = true) : p c = true := by
  have hp := of_ascii (p := fun c ↦ !isNumeralChar c || p c) h (lt_of_isNumeralChar hc)
  rwa [hc, Bool.not_true, Bool.false_or] at hp

/-- Digits occur in numerals. -/
theorem isNumeralChar_of_isDigit {c : Char} (h : c.isDigit = true) : isNumeralChar c = true := by
  rw [isNumeralChar, Char.isAlphanum, h, Bool.or_true, Bool.true_or, Bool.true_or, Bool.true_or]

/-! ### What numerals consist of -/

private theorem isWord_of_splitSign (h : IsWord (splitSign cs).2) : IsWord cs := by
  obtain ⟨h, hall⟩ := h
  unfold splitSign at h hall
  split at hall
  · exact ⟨List.cons_ne_nil _ _, List.forall_mem_cons.mpr ⟨by decide, hall⟩⟩
  · exact ⟨List.cons_ne_nil _ _, List.forall_mem_cons.mpr ⟨by decide, hall⟩⟩
  · refine ⟨?_, hall⟩
    rintro rfl
    exact h rfl

private theorem isWord_of_digits? {n : Nat} (h : digits? cs = some n) : IsWord cs := by
  unfold digits? at h
  split at h
  · next hd =>
    simp only [ne_eq, Bool.and_eq_true, decide_eq_true_eq, List.all_eq_true] at hd
    exact ⟨hd.1, fun c hc ↦ isNumeralChar_of_isDigit (hd.2 c hc)⟩
  · cases h

private theorem isNumeralChar_of_exponent? {e : Int} (h : exponent? cs = some e) :
    ∀ c ∈ cs, isNumeralChar c = true := by
  cases cs with
  | nil => exact nofun
  | cons mark rest =>
    rw [exponent?] at h
    by_cases hm : mark = 'e' ∨ mark = 'E'
    · rw [if_pos (by simpa using hm)] at h
      obtain ⟨_, hk, -⟩ := Option.map_eq_some_iff.mp h
      obtain ⟨n, hn, -⟩ := Option.bind_eq_some_iff.mp hk
      refine List.forall_mem_cons.mpr ⟨?_, (isWord_of_splitSign (isWord_of_digits? hn)).2⟩
      rcases hm with rfl | rfl <;> decide
    · rw [if_neg (by simpa using hm)] at h
      cases h

private theorem isWord_of_magnitude? {d : Decimal} (h : magnitude? cs = some d) : IsWord cs := by
  have hdigits {ds : List Char} : ∀ c ∈ ds.takeWhile Char.isDigit, isNumeralChar c = true :=
    fun c hc ↦ isNumeralChar_of_isDigit (List.mem_takeWhile_imp hc)
  have hrest {ds : List Char} (hds : ∀ c ∈ ds.dropWhile Char.isDigit, isNumeralChar c = true) :
      ∀ c ∈ ds, isNumeralChar c = true := by
    rw [← List.takeWhile_append_dropWhile (p := Char.isDigit) (l := ds), List.forall_mem_append]
    exact ⟨hdigits, hds⟩
  have hne : cs ≠ [] := by
    rintro rfl
    cases h
  refine ⟨hne, hrest ?_⟩
  unfold magnitude? at h
  simp only at h
  split at h
  · next rest hdrop =>
    rw [hdrop]
    split at h
    · cases h
    · obtain ⟨e, he, -⟩ := Option.map_eq_some_iff.mp h
      exact List.forall_mem_cons.mpr ⟨by decide, hrest (isNumeralChar_of_exponent? he)⟩
  · split at h
    · cases h
    · obtain ⟨e, he, -⟩ := Option.map_eq_some_iff.mp h
      exact isNumeralChar_of_exponent? he

private theorem isWord_of_word {word : String} (hne : word ≠ "")
    (hall : word.toList.all Char.isAlpha = true)
    (h : String.ofList (cs.map Char.toLower) = word) : IsWord cs := by
  subst h
  rw [String.toList_ofList] at hall
  constructor
  · rintro rfl
    exact hne rfl
  · intro c hc
    have halpha := List.all_eq_true.mp hall _ (List.mem_map_of_mem hc)
    rw [isAlpha_toLower] at halpha
    rw [isNumeralChar, Char.isAlphanum, halpha, Bool.true_or, Bool.true_or, Bool.true_or,
      Bool.true_or]

/-- What is read as a numeral is not empty and consists of such characters. -/
theorem isWord_of_ofText? {n : Numeral} (h : ofText? cs = some n) : IsWord cs := by
  have hrest : IsWord (splitSign cs).2 := by
    unfold ofText? at h
    simp only at h
    split at h
    · next hw => exact isWord_of_word (by decide) (by decide) hw
    · split at h
      · next hw =>
        rw [Bool.or_eq_true, decide_eq_true_eq, decide_eq_true_eq] at hw
        rcases hw with hw | hw <;> exact isWord_of_word (by decide) (by decide) hw
      · obtain ⟨d, hd, -⟩ := Option.map_eq_some_iff.mp h
        exact isWord_of_magnitude? hd
  exact isWord_of_splitSign hrest

/-- So does what is read as an index. -/
theorem isWord_of_int64? {k : Int} (h : int64? cs = some k) : IsWord cs := by
  obtain ⟨_, hn, -⟩ := Option.bind_eq_some_iff.mp h
  exact isWord_of_splitSign (isWord_of_digits? hn)

/-- The digits of a count are such a text. -/
theorem isWord_digitChars (n : Nat) : IsWord (Decimal.digitChars n) := by
  obtain ⟨hne, hall⟩ := Decimal.isDigits_digitChars n
  exact ⟨hne, fun c hc ↦ isNumeralChar_of_isDigit (hall c hc)⟩

/-! ### Lower case -/

private theorem splitSign_map_toLower :
    splitSign (cs.map Char.toLower) =
      ((splitSign cs).1, (splitSign cs).2.map Char.toLower) := by
  have hsign (d : Char) (hd : ∀ n < 0x80,
      ((decide ((Char.ofNat n).toLower = d)) == decide (Char.ofNat n = d)) = true) (c : Char) :
      c.toLower = d ↔ c = d :=
    decide_eq_decide.mp (toLower_kept (p := fun c ↦ decide (c = d)) hd c)
  cases cs with
  | nil => rfl
  | cons c cs =>
    by_cases hm : c = '-'
    · subst hm
      rfl
    · by_cases hp : c = '+'
      · subst hp
        rfl
      · have hm' : c.toLower ≠ '-' := fun h ↦ hm ((hsign '-' (by decide) c).mp h)
        have hp' : c.toLower ≠ '+' := fun h ↦ hp ((hsign '+' (by decide) c).mp h)
        simp [splitSign, hm, hp, hm', hp']

private theorem digits?_map_toLower : digits? (cs.map Char.toLower) = digits? cs := by
  have hall : (cs.map Char.toLower).all Char.isDigit = cs.all Char.isDigit := by
    rw [List.all_map]
    exact congrArg cs.all (funext isDigit_toLower)
  unfold digits?
  simp only [hall, ne_eq, List.map_eq_nil_iff]
  split
  · next h =>
    rw [Bool.and_eq_true, List.all_eq_true] at h
    rw [List.map_congr_left fun c hc ↦ toLower_of_isDigit (h.2 c hc), List.map_id']
  · rfl

private theorem exponent?_map_toLower : exponent? (cs.map Char.toLower) = exponent? cs := by
  cases cs with
  | nil => rfl
  | cons mark rest =>
    have hmark := toLower_kept (p := fun c ↦ decide (c = 'e') || decide (c = 'E')) (by decide) mark
    rw [List.map_cons, exponent?, exponent?, hmark, splitSign_map_toLower]
    simp only [digits?_map_toLower]

private theorem magnitude?_map_toLower : magnitude? (cs.map Char.toLower) = magnitude? cs := by
  have hcomp : Char.isDigit ∘ Char.toLower = Char.isDigit := funext isDigit_toLower
  have htake (ds : List Char) :
      (ds.map Char.toLower).takeWhile Char.isDigit = ds.takeWhile Char.isDigit := by
    rw [List.takeWhile_map, hcomp, List.map_congr_left fun c hc ↦
      toLower_of_isDigit (List.mem_takeWhile_imp hc), List.map_id']
  have hdrop (ds : List Char) :
      (ds.map Char.toLower).dropWhile Char.isDigit =
        (ds.dropWhile Char.isDigit).map Char.toLower := by
    rw [List.dropWhile_map, hcomp]
  have hpoint (c : Char) : c.toLower = '.' ↔ c = '.' :=
    decide_eq_decide.mp (toLower_kept (p := fun c ↦ decide (c = '.')) (by decide) c)
  unfold magnitude?
  simp only [htake, hdrop]
  cases hd : cs.dropWhile Char.isDigit with
  | nil => rfl
  | cons c rest =>
    by_cases hc : c = '.'
    · subst hc
      rw [List.map_cons]
      simp only [show '.'.toLower = '.' from rfl, htake, hdrop, exponent?_map_toLower]
    · have hc' : c.toLower ≠ '.' := fun h ↦ hc ((hpoint c).mp h)
      have hexponent : exponent? ((c :: rest).map Char.toLower) = exponent? (c :: rest) :=
        exponent?_map_toLower
      rw [List.map_cons] at hexponent ⊢
      simp [hc, hc', hexponent]

/-- Numerals are read alike in lower case. -/
theorem ofText?_map_toLower : ofText? (cs.map Char.toLower) = ofText? cs := by
  unfold ofText?
  simp only [splitSign_map_toLower, List.map_map, magnitude?_map_toLower,
    show Char.toLower ∘ Char.toLower = Char.toLower from funext toLower_toLower]

/-! ### Signs -/

/-- The text of a magnitude with a minus sign in front if the number is negative. -/
def signed (negative : Bool) (cs : List Char) : List Char := if negative then '-' :: cs else cs

/-- What begins with a digit or a point is read as a magnitude, behind a sign or without one. -/
theorem ofText?_signed {c : Char} {cs : List Char} (hc : c.isDigit = true ∨ c = '.')
    (negative : Bool) :
    ofText? (signed negative (c :: cs)) = (magnitude? (c :: cs)).map (.decimal negative) := by
  have hkept : c.toLower = c := by
    rcases hc with hc | rfl
    · exact toLower_of_isDigit hc
    · rfl
  have hne {d : Char} (hdigit : d.isDigit = false) (hpoint : d ≠ '.') : c ≠ d := by
    rintro rfl
    rcases hc with hc | hc
    · rw [hc] at hdigit
      cases hdigit
    · exact hpoint hc
  have hsplit : splitSign (signed negative (c :: cs)) = (negative, c :: cs) := by
    cases negative with
    | true => rfl
    | false =>
      show splitSign (c :: cs) = _
      unfold splitSign
      split
      · next h => exact absurd (List.cons.inj h).1 (hne rfl (by decide))
      · next h => exact absurd (List.cons.inj h).1 (hne rfl (by decide))
      · rfl
  -- A word begins with a letter.
  have hword (s : String) (d : Char) (es : List Char) (hs : s.toList = d :: es) (hd : c ≠ d) :
      String.ofList ((c :: cs).map Char.toLower) ≠ s := by
    rintro rfl
    rw [String.toList_ofList, List.map_cons, List.cons.injEq, hkept] at hs
    exact hd hs.1
  have hn : c ≠ 'n' := hne rfl (by decide)
  have hi : c ≠ 'i' := hne rfl (by decide)
  rw [ofText?, hsplit]
  simp only [hword "nan" 'n' _ rfl hn, hword "inf" 'i' _ rfl hi, hword "infinity" 'i' _ rfl hi,
    if_false, decide_false, Bool.or_self, Bool.false_eq_true]

/-! ### Counts and indices -/

private theorem digits?_digitChars (n : Nat) : digits? (Decimal.digitChars n) = some n := by
  obtain ⟨hne, hall⟩ := Decimal.isDigits_digitChars n
  have hvalue : ofDigits (Decimal.digitChars n) = n := Nat.ofDigitChars_ten_toDigits
  rw [digits?, hvalue, if_pos]
  simpa [hne] using hall

private theorem splitSign_digitChars (n : Nat) :
    splitSign (Decimal.digitChars n) = (false, Decimal.digitChars n) := by
  obtain ⟨-, hall⟩ := Decimal.isDigits_digitChars n
  unfold splitSign
  split
  · next h => exact absurd (hall '-' (h ▸ List.mem_cons_self)) (by decide)
  · next h => exact absurd (hall '+' (h ▸ List.mem_cons_self)) (by decide)
  · rfl

/-- A count within the bound is read back. -/
theorem natUpTo?_digitChars {n bound : Nat} (hn : n ≤ bound) :
    natUpTo? bound (Decimal.digitChars n) = some n := by
  obtain ⟨-, hall⟩ := Decimal.isDigits_digitChars n
  unfold natUpTo?
  split
  · next h => exact absurd (hall '+' (h ▸ List.mem_cons_self)) (by decide)
  · simp [digits?_digitChars, hn]

/-- A whole number whose magnitude fits into 63 bits is read back. -/
theorem int64?_digitChars {k : Int} (hk : k.natAbs < Nat.pow 2 63) :
    int64? ((if k < 0 then ['-'] else []) ++ Decimal.digitChars k.natAbs) = some k := by
  by_cases hneg : k < 0
  · rw [if_pos hneg, int64?, List.singleton_append, splitSign]
    have hle : k.natAbs ≤ Nat.pow 2 63 := Nat.le_of_lt hk
    simp only [digits?_digitChars, Option.bind_some, if_true, hle, Option.some.injEq]
    omega
  · rw [if_neg hneg, int64?, List.nil_append, splitSign_digitChars]
    simp only [digits?_digitChars, Option.bind_some, Bool.false_eq_true, if_false, hk, if_true,
      Option.some.injEq]
    omega

end FuzzyInference.Numeral
