import FuzzyInference.Json.Token
import Mathlib.Data.Option.Basic

/-!
# Quoting and unquoting

What is written between quotation marks is read back as it was, whatever characters are in it.
-/

namespace FuzzyInference.Json

/-! ### Characters -/

private theorem hexValue?_hexDigit : ∀ n < 16, hexValue? (hexDigit n) = some n := by
  decide

private theorem hexDigit_ne : ∀ n < 16, hexDigit n ≠ '"' ∧ hexDigit n ≠ '\\' := by
  decide

private theorem hexUnit?_control {n : Nat} (hn : n < 0x20) :
    hexUnit? '0' '0' (hexDigit (n / 16)) (hexDigit (n % 16)) = some n := by
  have hzero : hexValue? '0' = some 0 := by decide
  have hhigh := hexValue?_hexDigit (n / 16) (by omega)
  have hlow := hexValue?_hexDigit (n % 16) (Nat.mod_lt n (by decide))
  simp only [hexUnit?, hzero, hhigh, hlow, Option.pure_def, Option.bind_eq_bind,
    Option.bind_some, Option.some.injEq]
  omega

private theorem units?_plain {c : Char} {rest : List Char} (hc : c ≠ '\\')
    (hlow : ¬ c.toNat < 0x20) : units? (c :: rest) = (units? rest).map (c.toNat :: ·) := by
  rw [units?]
  · have hplain : (c ≠ '\\' && 0x20 ≤ c.toNat : Bool) = true := by simp [hc, Nat.not_lt.mp hlow]
    rw [(Option.guard_eq_some' ()).mpr hplain]
    cases units? rest <;> rfl
  · rintro a b c d cs rfl
    exact absurd rfl hc
  · rintro letter cs rfl
    exact absurd rfl hc

private theorem units?_escape {letter : Char} {rest : List Char} (hu : letter ≠ 'u') {unit : Nat}
    (he : escapedUnit? letter = some unit) :
    units? ('\\' :: letter :: rest) = (units? rest).map (unit :: ·) := by
  rw [units?]
  · rw [he]
    cases units? rest <;> rfl
  · rintro a b c d cs rfl
    exact absurd rfl hu

private theorem units?_quoteChar (c : Char) (rest : List Char) :
    units? (quoteChar c ++ rest) = (units? rest).map (c.toNat :: ·) := by
  unfold quoteChar
  by_cases hq : c = '"'
  · rw [if_pos hq, hq]
    exact units?_escape (by decide) rfl
  by_cases hb : c = '\\'
  · rw [if_neg hq, if_pos hb, hb]
    exact units?_escape (by decide) rfl
  rw [if_neg hq, if_neg hb]
  by_cases hlow : c.toNat < 0x20
  · rw [if_pos hlow]
    split
    · next h => exact h ▸ units?_escape (by decide) rfl
    split
    · next h => exact h ▸ units?_escape (by decide) rfl
    split
    · next h => exact h ▸ units?_escape (by decide) rfl
    split
    · next h => exact h ▸ units?_escape (by decide) rfl
    split
    · next h => exact h ▸ units?_escape (by decide) rfl
    simp only [List.cons_append, List.nil_append, units?, hexUnit?_control hlow]
    cases units? rest <;> rfl
  · rw [if_neg hlow]
    exact units?_plain hb hlow

/-- The code points of a quoted text are those of its characters. -/
theorem units?_flatMap_quoteChar (cs : List Char) :
    units? (cs.flatMap quoteChar) = some (cs.map Char.toNat) := by
  induction cs with
  | nil => rfl
  | cons c cs ih => rw [List.flatMap_cons, units?_quoteChar, ih, Option.map_some, List.map_cons]

private theorem not_surrogate (c : Char) :
    isHighSurrogate c.toNat = false ∧ isLowSurrogate c.toNat = false := by
  have hv : c.toNat < 0xD800 ∨ 0xDFFF < c.toNat ∧ c.toNat < 0x110000 := c.valid
  simp only [isHighSurrogate, isLowSurrogate, Bool.and_eq_false_iff, decide_eq_false_iff_not]
  omega

/-- The code points of characters stand for these. -/
theorem pairUnits?_map_toNat (cs : List Char) : pairUnits? (cs.map Char.toNat) = some cs := by
  induction cs with
  | nil => rfl
  | cons c cs ih =>
    obtain ⟨hhigh, hlow⟩ := not_surrogate c
    cases cs with
    | nil => simp [pairUnits?, hhigh, hlow]
    | cons d cs =>
      rw [List.map_cons] at ih
      simp [pairUnits?, hhigh, hlow, ih]

/-! ### Texts -/

namespace Token

/-- What is written between quotation marks stands for the text. -/
theorem ofQuoted?_flatMap_quoteChar (s : String) :
    ofQuoted? (s.toList.flatMap quoteChar) = some (text (some s)) := by
  rw [ofQuoted?, units?_flatMap_quoteChar, Option.map_some, pairUnits?_map_toNat,
    Option.map_some, String.ofList_toList]

private theorem read?_quoted_cons {read cs : List Char} {c : Char} (hq : c ≠ '"')
    (hb : c ≠ '\\') : read? (.quoted read) (c :: cs) = read? (.quoted (c :: read)) cs := by
  rw [read?, if_neg hq, if_neg hb]

private theorem read?_quoted_escape {read cs : List Char} {c : Char} :
    read? (.quoted read) ('\\' :: c :: cs) = read? (.quoted (c :: '\\' :: read)) cs := by
  rw [read?, if_neg (by decide), if_pos rfl, read?]

private theorem read?_quoted_quoteChar (c : Char) (read cs : List Char) :
    read? (.quoted read) (quoteChar c ++ cs) =
      read? (.quoted ((quoteChar c).reverse ++ read)) cs := by
  unfold quoteChar
  by_cases hq : c = '"'
  · rw [if_pos hq]
    exact read?_quoted_escape
  by_cases hb : c = '\\'
  · rw [if_neg hq, if_pos hb]
    exact read?_quoted_escape
  rw [if_neg hq, if_neg hb]
  by_cases hlow : c.toNat < 0x20
  · rw [if_pos hlow]
    split
    · exact read?_quoted_escape
    split
    · exact read?_quoted_escape
    split
    · exact read?_quoted_escape
    split
    · exact read?_quoted_escape
    split
    · exact read?_quoted_escape
    obtain ⟨hhq, hhb⟩ := hexDigit_ne (c.toNat / 16) (by omega)
    obtain ⟨hlq, hlb⟩ := hexDigit_ne (c.toNat % 16) (Nat.mod_lt _ (by decide))
    simp only [List.cons_append, List.nil_append, read?_quoted_escape]
    rw [read?_quoted_cons (by decide) (by decide), read?_quoted_cons (by decide) (by decide),
      read?_quoted_cons hhq hhb, read?_quoted_cons hlq hlb]
    rfl
  · rw [if_neg hlow]
    exact read?_quoted_cons hq hb

private theorem read?_quoted_flatMap (s read cs : List Char) :
    read? (.quoted read) (s.flatMap quoteChar ++ cs) =
      read? (.quoted ((s.flatMap quoteChar).reverse ++ read)) cs := by
  induction s generalizing read with
  | nil => rfl
  | cons c s ih =>
    rw [List.flatMap_cons, List.append_assoc, read?_quoted_quoteChar, ih, List.reverse_append,
      List.append_assoc]

/-- A quoted text is one token. -/
theorem read?_quote (s : String) (cs : List Char) :
    read? .between (quote s ++ cs) = (read? .between cs).map (text (some s) :: ·) := by
  have hopen (rest : List Char) : read? .between ('"' :: rest) = read? (.quoted []) rest := by
    rw [read?]
    show (read? (.quoted []) rest).map ([] ++ ·) = _
    simp
  rw [quote, List.append_assoc, List.cons_append, hopen, read?_quoted_flatMap, List.append_nil,
    List.singleton_append, read?, if_pos rfl, List.reverse_reverse, ofQuoted?_flatMap_quoteChar]
  cases read? .between cs <;> rfl

end Token

end FuzzyInference.Json
