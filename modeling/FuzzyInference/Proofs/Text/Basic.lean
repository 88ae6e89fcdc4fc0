import FuzzyInference.Text.Blank
import FuzzyInference.Text.LetterCase
import Mathlib.Data.List.TakeWhile

/-!
# Cutting texts

What is cut off texts and what is left of them: trimming takes blanks off the ends and nothing else,
words come apart at blanks, a text is cut at the first mark of a kind, and an ASCII text is brought
into lower case letter by letter.
-/

namespace FuzzyInference.Text

variable {cs : List Char}

/-- A text without blanks. -/
def Bare (cs : List Char) : Prop := ∀ c ∈ cs, isBlank c = false

/-! ### Ends -/

/-- What is dropped at the end does not come back behind more characters. -/
theorem dropEndWhile_append {p : Char → Bool} {ds : List Char} (h : ∀ d ∈ ds, p d = true) :
    dropEndWhile p (cs ++ ds) = dropEndWhile p cs := by
  have hreverse : ∀ d ∈ ds.reverse, p d = true := fun d hd ↦ h d (List.mem_reverse.mp hd)
  rw [dropEndWhile, List.reverse_append, List.dropWhile_append_of_pos hreverse, dropEndWhile]

/-- A text that ends in another character is kept. -/
theorem dropEndWhile_of_last {p : Char → Bool} {c : Char} (h : p c = false) :
    dropEndWhile p (cs ++ [c]) = cs ++ [c] := by
  rw [dropEndWhile, List.reverse_append, List.reverse_singleton, List.singleton_append,
    List.dropWhile_cons_of_neg (by simp [h]), List.reverse_cons, List.reverse_reverse]

/-- A text in which no character is dropped is kept. -/
theorem dropEndWhile_of_forall {p : Char → Bool} (h : ∀ c ∈ cs, p c = false) :
    dropEndWhile p cs = cs := by
  rcases List.eq_nil_or_concat cs with rfl | ⟨ds, c, rfl⟩
  · rfl
  · rw [List.concat_eq_append] at h ⊢
    exact dropEndWhile_of_last (h c (by simp))

/-- A text in which no character is dropped is kept at its start. -/
theorem dropWhile_of_forall {p : Char → Bool} (h : ∀ c ∈ cs, p c = false) :
    cs.dropWhile p = cs := by
  cases cs with
  | nil => rfl
  | cons c cs => exact List.dropWhile_cons_of_neg (by simp [h c List.mem_cons_self])

/-- A text that begins and ends with other characters than blanks. -/
structure Tight (cs : List Char) : Prop where
  /-- It begins with another character. -/
  first : ∃ a rest, cs = a :: rest ∧ isBlank a = false
  /-- It ends with another character. -/
  last : ∃ rest b, cs = rest ++ [b] ∧ isBlank b = false

namespace Tight

/-- A text with other characters around it. -/
theorem enclosed {a b : Char} (ha : isBlank a = false) (hb : isBlank b = false) :
    Tight (a :: (cs ++ [b])) :=
  ⟨⟨a, cs ++ [b], rfl, ha⟩, ⟨a :: cs, b, rfl, hb⟩⟩

/-- A character other than a blank. -/
theorem singleton {c : Char} (h : isBlank c = false) : Tight [c] :=
  ⟨⟨c, [], rfl, h⟩, ⟨[], c, rfl, h⟩⟩

/-- Two such texts with anything between them. -/
theorem append (hc : Tight cs) {ds : List Char} (hd : Tight ds) (ms : List Char) :
    Tight (cs ++ (ms ++ ds)) := by
  obtain ⟨a, rest, rfl, ha⟩ := hc.first
  obtain ⟨rest', b, rfl, hb⟩ := hd.last
  exact ⟨⟨a, _, rfl, ha⟩, ⟨a :: rest ++ (ms ++ rest'), b, by simp, hb⟩⟩

/-- Nothing is trimmed away in front of such a text. -/
theorem trimStart_append (h : Tight cs) (ds : List Char) : trimStart (cs ++ ds) = cs ++ ds := by
  obtain ⟨a, rest, rfl, ha⟩ := h.first
  rw [trimStart, List.cons_append, List.dropWhile_cons_of_neg (by simp [ha])]

/-- Blanks behind such a text are trimmed away. -/
theorem trimEnd_padded (h : Tight cs) {r : List Char} (hr : ∀ c ∈ r, isBlank c = true) :
    trimEnd (cs ++ r) = cs := by
  obtain ⟨rest, b, rfl, hb⟩ := h.last
  rw [trimEnd, dropEndWhile_append hr, dropEndWhile_of_last hb]

/-- Blanks around such a text are trimmed away. -/
theorem trim_padded (h : Tight cs) {l r : List Char} (hl : ∀ c ∈ l, isBlank c = true)
    (hr : ∀ c ∈ r, isBlank c = true) : trim (l ++ (cs ++ r)) = cs := by
  rw [trim, trimStart, List.dropWhile_append_of_pos hl, ← trimStart, h.trimStart_append,
    h.trimEnd_padded hr]

/-- Such a text is trimmed. -/
theorem trim_eq (h : Tight cs) : trim cs = cs := by
  have htrim := h.trim_padded (l := []) (r := []) nofun nofun
  rwa [List.append_nil, List.nil_append] at htrim

end Tight

/-- A text without blanks begins and ends with other characters, unless it is empty. -/
theorem Bare.tight (h : Bare cs) (hne : cs ≠ []) : Tight cs := by
  constructor
  · obtain ⟨a, rest, rfl⟩ := List.exists_cons_of_ne_nil hne
    exact ⟨a, rest, rfl, h a List.mem_cons_self⟩
  · refine ⟨cs.dropLast, cs.getLast hne, (List.dropLast_concat_getLast hne).symm, ?_⟩
    exact h _ (List.getLast_mem hne)

/-- A character that is not dropped at the start is left. -/
theorem mem_dropWhile {p : Char → Bool} {c : Char} (hc : p c = false) (h : c ∈ cs) :
    c ∈ cs.dropWhile p := by
  rw [← List.takeWhile_append_dropWhile (p := p) (l := cs)] at h
  refine (List.mem_append.mp h).resolve_left ?_
  intro htake
  rw [List.mem_takeWhile_imp htake] at hc
  cases hc

/-- A character that is not dropped at the end is left. -/
theorem mem_dropEndWhile {p : Char → Bool} {c : Char} (hc : p c = false) (h : c ∈ cs) :
    c ∈ dropEndWhile p cs :=
  List.mem_reverse.mpr (mem_dropWhile hc (List.mem_reverse.mpr h))

/-- A text without blanks at its ends. -/
def Trimmed (cs : List Char) : Prop := cs = [] ∨ Tight cs

/-- Nothing is left of blanks. -/
theorem trim_of_blanks (h : ∀ c ∈ cs, isBlank c = true) : trim cs = [] := by
  rw [trim, trimStart, List.dropWhile_eq_nil_iff.mpr h]
  rfl

/-- Blanks around a trimmed text are trimmed away. -/
theorem Trimmed.trim_padded (h : Trimmed cs) {l r : List Char} (hl : ∀ c ∈ l, isBlank c = true)
    (hr : ∀ c ∈ r, isBlank c = true) : trim (l ++ (cs ++ r)) = cs := by
  rcases h with rfl | h
  · exact trim_of_blanks (List.forall_mem_append.mpr ⟨hl, hr⟩)
  · exact h.trim_padded hl hr

/-- A trimmed text is left as it is. -/
theorem Trimmed.trim_eq (h : Trimmed cs) : trim cs = cs := by
  rcases h with rfl | h
  · rfl
  · exact h.trim_eq

/-- What is trimmed away at the end are blanks. -/
theorem exists_trimEnd (cs : List Char) :
    ∃ r, (∀ c ∈ r, isBlank c = true) ∧ cs = trimEnd cs ++ r := by
  refine ⟨(cs.reverse.takeWhile isBlank).reverse, ?_, ?_⟩
  · exact fun c hc ↦ List.mem_takeWhile_imp (List.mem_reverse.mp hc)
  · rw [trimEnd, dropEndWhile, ← List.reverse_append, List.takeWhile_append_dropWhile,
      List.reverse_reverse]

/-- What is trimmed away are blanks. -/
theorem exists_padding (cs : List Char) : ∃ l r, (∀ c ∈ l, isBlank c = true) ∧
    (∀ c ∈ r, isBlank c = true) ∧ cs = l ++ (trim cs ++ r) := by
  obtain ⟨r, hr, hend⟩ := exists_trimEnd (trimStart cs)
  refine ⟨cs.takeWhile isBlank, r, fun c hc ↦ List.mem_takeWhile_imp hc, hr, ?_⟩
  rw [trim, ← hend, trimStart, List.takeWhile_append_dropWhile]

/-- What is not dropped begins with another character. -/
theorem of_dropWhile_eq_cons {p : Char → Bool} {c : Char} {rest : List Char}
    (h : cs.dropWhile p = c :: rest) : p c = false := by
  have hhead := List.head?_dropWhile_not p cs
  rwa [h] at hhead

/-- What is left of a text is trimmed. -/
theorem trimmed_trim (cs : List Char) : Trimmed (trim cs) := by
  cases htrim : trim cs with
  | nil => exact .inl rfl
  | cons a rest =>
    refine .inr ⟨⟨a, rest, rfl, ?_⟩, ?_⟩
    · obtain ⟨r, -, hstart⟩ := exists_trimEnd (trimStart cs)
      rw [← trim, htrim] at hstart
      exact of_dropWhile_eq_cons hstart
    · have hend : (trimStart cs).reverse.dropWhile isBlank = (a :: rest).reverse := by
        rw [← htrim, trim, trimEnd, dropEndWhile, List.reverse_reverse]
      obtain ⟨ds, b, hb⟩ := (List.eq_nil_or_concat (a :: rest)).resolve_left (List.cons_ne_nil _ _)
      rw [List.concat_eq_append] at hb
      rw [hb, List.reverse_append, List.reverse_singleton, List.singleton_append] at hend
      exact ⟨ds, b, hb, of_dropWhile_eq_cons hend⟩

instance : DecidablePred Trimmed := fun cs ↦
  decidable_of_iff (trim cs = cs) ⟨fun h ↦ h ▸ trimmed_trim cs, Trimmed.trim_eq⟩

/-! ### Words -/

/-- Words come apart at a blank. -/
theorem words_append_blank {b : Char} (hb : isBlank b = true) {ds : List Char} :
    words (cs ++ b :: ds) = words cs ++ words ds := by
  have hsplit : splitBlanks (cs ++ b :: ds) =
      ((splitBlanks cs).1, (splitBlanks cs).2 ++ (splitBlanks ds).1 :: (splitBlanks ds).2) := by
    induction cs with
    | nil => simp [splitBlanks, hb]
    | cons c cs ih =>
      rw [List.cons_append, splitBlanks, ih, splitBlanks]
      cases isBlank c <;> rfl
  rw [words, hsplit]
  exact List.filter_append ((splitBlanks cs).1 :: (splitBlanks cs).2) _

/-- A text without blanks is a word, unless it is empty. -/
theorem Bare.words_eq (h : Bare cs) (hne : cs ≠ []) : words cs = [cs] := by
  have hsplit : splitBlanks cs = (cs, []) := by
    clear hne
    induction cs with
    | nil => rfl
    | cons c cs ih =>
      obtain ⟨hc, hcs⟩ := List.forall_mem_cons.mp h
      rw [splitBlanks, ih hcs, hc]
      rfl
  rw [words, hsplit]
  simp [hne]

/-- Every character but blanks is in a word. -/
theorem exists_mem_words {c : Char} (hc : isBlank c = false) (h : c ∈ cs) :
    ∃ w ∈ words cs, c ∈ w := by
  have hsplit : ∃ w ∈ (splitBlanks cs).1 :: (splitBlanks cs).2, c ∈ w := by
    induction cs with
    | nil => cases h
    | cons d cs ih =>
      by_cases hd : isBlank d = true
      · simp only [splitBlanks, if_pos hd]
        have hm : c ∈ cs := by
          refine (List.mem_cons.mp h).resolve_left ?_
          rintro rfl
          rw [hc] at hd
          cases hd
        obtain ⟨w, hw, hcw⟩ := ih hm
        exact ⟨w, List.mem_cons_of_mem _ hw, hcw⟩
      · simp only [splitBlanks, if_neg hd]
        rcases List.mem_cons.mp h with rfl | hm
        · exact ⟨_, List.mem_cons_self, List.mem_cons_self⟩
        · obtain ⟨w, hw, hcw⟩ := ih hm
          rcases List.mem_cons.mp hw with rfl | hw
          · exact ⟨_, List.mem_cons_self, List.mem_cons_of_mem _ hcw⟩
          · exact ⟨w, List.mem_cons_of_mem _ hw, hcw⟩
  obtain ⟨w, hw, hcw⟩ := hsplit
  exact ⟨w, List.mem_filter.mpr ⟨hw, by simpa using List.ne_nil_of_mem hcw⟩, hcw⟩

/-- Words with one blank between each two. -/
def spaced : List (List Char) → List Char
  | [] => []
  | [w] => w
  | w :: ws => w ++ ' ' :: spaced ws

private theorem spaced_cons_cons (w w' : List Char) (ws : List (List Char)) :
    spaced (w :: w' :: ws) = w ++ ' ' :: spaced (w' :: ws) := rfl

/-- Words are told apart again. -/
theorem words_spaced {ws : List (List Char)} (h : ∀ w ∈ ws, w ≠ [] ∧ Bare w) :
    words (spaced ws) = ws := by
  induction ws with
  | nil => rfl
  | cons w ws ih =>
    obtain ⟨⟨hne, hw⟩, hws⟩ := List.forall_mem_cons.mp h
    cases ws with
    | nil => exact hw.words_eq hne
    | cons w' ws =>
      rw [spaced_cons_cons, words_append_blank (by decide), hw.words_eq hne, ih hws,
        List.singleton_append]

/-- Spaced words are replaced one by one, if that keeps blanks. -/
theorem map_spaced {f : Char → Char} (hf : f ' ' = ' ') (ws : List (List Char)) :
    (spaced ws).map f = spaced (ws.map (·.map f)) := by
  induction ws with
  | nil => rfl
  | cons w ws ih =>
    cases ws with
    | nil => rfl
    | cons w' ws =>
      rw [spaced_cons_cons, List.map_append, List.map_cons, hf, ih]
      rfl

/-- Spaced words consist of blanks and the characters of the words. -/
theorem forall_mem_spaced {p : Char → Prop} (hblank : p ' ') {ws : List (List Char)}
    (h : ∀ w ∈ ws, ∀ c ∈ w, p c) : ∀ c ∈ spaced ws, p c := by
  induction ws with
  | nil => exact nofun
  | cons w ws ih =>
    obtain ⟨hw, hws⟩ := List.forall_mem_cons.mp h
    cases ws with
    | nil => exact hw
    | cons w' ws => exact List.forall_mem_append.mpr ⟨hw, List.forall_mem_cons.mpr ⟨hblank, ih hws⟩⟩

/-- Spaced words begin and end with other characters than blanks. -/
theorem tight_spaced {ws : List (List Char)} (hne : ws ≠ []) (h : ∀ w ∈ ws, w ≠ [] ∧ Bare w) :
    Tight (spaced ws) := by
  induction ws with
  | nil => exact absurd rfl hne
  | cons w ws ih =>
    obtain ⟨⟨hw, hbare⟩, hws⟩ := List.forall_mem_cons.mp h
    cases ws with
    | nil => exact hbare.tight hw
    | cons w' ws => exact (hbare.tight hw).append (ih (List.cons_ne_nil _ _) hws) [' ']

/-! ### Marks -/

/-- A text is cut at its first mark. -/
theorem splitFirst_append {p : Char → Bool} {mark : Char} {ds : List Char}
    (h : ∀ c ∈ cs, p c = false) (hm : p mark = true) :
    splitFirst p (cs ++ mark :: ds) = some (cs, mark, ds) := by
  induction cs with
  | nil => rw [List.nil_append, splitFirst, if_pos hm]
  | cons c cs ih =>
    obtain ⟨hc, hcs⟩ := List.forall_mem_cons.mp h
    rw [List.cons_append, splitFirst, hc, ih hcs]
    rfl

/-- What a text is cut into. -/
theorem splitFirst_eq_some {p : Char → Bool} {before after : List Char} {mark : Char}
    (h : splitFirst p cs = some (before, mark, after)) :
    cs = before ++ mark :: after ∧ p mark = true ∧ ∀ c ∈ before, p c = false := by
  induction cs generalizing before with
  | nil => cases h
  | cons c cs ih =>
    rw [splitFirst] at h
    by_cases hc : p c = true
    · rw [if_pos hc] at h
      cases h
      exact ⟨rfl, hc, nofun⟩
    · rw [if_neg hc] at h
      obtain ⟨⟨rest, mark', after'⟩, hrest, he⟩ := Option.map_eq_some_iff.mp h
      cases he
      obtain ⟨rfl, hmark, hbefore⟩ := ih hrest
      exact ⟨rfl, hmark, List.forall_mem_cons.mpr ⟨by simpa using hc, hbefore⟩⟩

/-! ### Lower case -/

/-- What holds of all ASCII characters. -/
theorem of_ascii {p : Char → Bool} (h : ∀ n < 0x80, p (Char.ofNat n) = true) {c : Char}
    (hc : c.toNat < 0x80) : p c = true := by
  have hp := h c.toNat hc
  rwa [Char.ofNat_toNat] at hp

/-- Letters outside of ASCII are left alone where only the case of ASCII letters is ignored. -/
theorem toLower_of_not_ascii {c : Char} (hc : ¬ c.toNat < 0x80) : c.toLower = c := by
  have hupper : ¬ (c.val ≥ 'A'.val ∧ c.val ≤ 'Z'.val) := by
    rintro ⟨-, h⟩
    exact hc (Nat.lt_of_le_of_lt (UInt32.le_iff_toNat_le.mp h) (by decide))
  exact dif_neg hupper

/-- An ASCII text is brought into lower case letter by letter. -/
theorem toLower_of_ascii (h : ∀ c ∈ cs, c.toNat < 0x80) : toLower cs = cs.map Char.toLower := by
  have hafter (before : List Char) : lowerAfter before cs = cs.map Char.toLower := by
    induction cs generalizing before with
    | nil => rfl
    | cons c cs ih =>
      obtain ⟨hc, hcs⟩ := List.forall_mem_cons.mp h
      have hsigma : c ≠ 'Σ' := by
        rintro rfl
        exact absurd hc (by decide)
      rw [lowerAfter, if_neg hsigma, lowerChar, if_pos hc, ih hcs, List.map_cons]
      rfl
  exact hafter []

end FuzzyInference.Text
