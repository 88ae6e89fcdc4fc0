import FuzzyInference.Proofs.Json.Basic
import FuzzyInference.Proofs.Json.Number
import FuzzyInference.Proofs.Json.Quoted

/-!
# The tokens of indented texts

The indented text of a value is cut into the words that the value consists of, wherever it stands.
-/

namespace FuzzyInference.Json

mutual

/-- The words that a value consists of. -/
def tokens : Json → List Token
  | array [] => [.leftBracket, .rightBracket]
  | array (item :: items) =>
    .leftBracket :: (tokens item ++ (furtherItems items ++ [.rightBracket]))
  | object [] => [.leftBrace, .rightBrace]
  | object ((name, value) :: fields) =>
    .leftBrace :: .text (some name) :: .colon ::
      (tokens value ++ (furtherFields fields ++ [.rightBrace]))
  | string s => [.text (some s)]
  | leaf => [.plain leaf]

/-- The words of further values, each behind a comma. -/
def furtherItems : List Json → List Token
  | [] => []
  | item :: items => .comma :: (tokens item ++ furtherItems items)

/-- The words of further fields, each behind a comma. -/
def furtherFields : List (String × Json) → List Token
  | [] => []
  | (name, value) :: fields =>
    .comma :: .text (some name) :: .colon :: (tokens value ++ furtherFields fields)

end

namespace Token

/-- A bare word in front of a text is not continued by it. -/
def Ends (rest : List Char) : Prop := ∀ c ∈ rest.head?, endsWord c = true

private theorem read?_mark {c : Char} {token : Token} (hc : ofMark? c = some token)
    (hs : isSpace c = false) (hq : c ≠ '"') (cs : List Char) :
    read? .between (c :: cs) = (read? .between cs).map (token :: ·) := by
  have hafter : afterSeparator c = (.between, [token]) := by
    rw [afterSeparator, if_neg hq, hs, if_neg (by decide), hc]
  rw [read?, hafter]
  rfl

private theorem read?_space {c : Char} (hs : isSpace c = true) (cs : List Char) :
    read? .between (c :: cs) = read? .between cs := by
  have hq : c ≠ '"' := by
    rintro rfl
    cases hs
  have hafter : afterSeparator c = (.between, []) := by
    rw [afterSeparator, if_neg hq, if_pos hs]
  rw [read?, hafter]
  show (read? .between cs).map ([] ++ ·) = _
  simp

private theorem read?_newline (level : Nat) (cs : List Char) :
    read? .between (newline level ++ cs) = read? .between cs := by
  have hblanks (n : Nat) : read? .between (List.replicate n ' ' ++ cs) = read? .between cs := by
    induction n with
    | zero => rfl
    | succ n ih => rw [List.replicate_succ, List.cons_append, read?_space (by decide), ih]
  rw [newline, List.cons_append, read?_space (by decide), hblanks]

private theorem read?_word {word rest : List Char} (hw : ∀ c ∈ word, endsWord c = false)
    (hr : Ends rest) {token : Token} : ∀ read : List Char,
    ofWord? (read.reverse ++ word) = some token →
      read? (.word read) (word ++ rest) = (read? .between rest).map (token :: ·) := by
  induction word with
  | nil =>
    intro read ht
    rw [List.append_nil] at ht
    cases rest with
    | nil => simp only [List.nil_append, read?, ht, Option.map_some]
    | cons c cs =>
      simp only [List.nil_append, read?, hr c (by simp), if_true, ht]
      cases read? (afterSeparator c).1 cs <;> rfl
  | cons c word ih =>
    intro read ht
    rw [List.forall_mem_cons] at hw
    rw [List.cons_append, read?, if_neg (by simp [hw.1])]
    exact ih hw.2 (c :: read) (by simpa using ht)

private theorem read?_leaf {word rest : List Char}
    (hw : ∀ c ∈ word, endsWord c = false) (hr : Ends rest) {token : Token}
    (ht : ofWord? word = some token) :
    read? .between (word ++ rest) = (read? .between rest).map (token :: ·) := by
  cases word with
  | nil =>
    rw [show ofWord? [] = none from rfl] at ht
    cases ht
  | cons c word =>
    rw [List.forall_mem_cons] at hw
    have hc := hw.1
    simp only [endsWord, Bool.or_eq_false_iff, decide_eq_false_iff_not] at hc
    have hafter : afterSeparator c = (.word [c], []) := by
      have hmark : ofMark? c = none := by simpa using hc.2
      rw [afterSeparator, if_neg hc.1.1, hc.1.2, if_neg (by decide), hmark]
    rw [List.cons_append, read?, hafter]
    show (read? (.word [c]) (word ++ rest)).map ([] ++ ·) = _
    rw [read?_word hw.2 hr [c] ht, Option.map_map]
    rfl

private theorem endsWord_of_all {word : List Char} (h : word.all (!endsWord ·) = true) :
    ∀ c ∈ word, endsWord c = false := by
  simpa using h

private theorem read?_leafText {v : Json} {room : Nat} (hf : v.fits room = true)
    (hp : v.Printable) (hs : ∀ s, v ≠ string s) (ha : ∀ items, v ≠ array items)
    (ho : ∀ fields, v ≠ object fields) {rest : List Char} (hr : Ends rest) :
    read? .between (leafText v ++ rest) = (read? .between rest).map (plain v :: ·) := by
  cases v with
  | null => exact read?_leaf (endsWord_of_all rfl) hr rfl
  | bool b => cases b <;> exact read?_leaf (endsWord_of_all rfl) hr rfl
  | integer n =>
    simp only [fits, Bool.and_eq_true, decide_eq_true_eq] at hf
    exact read?_leaf (endsWord_integer n) hr (ofWord?_integer hf.1 hf.2)
  | real x => exact read?_leaf (endsWord_real hp.1) hr (ofWord?_real hp.1 hp.2)
  | string s => exact absurd rfl (hs s)
  | array items => exact absurd rfl (ha items)
  | object fields => exact absurd rfl (ho fields)
  | unusable => exact absurd hp id

private theorem ends_further (level : Nat) (items : List Json) (fields : List (String × Json))
    {rest : List Char} (hr : Ends rest) :
    Ends (indentedItems level items ++ rest) ∧ Ends (indentedFields level fields ++ rest) := by
  constructor
  · cases items with
    | nil => exact hr
    | cons => simp [Ends, indentedItems, endsWord, isSpace, ofMark?]
  · cases fields with
    | nil => exact hr
    | cons => simp [Ends, indentedFields, endsWord, isSpace, ofMark?]

private theorem ends_newline (level : Nat) (rest : List Char) : Ends (newline level ++ rest) := by
  simp [Ends, newline, endsWord, isSpace]

mutual

/-- The indented text of a value is cut into the words of the value. -/
theorem read?_indentedText : (v : Json) → {room : Nat} → v.fits room = true → v.Printable →
    (level : Nat) → {rest : List Char} → Ends rest →
      read? .between (indentedText level v ++ rest) = (read? .between rest).map (tokens v ++ ·)
  | array [], _, _, _, level, rest, _ => by
    simp only [indentedText, List.cons_append, List.nil_append]
    rw [read?_mark (c := '[') rfl rfl (by decide), read?_mark (c := ']') rfl rfl (by decide)]
    simp only [Option.map_map, tokens]
    rfl
  | array (item :: items), room, hf, hp, level, rest, _ => by
    simp only [fits, fitsItems, Bool.and_eq_true] at hf
    simp only [indentedText, List.cons_append, List.append_assoc, List.nil_append]
    rw [read?_mark (c := '[') rfl rfl (by decide), read?_newline,
      read?_indentedText item hf.2.1 hp.1 _ (ends_further _ items [] (ends_newline _ _)).1,
      read?_indentedItems items hf.2.2 hp.2 _ (ends_newline _ _), read?_newline,
      read?_mark (c := ']') rfl rfl (by decide)]
    simp only [Option.map_map, tokens]
    congr 1
    funext ts
    simp
  | object [], _, _, _, level, rest, _ => by
    simp only [indentedText, List.cons_append, List.nil_append]
    rw [read?_mark (c := '\x7b') rfl rfl (by decide), read?_mark (c := '\x7d') rfl rfl (by decide)]
    simp only [Option.map_map, tokens]
    rfl
  | object ((name, value) :: fields), room, hf, hp, level, rest, _ => by
    simp only [fits, fitsFields, Bool.and_eq_true] at hf
    simp only [indentedText, List.cons_append, List.append_assoc, List.nil_append]
    rw [read?_mark (c := '\x7b') rfl rfl (by decide), read?_newline, read?_quote,
      read?_mark (c := ':') rfl rfl (by decide), read?_space rfl,
      read?_indentedText value hf.2.1 hp.1 _ (ends_further _ [] fields (ends_newline _ _)).2,
      read?_indentedFields fields hf.2.2 hp.2 _ (ends_newline _ _), read?_newline,
      read?_mark (c := '\x7d') rfl rfl (by decide)]
    simp only [Option.map_map, tokens]
    congr 1
    funext ts
    simp
  | string s, _, _, _, level, rest, _ => read?_quote s rest
  | null, _, hf, hp, level, rest, hr => read?_leafText hf hp nofun nofun nofun hr
  | bool b, _, hf, hp, level, rest, hr => read?_leafText hf hp nofun nofun nofun hr
  | integer n, _, hf, hp, level, rest, hr => read?_leafText hf hp nofun nofun nofun hr
  | real x, _, hf, hp, level, rest, hr => read?_leafText hf hp nofun nofun nofun hr
  | unusable, _, _, hp, _, _, _ => absurd hp id

private theorem read?_indentedItems : (items : List Json) → {room : Nat} →
    fitsItems room items = true → PrintableItems items → (level : Nat) → {rest : List Char} →
      Ends rest → read? .between (indentedItems level items ++ rest) =
        (read? .between rest).map (furtherItems items ++ ·)
  | [], _, _, _, _, rest, _ => by simp [indentedItems, furtherItems]
  | item :: items, room, hf, hp, level, rest, hr => by
    simp only [fitsItems, Bool.and_eq_true] at hf
    simp only [indentedItems, List.cons_append, List.append_assoc]
    rw [read?_mark (c := ',') rfl rfl (by decide), read?_newline,
      read?_indentedText item hf.1 hp.1 _ (ends_further _ items [] hr).1,
      read?_indentedItems items hf.2 hp.2 _ hr]
    simp only [Option.map_map, furtherItems]
    congr 1
    funext ts
    simp

private theorem read?_indentedFields : (fields : List (String × Json)) → {room : Nat} →
    fitsFields room fields = true → PrintableFields fields → (level : Nat) →
      {rest : List Char} → Ends rest →
        read? .between (indentedFields level fields ++ rest) =
          (read? .between rest).map (furtherFields fields ++ ·)
  | [], _, _, _, _, rest, _ => by simp [indentedFields, furtherFields]
  | (name, value) :: fields, room, hf, hp, level, rest, hr => by
    simp only [fitsFields, Bool.and_eq_true] at hf
    simp only [indentedFields, List.cons_append, List.append_assoc, List.nil_append]
    rw [read?_mark (c := ',') rfl rfl (by decide), read?_newline, read?_quote,
      read?_mark (c := ':') rfl rfl (by decide), read?_space rfl,
      read?_indentedText value hf.1 hp.1 _ (ends_further _ [] fields hr).2,
      read?_indentedFields fields hf.2 hp.2 _ hr]
    simp only [Option.map_map, furtherFields]
    congr 1
    funext ts
    simp

end

/-- The indented text of a value is cut into the words of the value. -/
theorem ofText?_indentedText {v : Json} {room : Nat} (hf : v.fits room = true)
    (hp : v.Printable) : ofText? (v.indentedText 0) = some (tokens v) := by
  have h := read?_indentedText v hf hp 0 (show Ends [] from by simp [Ends])
  simpa [ofText?, read?] using h

end Token

end FuzzyInference.Json
