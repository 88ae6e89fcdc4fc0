import FuzzyInference.Json.Reader
import FuzzyInference.Proofs.Json.Printed

/-!
# Reading indented texts

A value that is printable and fits into the depth of the reader is read back from its indented text.
Every value that is read fits into that depth.
-/

namespace FuzzyInference.Json

namespace Reader

/-! ### Reading the words of a value -/

private theorem run_beginValue {token : Token} {ts : List Token} {frames : List Frame}
    (h : token ≠ .rightBracket) :
    (firstItem frames).run (token :: ts) = (value (.array [] :: frames)).run (token :: ts) := by
  cases token with
  | rightBracket => exact absurd rfl h
  | _ => rfl

private theorem exists_tokens_eq (v : Json) :
    ∃ token ts, tokens v = token :: ts ∧ token ≠ .rightBracket := by
  cases v with
  | array items => cases items <;> exact ⟨_, _, rfl, by simp⟩
  | object fields => cases fields <;> exact ⟨_, _, rfl, by simp⟩
  | _ => exact ⟨_, _, rfl, by simp⟩

/-- A field with a usable name. -/
private def named (f : String × Json) : Option String × Json := (some f.1, f.2)

private theorem objectOf_map (fields : List (String × Json)) :
    objectOf (fields.map named) = .object fields.reverse := by
  have hm (fs : List (String × Json)) : (fs.map named).mapM
      (fun (f : Option String × Json) ↦ f.1.map fun name ↦ (name, f.2)) = some fs := by
    induction fs with
    | nil => rfl
    | cons f fs ih => rw [List.map_cons, List.mapM_cons, ih]; rfl
  rw [objectOf, ← List.map_reverse, hm]

private theorem close_eq {container : Json} {frames : List Frame}
    (h : frames.length < maxDepth) : close container frames = after container frames := by
  rw [close, if_pos h]

private theorem run_cons {reader next : Reader} {token : Token} (h : reader.step token = some next)
    (ts : List Token) : reader.run (token :: ts) = next.run ts := by
  rw [run, h]
  rfl

mutual

private theorem run_tokens : (v : Json) → {room : Nat} → v.fits room = true →
    {frames : List Frame} → frames.length + room ≤ maxDepth → (rest : List Token) →
      (value frames).run (tokens v ++ rest) = (after v frames).run rest
  | .array [], room, hf, frames, hl, rest => by
    have hroom := (fits_array_iff.mp hf).1
    rw [tokens, List.cons_append, run_cons rfl, List.cons_append, run_cons rfl, List.nil_append,
      close_eq (by omega)]
  | .array (item :: items), room, hf, frames, hl, rest => by
    simp only [fits, fitsItems, Bool.and_eq_true, decide_eq_true_eq] at hf
    obtain ⟨hroom, hitem, hitems⟩ := hf
    obtain ⟨token, ts, he, hne⟩ := exists_tokens_eq item
    have hlen : (Frame.array [] :: frames).length + (room - 1) ≤ maxDepth := by
      rw [List.length_cons]
      omega
    have hitem := run_tokens item hitem hlen (furtherItems items ++ .rightBracket :: rest)
    rw [tokens, List.cons_append, run_cons rfl, List.append_assoc, List.append_assoc,
      List.singleton_append]
    rw [he, List.cons_append] at hitem ⊢
    rw [run_beginValue hne, hitem, run_furtherItems items hitems (by omega)]
    rfl
  | .object [], room, hf, frames, hl, rest => by
    have hroom := (fits_object_iff.mp hf).1
    rw [tokens, List.cons_append, run_cons rfl, List.cons_append, run_cons rfl, List.nil_append,
      close_eq (by omega)]
  | .object ((name, v) :: fields), room, hf, frames, hl, rest => by
    simp only [fits, fitsFields, Bool.and_eq_true, decide_eq_true_eq] at hf
    obtain ⟨hroom, hvalue, hfields⟩ := hf
    simp only [tokens, List.cons_append, List.append_assoc, List.nil_append]
    rw [run_cons rfl, run_cons rfl, run_cons rfl,
      run_tokens v hvalue (by rw [List.length_cons]; omega)]
    exact run_furtherFields fields hfields (by omega) []
  | .string s, _, _, frames, _, rest => run_cons rfl rest
  | .null, _, _, frames, _, rest => run_cons rfl rest
  | .bool b, _, _, frames, _, rest => run_cons rfl rest
  | .integer n, _, _, frames, _, rest => run_cons rfl rest
  | .real x, _, _, frames, _, rest => run_cons rfl rest
  | .unusable, _, _, frames, _, rest => run_cons rfl rest

private theorem run_furtherItems : (items : List Json) → {room : Nat} →
    fitsItems room items = true → {frames : List Frame} → frames.length + room < maxDepth →
      {v : Json} → {before : List Json} → {rest : List Token} →
        (after v (.array before :: frames)).run (furtherItems items ++ .rightBracket :: rest) =
          (after (.array ((v :: before).reverse ++ items)) frames).run rest
  | [], room, _, frames, hl, v, before, rest => by
    rw [furtherItems, List.nil_append, run_cons rfl, close_eq (by omega), List.append_nil]
  | item :: items, room, hf, frames, hl, v, before, rest => by
    simp only [fitsItems, Bool.and_eq_true] at hf
    rw [furtherItems, List.cons_append, run_cons rfl, List.append_assoc,
      run_tokens item hf.1 (by rw [List.length_cons]; omega),
      run_furtherItems items hf.2 hl]
    simp

private theorem run_furtherFields : (fields : List (String × Json)) → {room : Nat} →
    fitsFields room fields = true → {frames : List Frame} → frames.length + room < maxDepth →
      (before : List (String × Json)) → {name : String} → {v : Json} → {rest : List Token} →
        (after v (.object (before.map named) (some name) :: frames)).run
            (furtherFields fields ++ .rightBrace :: rest) =
          (after (.object (((name, v) :: before).reverse ++ fields)) frames).run rest
  | [], room, _, frames, hl, before, name, v, rest => by
    have hobject : objectOf ((some name, v) :: before.map named) =
        .object ((name, v) :: before).reverse := objectOf_map ((name, v) :: before)
    rw [furtherFields, List.nil_append, run_cons rfl, close_eq (by omega), hobject,
      List.append_nil]
  | (next, w) :: fields, room, hf, frames, hl, before, name, v, rest => by
    simp only [fitsFields, Bool.and_eq_true] at hf
    simp only [furtherFields, List.cons_append, List.append_assoc]
    rw [run_cons rfl, run_cons rfl, run_cons rfl,
      run_tokens w hf.1 (by rw [List.length_cons]; omega)]
    apply (run_furtherFields fields hf.2 hl ((name, v) :: before)).trans
    simp

end

end Reader

/-- A value that is printable and fits into the depth of the reader is read back. -/
theorem ofText?_indented {v : Json} (hf : v.fits Reader.maxDepth = true) (hp : v.Printable) :
    ofText? v.indented = some v := by
  have hrun : (Reader.value []).run (tokens v ++ []) = (Reader.after v []).run [] :=
    Reader.run_tokens v hf (Nat.le_of_eq (Nat.zero_add _)) []
  rw [List.append_nil] at hrun
  rw [ofText?, indented, String.toList_ofList, Token.ofText?_indentedText hf hp, Option.bind_some,
    ofTokens?, hrun]
  rfl

/-! ### What is read -/

namespace Token

/-- What a word stands for by itself fits anywhere. -/
def Fits : Token → Prop
  | plain v => v.fits 0 = true
  | _ => True

private theorem fits_numberValue (word : List Char) : (numberValue word).fits 0 = true := by
  have h63 : Nat.pow 2 63 = 2 ^ 63 := rfl
  have h64 : Nat.pow 2 64 = 2 ^ 64 := rfl
  unfold numberValue
  split
  · next negative d _ =>
    cases negative <;>
      simp only [Bool.false_eq_true, if_false, if_true, h63, h64, Bool.and_eq_true,
        decide_eq_true_eq]
    · split
      · next h =>
        simp only [fits, Bool.and_eq_true, decide_eq_true_eq]
        omega
      · split <;> rfl
    · split
      · next h =>
        simp only [fits, Bool.and_eq_true, decide_eq_true_eq]
        omega
      · split <;> rfl
  · rfl

private theorem fits_of_ofWord? {word : List Char} {token : Token}
    (h : ofWord? word = some token) : token.Fits := by
  unfold ofWord? at h
  split at h
  · cases h
    rfl
  · cases h
    rfl
  · cases h
    rfl
  · split at h
    · cases h
      exact fits_numberValue word
    · cases h

private theorem fits_of_ofQuoted? {body : List Char} {token : Token}
    (h : ofQuoted? body = some token) : token.Fits := by
  obtain ⟨units, -, rfl⟩ := Option.map_eq_some_iff.mp h
  trivial

private theorem fits_of_afterSeparator {c : Char} :
    ∀ token ∈ (afterSeparator c).2, token.Fits := by
  unfold afterSeparator
  split
  · simp
  split
  · simp
  split
  · next token h =>
    have hf : token.Fits := by
      unfold ofMark? at h
      split at h <;> cases h <;> trivial
    simpa using hf
  · simp

private theorem fits_of_read? {cs : List Char} : ∀ {position : Position} {ts : List Token},
    read? position cs = some ts → ∀ token ∈ ts, token.Fits := by
  induction cs with
  | nil =>
    intro position ts h
    cases position with
    | between =>
      cases h
      simp
    | word read =>
      obtain ⟨token, ht, rfl⟩ := Option.map_eq_some_iff.mp h
      simpa using fits_of_ofWord? ht
    | quoted read => cases h
    | escaped read => cases h
  | cons c cs ih =>
    intro position ts h
    cases position with
    | between =>
      obtain ⟨rest, hr, rfl⟩ := Option.map_eq_some_iff.mp h
      exact List.forall_mem_append.mpr ⟨fits_of_afterSeparator, ih hr⟩
    | word read =>
      rw [read?] at h
      split at h
      · obtain ⟨token, ht, h⟩ := Option.bind_eq_some_iff.mp h
        obtain ⟨rest, hr, ⟨⟩⟩ := Option.bind_eq_some_iff.mp h
        exact List.forall_mem_cons.mpr
          ⟨fits_of_ofWord? ht, List.forall_mem_append.mpr ⟨fits_of_afterSeparator, ih hr⟩⟩
      · exact ih h
    | quoted read =>
      rw [read?] at h
      split at h
      · obtain ⟨token, ht, h⟩ := Option.bind_eq_some_iff.mp h
        obtain ⟨rest, hr, ⟨⟩⟩ := Option.bind_eq_some_iff.mp h
        exact List.forall_mem_cons.mpr ⟨fits_of_ofQuoted? ht, ih hr⟩
      split at h
      · exact ih h
      · exact ih h
    | escaped read => exact ih h

end Token

namespace Reader

/-- What a container holds so far fits into some room. -/
def FrameFits (room : Nat) : Frame → Prop
  | .array items => ∀ v ∈ items, v.fits room = true
  | .object fields _ => ∀ f ∈ fields, f.2.fits room = true

/-- Every container that is open holds what fits into the room behind it. -/
def FramesFit : List Frame → Prop
  | [] => True
  | frame :: frames => FrameFits (maxDepth - (frames.length + 1)) frame ∧ FramesFit frames

/-- Whatever has been read so far fits into the room where it stands. -/
def Fits : Reader → Prop
  | value frames => FramesFit frames
  | firstItem frames => FramesFit frames
  | firstField frames => FramesFit frames
  | field fields frames => FramesFit (.object fields none :: frames)
  | colon fields name frames => FramesFit (.object fields name :: frames)
  | after v frames => v.fits (maxDepth - frames.length) = true ∧ FramesFit frames

private theorem fits_close {container : Json} {frames : List Frame} (hf : FramesFit frames)
    (hc : frames.length < maxDepth → container.fits (maxDepth - frames.length) = true) :
    (close container frames).Fits := by
  refine ⟨?_, hf⟩
  split
  · next h => exact hc h
  · rfl

private theorem fits_objectOf {fields : List (Option String × Json)} {room : Nat}
    (h : ∀ f ∈ fields, f.2.fits room = true) : (objectOf fields).fits (room + 1) = true := by
  unfold objectOf
  split
  · next named hm =>
    rw [fits_object_iff]
    refine ⟨Nat.succ_pos _, fun f hf ↦ ?_⟩
    obtain ⟨g, hg, hgf⟩ := Result.exists_left_of_mem (mapM_eq_some_iff.mp hm) hf
    obtain ⟨name, -, rfl⟩ := Option.map_eq_some_iff.mp hgf
    exact h g (List.mem_reverse.mp hg)
  · rfl

private theorem fits_of_beginValue {frames : List Frame} {token : Token} {next : Reader}
    (hf : FramesFit frames) (ht : token.Fits) (h : beginValue frames token = some next) :
    next.Fits := by
  unfold beginValue at h
  split at h
  · cases h
    exact hf
  · cases h
    exact hf
  · cases h
    exact ⟨fits_of_le (Nat.zero_le _) ht, hf⟩
  · cases h
    exact ⟨rfl, hf⟩
  · cases h
    exact ⟨rfl, hf⟩
  · cases h

/-- One more word keeps what has been read within its room. -/
theorem Fits.step {reader next : Reader} {token : Token} (hr : reader.Fits) (ht : token.Fits)
    (h : reader.step token = some next) : next.Fits := by
  unfold Reader.step at h
  split at h
  · exact fits_of_beginValue hr ht h
  · cases h
    exact fits_close hr fun hl ↦ fits_array_iff.mpr ⟨by omega, by simp⟩
  · refine fits_of_beginValue ?_ ht h
    rw [FramesFit]
    exact ⟨by simp [FrameFits], hr⟩
  · cases h
    exact fits_close hr fun hl ↦ fits_object_iff.mpr ⟨by omega, by simp⟩
  · cases h
    exact ⟨by simp [FrameFits], hr⟩
  · cases h
    exact hr
  · cases h
    exact hr
  · cases h
    obtain ⟨hv, hitems, hframes⟩ := hr
    exact ⟨List.forall_mem_cons.mpr ⟨hv, hitems⟩, hframes⟩
  · next v items frames =>
    cases h
    obtain ⟨hv, hitems, hframes⟩ := hr
    have hall : ∀ w ∈ v :: items, w.fits (maxDepth - (frames.length + 1)) = true :=
      List.forall_mem_cons.mpr ⟨hv, hitems⟩
    refine fits_close hframes fun hl ↦ fits_array_iff.mpr ⟨by omega, fun w hw ↦ ?_⟩
    rw [Nat.sub_sub]
    exact hall w (List.mem_reverse.mp hw)
  · cases h
    obtain ⟨hv, hfields, hframes⟩ := hr
    exact ⟨List.forall_mem_cons.mpr ⟨hv, hfields⟩, hframes⟩
  · next v fields name frames =>
    cases h
    obtain ⟨hv, hfields, hframes⟩ := hr
    have hall : ∀ f ∈ (name, v) :: fields, f.2.fits (maxDepth - (frames.length + 1)) = true :=
      List.forall_mem_cons.mpr ⟨hv, hfields⟩
    apply fits_close hframes
    intro hl
    have hobject := fits_objectOf hall
    rwa [show maxDepth - (frames.length + 1) + 1 = maxDepth - frames.length from by omega]
      at hobject
  · cases h

/-- A list of words keeps what has been read within its room. -/
theorem Fits.run {tokens : List Token} (ht : ∀ token ∈ tokens, token.Fits) :
    ∀ {reader next : Reader}, reader.Fits → reader.run tokens = some next → next.Fits := by
  induction tokens with
  | nil =>
    intro reader next hr h
    cases h
    exact hr
  | cons token tokens ih =>
    intro reader next hr h
    rw [List.forall_mem_cons] at ht
    obtain ⟨middle, hm, h⟩ := Option.bind_eq_some_iff.mp h
    exact ih ht.2 (hr.step ht.1 hm) h

end Reader

/-- Every value that is read fits into the depth of the reader. -/
theorem fits_of_ofText? {text : String} {v : Json} (h : ofText? text = some v) :
    v.fits Reader.maxDepth = true := by
  obtain ⟨ts, ht, h⟩ := Option.bind_eq_some_iff.mp h
  unfold ofTokens? at h
  split at h
  · next w hrun =>
    cases h
    exact (Reader.Fits.run (Token.fits_of_read? ht) (show Reader.Fits (.value []) from trivial)
      hrun).1
  · cases h

end FuzzyInference.Json
