import FuzzyInference.Proofs.CSource.Spelled
import FuzzyInference.Proofs.Scalar.Exact

/-!
# Numbers as they are spelled

Every exact number that a floating constant stands for can be written so that it is read back, and
so can its opposite, behind a sign. The text that generated units have for a machine number is a
spelling of this kind wherever it is read as the number.
-/

namespace FuzzyInference.CSource

variable {cs : List Char}

/-- A number whose text is a constant, or a sign and a constant, is read back if that stands for the
number, or for its opposite. -/
theorem Spelling.readsBack_of_write {α : Type} [Neg α] {sp : Spelling α} {x y : α}
    {negative : Bool} (h : IsFloatingConstant cs)
    (hwrite : (sp.write x).toList = Numeral.signed negative cs) (hread : sp.read cs = some y)
    (hvalue : (if negative then -y else y) = x) : sp.ReadsBack x ∧ sp.signed x = negative := by
  have hsigned : sp.signed x = negative := by
    rw [Spelling.signed, hwrite]
    cases negative with
    | true => rfl
    | false =>
      obtain ⟨c, ds, rfl, hc⟩ := h.exists_head
      rw [Numeral.signed, if_neg Bool.false_ne_true, List.head?_cons, beq_eq_false_iff_ne]
      rintro ⟨⟩
      rcases hc with hc | hc <;> cases hc
  have hmagnitude : sp.magnitude x = cs := by
    rw [Spelling.magnitude, hsigned, hwrite]
    cases negative <;> rfl
  have hsize : sp.size x = y := by
    rw [Spelling.size, hmagnitude, hread, Option.getD_some]
  refine ⟨⟨hmagnitude ▸ h, ?_, ?_⟩, hsigned⟩
  · rw [hmagnitude, hread, hsize]
  · rw [hsigned, hsize, hvalue]

/-! ### Exact numbers -/

open Classical in
/-- The text of a constant that stands for a number, or else of a sign and one that stands for its
opposite, if there is any. -/
noncomputable def exactText (x : Exact) : String :=
  if h : ∃ cs, IsFloatingConstant cs ∧ Scalar.ofText? cs = some x then String.ofList h.choose
  else if h : ∃ cs, IsFloatingConstant cs ∧ Scalar.ofText? cs = some (-x) then
    String.ofList ('-' :: h.choose)
  else ""

/-- Numbers are written so, and constants are read as what they stand for. -/
noncomputable def exactSpelling : Spelling Exact where
  write := exactText
  read := Scalar.ofText?

section Exact

variable {x : Exact}

/-- What a constant stands for is written without a sign and read back. -/
theorem exactSpelling_constant (h : IsFloatingConstant cs) (hx : Scalar.ofText? cs = some x) :
    exactSpelling.ReadsBack x ∧ exactSpelling.signed x = false := by
  have hwritten : ∃ cs, IsFloatingConstant cs ∧ Scalar.ofText? cs = some x := ⟨cs, h, hx⟩
  have hwrite : (exactSpelling.write x).toList = Numeral.signed false hwritten.choose := by
    show (exactText x).toList = _
    rw [exactText, dif_pos hwritten, String.toList_ofList]
    rfl
  obtain ⟨hconstant, hread⟩ := hwritten.choose_spec
  exact Spelling.readsBack_of_write hconstant hwrite hread rfl

/-- The opposite of what a constant stands for is read back. -/
theorem exactSpelling_neg (h : IsFloatingConstant cs) (hx : Scalar.ofText? cs = some x) :
    exactSpelling.ReadsBack (-x) := by
  have hneg : -(-x) = x := by
    cases x with
    | number y => exact congrArg Exact.number (neg_neg y)
    | infinite s => cases s <;> rfl
    | nan => rfl
  by_cases hwritten : ∃ cs, IsFloatingConstant cs ∧ Scalar.ofText? cs = some (-x)
  · obtain ⟨ds, hds, hread⟩ := hwritten
    exact (exactSpelling_constant hds hread).1
  · have hopposite : ∃ cs, IsFloatingConstant cs ∧ Scalar.ofText? cs = some (-(-x)) :=
      ⟨cs, h, hneg.symm ▸ hx⟩
    have hwrite : (exactSpelling.write (-x)).toList = Numeral.signed true hopposite.choose := by
      show (exactText (-x)).toList = _
      rw [exactText, dif_neg hwritten, dif_pos hopposite, String.toList_ofList]
      rfl
    obtain ⟨hconstant, hread⟩ := hopposite.choose_spec
    exact (Spelling.readsBack_of_write hconstant hwrite hread (congrArg Neg.neg hneg)).1

/-- The number of a decimal that a constant stands for is read back, and is written without a
sign. -/
theorem exactSpelling_decimal (digits : Nat) (exponent : Int) {y : ℝ} (h : IsFloatingConstant cs)
    (hread : Scalar.ofText? cs = some (Scalar.ofDecimal digits exponent : Exact))
    (hy : digits * 10 ^ exponent = y) :
    exactSpelling.ReadsBack (.number y) ∧ exactSpelling.signed (.number y) = false := by
  subst hy
  exact exactSpelling_constant h hread

/-- The opposite of such a number is read back. -/
theorem exactSpelling_neg_decimal (digits : Nat) (exponent : Int) {y : ℝ}
    (h : IsFloatingConstant cs)
    (hread : Scalar.ofText? cs = some (Scalar.ofDecimal digits exponent : Exact))
    (hy : digits * 10 ^ exponent = y) : exactSpelling.ReadsBack (.number (-y)) := by
  subst hy
  exact exactSpelling_neg h hread

/-- One digit before the point and one behind it are a constant. -/
theorem isFloatingConstant_digits (c d : Char) (hc : c.isDigit = true) (hd : d.isDigit = true) :
    IsFloatingConstant ([c] ++ '.' :: [d]) :=
  .fractional ⟨nofun, by simp [hc, hd]⟩

/-- The small numbers are read back, and are written without a sign. -/
theorem exactSpelling_small {n : Nat} (hn : n ≤ 2) :
    exactSpelling.ReadsBack (.number n) ∧ exactSpelling.signed (.number n) = false := by
  rcases (by omega : n = 0 ∨ n = 1 ∨ n = 2) with rfl | rfl | rfl
  · exact exactSpelling_decimal 0 (-1)
      (isFloatingConstant_digits '0' '0' (by decide) (by decide)) rfl (by norm_num)
  · exact exactSpelling_decimal 10 (-1)
      (isFloatingConstant_digits '1' '0' (by decide) (by decide)) rfl (by norm_num)
  · exact exactSpelling_decimal 20 (-1)
      (isFloatingConstant_digits '2' '0' (by decide) (by decide)) rfl (by norm_num)

end Exact

/-! ### Machine numbers -/

/-- Machine numbers are written as they are in units, and constants are read as what they stand
for. -/
def machineSpelling : Spelling Float where
  write := Layout.literal.render
  read := Scalar.ofText?

/-- A finite number is read back from its text if that is read as the number, sign and all. -/
theorem machineSpelling_readsBack {x : Float} (hx : x.isFinite = true)
    (hread : Scalar.ofText? (Layout.literal.render x).toList = some x) :
    machineSpelling.ReadsBack x := by
  have hconstant := isFloatingConstant_magnitude x
  have hwrite : (Layout.literal.render x).toList =
      Numeral.signed (Layout.signBit x) (Layout.literal.magnitude x) := Layout.toList_render hx
  -- The text is read as a decimal with the sign that is written.
  obtain ⟨c, ds, hcs, hc⟩ := hconstant.exists_head
  have hnumeral (negative : Bool) :
      Numeral.ofText? (Numeral.signed negative (Layout.literal.magnitude x)) =
        (Numeral.magnitude? (Layout.literal.magnitude x)).map (.decimal negative) := by
    rw [hcs]
    exact Numeral.ofText?_signed hc negative
  rw [Scalar.ofText?, hwrite, hnumeral, Option.map_map] at hread
  obtain ⟨d, hd, hvalue⟩ := Option.map_eq_some_iff.mp hread
  have hmagnitude : machineSpelling.read (Layout.literal.magnitude x) =
      some (Scalar.ofDecimal d.digits d.exponent) := by
    have hunsigned := hnumeral false
    rw [hd] at hunsigned
    exact congrArg (Option.map Numeral.value) hunsigned
  exact (Spelling.readsBack_of_write hconstant hwrite hmagnitude hvalue).1

end FuzzyInference.CSource
