import FuzzyInference.Scalar.Machine
import Mathlib

/-!
# Counts as machine numbers

The machine number nearest to a count is finite if the count fits into a machine word. Rounding
moves the exponent up by at most twice the length of the mantissa, which is far from the largest
exponent there is.
-/

namespace FuzzyInference

open Float.Model Float.Model.UnpackedFloat

/-- Zero, or a finite number whose exponent is at most `b`. -/
private def ExponentAtMost (b : Int) : UnpackedFloat → Prop
  | .zero _ => True
  | .finite _ _ e _ => e ≤ b
  | .infinity _ | .notANumber => False

/-! ### Rounding -/

private theorem mantissa_shiftRight_le (m : ExtendedMantissa) (n : Nat) :
    (m >>> n).mantissa ≤ m.mantissa := by
  show (n.repeat ExtendedMantissa.shiftRightOne m).mantissa ≤ m.mantissa
  induction n with
  | zero => exact Nat.le_refl _
  | succ n ih => exact Nat.le_trans (Nat.div_le_self _ 2) ih

private theorem roundedMantissa_le (m : ExtendedMantissa) : m.roundedMantissa ≤ m.mantissa + 1 := by
  obtain ⟨m, round, sticky⟩ := m
  cases round <;> cases sticky <;>
    simp [ExtendedMantissa.roundedMantissa, ExtendedMantissa.accuracy,
      Accuracy.roundToNearestEven]
  omega

private theorem shiftToTargetExponent_le {m a : Nat} {e b : Int} (accuracy : Accuracy)
    (hm : m ≤ 2 ^ a) (he : e ≤ b) (hb : -1074 ≤ b) :
    (shiftToTargetExponent Format.binary64 m e accuracy).1.mantissa ≤ m ∧
      (shiftToTargetExponent Format.binary64 m e accuracy).2 ≤ b + a := by
  have hlog : m.log2 ≤ a := by
    rcases Nat.eq_zero_or_pos m with rfl | hpos
    · exact Nat.zero_le a
    · have hlt : m < 2 ^ (a + 1) :=
        Nat.lt_of_le_of_lt hm (Nat.pow_lt_pow_right (by decide) (Nat.lt_succ_self a))
      exact Nat.le_of_lt_succ ((Nat.log2_lt (Nat.ne_of_gt hpos)).mpr hlt)
  constructor
  · refine Nat.le_trans (mantissa_shiftRight_le _ _) (Nat.le_of_eq ?_)
    cases accuracy with
    | exact => rfl
    | inexact o => cases o <;> rfl
  · simp only [shiftToTargetExponent, shiftToExponent, totalExponent, Format.targetExponent,
      Format.mantissaBits, Format.minExponent]
    omega

private theorem exponentAtMost_round {m a : Nat} {e b : Int} (s : Sign) (accuracy : Accuracy)
    (hm : m < 2 ^ a) (he : e ≤ b) (hb : -1074 ≤ b) :
    ExponentAtMost (b + 2 * a) (roundWithAccuracy Format.binary64 s m e accuracy) := by
  obtain ⟨hmantissa, he⟩ := shiftToTargetExponent_le accuracy (Nat.le_of_lt hm) he hb
  generalize hfirst : shiftToTargetExponent Format.binary64 m e accuracy = first at hmantissa he
  -- What is rounded up to a power of two is shifted once more.
  have hrounded : first.1.roundedMantissa ≤ 2 ^ a :=
    Nat.le_trans (roundedMantissa_le _) (Nat.succ_le_of_lt (Nat.lt_of_le_of_lt hmantissa hm))
  obtain ⟨-, he⟩ := shiftToTargetExponent_le .exact hrounded he (by omega)
  unfold roundWithAccuracy
  simp only [hfirst]
  split
  · trivial
  · show _ ≤ _
    omega

/-! ### Packing -/

private theorem mantissa_unpack_lt {bits : BitVec 64} {s : Sign} {m : Nat} {e : Int} {hm : 0 < m}
    (h : UnpackedFloat.unpack Format.binary64 bits = .finite s m e hm) : m < 2 ^ 53 := by
  unfold UnpackedFloat.unpack at h
  simp only at h
  split at h
  · split at h <;> cases h
  · split at h
    · split at h
      · cases h
      · cases h
        exact Nat.lt_trans (BitVec.isLt _) (by decide)
    · cases h
      exact BitVec.isLt _

private theorem exponentAtMost_unpack {bits : BitVec 64} {b : Int}
    (hne : @unpackExponent Format.binary64 bits ≠ -1#_)
    (he : ((@unpackExponent Format.binary64 bits).toNat : Int) - 1075 ≤ b)
    (hb : -1074 ≤ b) : ExponentAtMost b (UnpackedFloat.unpack Format.binary64 bits) := by
  unfold UnpackedFloat.unpack
  simp only [hne, if_false]
  split
  · next hz =>
    split
    · trivial
    · show _ - 1075 + 1 ≤ b
      rw [hz]
      exact hb
  · exact he

private theorem exponentAtMost_unpack_pack {f : UnpackedFloat} {b : Int} (h : ExponentAtMost b f)
    (hlow : -1074 ≤ b) (hhigh : b ≤ 971) : ExponentAtMost b (Float.Model.pack f).unpack := by
  show ExponentAtMost b
    (UnpackedFloat.unpack Format.binary64 (UnpackedFloat.pack Format.binary64 f))
  cases f with
  | infinity | notANumber => cases h
  | zero s => cases s <;> trivial
  | finite s m e hm =>
    have he : e ≤ b := h
    have hbiased : (e + (1023 : Nat) + (52 : Nat)).toNat < 2047 := by omega
    have hnot : ¬ 2 ^ 11 ≤ (e + (1023 : Nat) + (52 : Nat)).toNat + 1 := by omega
    have hexponent : (BitVec.ofNat 11 (e + (1023 : Nat) + (52 : Nat)).toNat).toNat =
        (e + (1023 : Nat) + (52 : Nat)).toNat := by
      rw [BitVec.toNat_ofNat, Nat.mod_eq_of_lt (by omega)]
    unfold UnpackedFloat.pack
    simp only [show Format.exponentBias Format.binary64 = 1023 from rfl, hnot, if_false]
    split
    · refine exponentAtMost_unpack ?_ ?_ hlow
      · rw [unpackExponent_packComponents]
        intro hmax
        have hmax := hexponent.symm.trans (congrArg BitVec.toNat hmax)
        rw [show (-1#11).toNat = 2047 from rfl] at hmax
        omega
      · rw [unpackExponent_packComponents]
        have hvalue : ((e + (1023 : Nat) + (52 : Nat)).toNat : Int) - 1075 ≤ b := by omega
        rwa [← hexponent] at hvalue
    · refine exponentAtMost_unpack ?_ ?_ hlow
      · rw [unpackExponent_packComponents]
        decide
      · rw [unpackExponent_packComponents]
        show (0 : Int) - 1075 ≤ b
        omega

private theorem isFinite_pack_round {m a : Nat} {e b : Int} (s : Sign) (hm : m < 2 ^ a) (he : e ≤ b)
    (hlow : -1074 ≤ b) (hhigh : b + 2 * a ≤ 971) :
    (Float.Model.pack (roundWithAccuracy Format.binary64 s m e .exact)).unpack.isFinite = true := by
  have h := exponentAtMost_unpack_pack (exponentAtMost_round s .exact hm he hlow) (by omega) hhigh
  cases hunpack : (Float.Model.pack (roundWithAccuracy Format.binary64 s m e .exact)).unpack with
  | zero | finite => rfl
  | infinity | notANumber =>
    rw [hunpack] at h
    cases h

private theorem exponentAtMost_ofNat {n : Nat} (hn : n < 2 ^ 53) :
    ExponentAtMost 210 (UnpackedFloat.ofNat Format.binary64 n) := by
  unfold UnpackedFloat.ofNat UnpackedFloat.ofInt UnpackedFloat.normalize
  split
  · next h => exact absurd (Int.compare_eq_lt.mp h) (by omega)
  · trivial
  · -- The mantissa is shifted to the left until it has 53 bits.
    have hshift : (0 - Format.binary64.targetExponent (totalExponent n 0)).toNat ≤ 52 := by
      simp only [Format.targetExponent, totalExponent, Format.mantissaBits]
      omega
    have hmantissa : n <<< (0 - Format.binary64.targetExponent (totalExponent n 0)).toNat <
        2 ^ 105 := by
      rw [Nat.shiftLeft_eq, show 105 = 53 + 52 from rfl, Nat.pow_add]
      exact Nat.mul_lt_mul_of_lt_of_le hn (Nat.pow_le_pow_right (by decide) hshift) (by decide)
    exact exponentAtMost_round (b := 0) _ _ hmantissa (by omega) (by decide)

/-! ### Main results -/

/-- A count that fits into a machine word is nearest to a finite number. -/
theorem isFinite_ofNat {n : Nat} (hn : n < 2 ^ 64) : (Float.ofNat n).isFinite = true := by
  show (Float.ofScientific n false 0).isFinite = true
  unfold Float.ofScientific
  split
  · next h =>
    -- The count is converted, and multiplied by one.
    have hcount : ExponentAtMost 210 n.toUInt64.toFloat.toModel.unpack := by
      have hn : n.toUInt64.toNat < 2 ^ 53 := Nat.lt_of_le_of_lt (Nat.mod_le _ _) h.1
      exact exponentAtMost_unpack_pack (exponentAtMost_ofNat hn) (by decide) (by decide)
    have hone : (Float.ofBits 0x3ff0000000000000).toModel.unpack =
        .finite .positive (2 ^ 52) (-52) (by decide) := by rfl
    show (Float.Model.pack (UnpackedFloat.mul Format.binary64 n.toUInt64.toFloat.toModel.unpack
      (Float.ofBits 0x3ff0000000000000).toModel.unpack)).unpack.isFinite = true
    rw [hone]
    cases hunpack : n.toUInt64.toFloat.toModel.unpack with
    | infinity | notANumber =>
      rw [hunpack] at hcount
      cases hcount
    | zero s => cases s <;> rfl
    | finite s m e hm =>
      rw [hunpack] at hcount
      have he : e ≤ 210 := hcount
      have hm : m < 2 ^ 53 := mantissa_unpack_lt hunpack
      have hproduct : m * 2 ^ 52 < 2 ^ 105 := by omega
      have he : e + -52 ≤ 158 := by omega
      exact isFinite_pack_round _ hproduct he (by decide) (by decide)
  · next h =>
    have hpos : n ≠ 0 := by omega
    have hlarge : ¬ (0 : Int) > 2 ^ 11 := by decide
    have hsmall : ¬ (0 : Int) < -(2 ^ 11 + n.log2) := by omega
    have hproduct : n <<< Format.binary64.mantissaBits * 10 ^ Int.toNat 0 < 2 ^ 117 := by
      rw [show Format.binary64.mantissaBits = 53 from rfl, Nat.shiftLeft_eq,
        show 10 ^ Int.toNat 0 = 1 from rfl]
      omega
    show (Float.Model.pack (UnpackedFloat.ofScientific Format.binary64 n 0)).unpack.isFinite = true
    unfold UnpackedFloat.ofScientific
    simp only [hpos, hlarge, hsmall, dite_false, if_false, Int.le_refl, if_true, UnpackedFloat.mul]
    exact isFinite_pack_round (b := 0) _ hproduct (by decide) (by decide) (by decide)

end FuzzyInference
