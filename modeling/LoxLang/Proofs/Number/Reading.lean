import Mathlib
import LoxLang.Number.Read
import LoxLang.Number.Written

/-!
# Numbers that are read

A double that is read from digits is a number, though it may be an infinite
one, and its sign bit is zero.  This follows through the roundings, the packing
into bits and the table of the powers of ten.
-/

namespace LoxLang
namespace Number

open Float.Model (UnpackedFloat)
open Float.Model.UnpackedFloat (Sign)

/-- A number, maybe infinite, whose sign is positive. -/
def Unsigned : UnpackedFloat → Prop
  | .infinity sign | .zero sign | .finite sign _ _ _ => sign = .positive
  | .notANumber => False

theorem unsigned_roundWithAccuracy
    (spec : Float.Model.Format) (mantissa : Nat) (exponent : Int)
    (accuracy : UnpackedFloat.Accuracy) :
    Unsigned (UnpackedFloat.roundWithAccuracy spec .positive mantissa exponent
      accuracy) := by
  unfold UnpackedFloat.roundWithAccuracy
  dsimp only
  split <;> rfl

theorem unsigned_ofNat (spec : Float.Model.Format) (n : Nat) :
    Unsigned (UnpackedFloat.ofNat spec n) := by
  unfold UnpackedFloat.ofNat UnpackedFloat.ofInt UnpackedFloat.normalize
  split
  · rename_i hcompare
    rw [Int.compare_eq_lt] at hcompare
    omega
  · rfl
  · exact unsigned_roundWithAccuracy ..

private theorem unsigned_unpack
    {bits : BitVec 64}
    (hsign : @UnpackedFloat.unpackSign .binary64 bits = 0#1)
    (h : @UnpackedFloat.unpackExponent .binary64 bits = -1#11 →
      @UnpackedFloat.unpackMantissa .binary64 bits = 0#52) :
    Unsigned (UnpackedFloat.unpack .binary64 bits) := by
  have hpositive : Sign.ofBitVec (@UnpackedFloat.unpackSign .binary64 bits) =
      .positive := by
    rw [hsign]
    rfl
  unfold UnpackedFloat.unpack
  dsimp only
  split
  · rename_i hexponent
    rw [if_pos (h hexponent)]
    exact hpositive
  · split
    · split <;> exact hpositive
    · exact hpositive

private theorem unsigned_unpack_packComponents
    {exponent : BitVec 11} {mantissa : BitVec 52}
    (h : exponent = -1#11 → mantissa = 0#52) :
    Unsigned (UnpackedFloat.unpack .binary64
      (UnpackedFloat.packComponents .binary64 .positive exponent
        mantissa)) := by
  apply unsigned_unpack
  · exact UnpackedFloat.unpackSign_packComponents ..
  · rw [UnpackedFloat.unpackExponent_packComponents,
      UnpackedFloat.unpackMantissa_packComponents]
    exact h

theorem unsigned_unpack_pack {u : UnpackedFloat} (h : Unsigned u) :
    Unsigned (Float.Model.pack u).unpack := by
  cases u with
  | notANumber => exact h.elim
  | infinity sign =>
      cases h
      exact unsigned_unpack_packComponents fun _ => rfl
  | zero sign =>
      cases h
      exact unsigned_unpack_packComponents fun _ => rfl
  | finite sign mantissa exponent hpositive =>
      cases h
      change Unsigned (UnpackedFloat.unpack .binary64
        (UnpackedFloat.pack .binary64 _))
      unfold UnpackedFloat.pack
      dsimp only
      split
      · exact unsigned_unpack_packComponents fun _ => rfl
      · rename_i hbound
        split
        · apply unsigned_unpack_packComponents
          intro hmax
          have hbiased := congrArg BitVec.toNat hmax
          rw [BitVec.toNat_ofNat] at hbiased
          change _ % 2 ^ 11 = 2047 at hbiased
          change ¬ 2 ^ 11 ≤ _ at hbound
          omega
        · exact unsigned_unpack_packComponents fun hmax =>
            absurd hmax (by decide)

theorem unsigned_mul_div
    (spec : Float.Model.Format) {u : UnpackedFloat} {mantissa : Nat}
    {exponent : Int} (hpositive : 0 < mantissa) (h : Unsigned u) :
    Unsigned (UnpackedFloat.mul spec u
        (.finite .positive mantissa exponent hpositive)) ∧
      Unsigned (UnpackedFloat.div spec u
        (.finite .positive mantissa exponent hpositive)) := by
  cases u with
  | notANumber => exact h.elim
  | infinity sign =>
      cases h
      exact ⟨rfl, rfl⟩
  | zero sign =>
      cases h
      exact ⟨rfl, rfl⟩
  | finite sign =>
      cases h
      exact ⟨unsigned_roundWithAccuracy .., unsigned_roundWithAccuracy ..⟩

theorem unsigned_ofScientific (spec : Float.Model.Format) (m : Nat) (e : Int) :
    Unsigned (UnpackedFloat.ofScientific spec m e) := by
  unfold UnpackedFloat.ofScientific
  split
  · rfl
  split
  · rfl
  split
  · rfl
  split
  · refine (unsigned_mul_div _ _ ?_).1
    rfl
  · refine (unsigned_mul_div _ _ ?_).2
    rfl

/-- The double is finite and not zero, and its sign is positive. -/
def isPositive (x : Float) : Bool :=
  match x.toModel.unpack with
  | .finite .positive _ _ _ => true
  | _ => false

private theorem exists_of_isPositive {x : Float} (h : isPositive x = true) :
    ∃ mantissa exponent hpositive, x.toModel.unpack =
      .finite .positive mantissa exponent hpositive := by
  unfold isPositive at h
  split at h
  · rename_i mantissa exponent hpositive hunpack
    exact ⟨mantissa, exponent, hpositive, hunpack⟩
  · cases h

private theorem isPositive_powersOfTen :
    Float.exactlyRepresentablePowersOfTen.all isPositive = true := by
  decide +kernel

private theorem unsigned_of_product
    {a b : Float} (ha : Unsigned a.toModel.unpack) (hb : isPositive b = true) :
    Unsigned (a * b).toModel.unpack ∧ Unsigned (a / b).toModel.unpack := by
  obtain ⟨mantissa, exponent, hpositive, hunpack⟩ := exists_of_isPositive hb
  constructor
  · change Unsigned (Float.Model.pack
      (UnpackedFloat.mul .binary64 _ b.toModel.unpack)).unpack
    rw [hunpack]
    exact unsigned_unpack_pack (unsigned_mul_div _ hpositive ha).1
  · change Unsigned (Float.Model.pack
      (UnpackedFloat.div .binary64 _ b.toModel.unpack)).unpack
    rw [hunpack]
    exact unsigned_unpack_pack (unsigned_mul_div _ hpositive ha).2

private theorem unsigned_scientific (m : Nat) (s : Bool) (e : Nat) :
    Unsigned (Float.ofScientific m s e).toModel.unpack := by
  unfold Float.ofScientific
  split
  · rename_i hsmall
    have hsize : e < Float.exactlyRepresentablePowersOfTen.size :=
      Nat.lt_succ_of_le hsmall.2
    have hpower : isPositive Float.exactlyRepresentablePowersOfTen[e] = true :=
      Array.all_eq_true.mp isPositive_powersOfTen e hsize
    have hdigits : Unsigned m.toUInt64.toFloat.toModel.unpack :=
      unsigned_unpack_pack (unsigned_ofNat _ _)
    have hboth := unsigned_of_product hdigits hpower
    split
    · exact hboth.2
    · exact hboth.1
  · exact unsigned_unpack_pack (unsigned_ofScientific ..)

/-- A double that is read from digits is a number, and its sign bit is zero. -/
theorem ofDigits_unsigned (whole fraction : List Char) :
    Unsigned (ofDigits whole fraction).toModel.unpack := by
  unfold ofDigits ofDecimal
  split <;> exact unsigned_scientific ..

/-! ## What follows for the double -/

private theorem unpackSign_toNat (bits : UInt64) :
    (@UnpackedFloat.unpackSign .binary64 bits.toBitVec).toNat =
      bits.toNat / 2 ^ 63 := by
  have hbits := bits.toNat_lt
  change (bits.toNat >>> 63) % 2 = _
  rw [Nat.shiftRight_eq_div_pow]
  omega

section
variable {x : Float} (h : Unsigned x.toModel.unpack)
include h

theorem isFinite_of_unsigned (hinf : x.isInf = false) : x.isFinite = true := by
  change x.toModel.unpack.isInf = false at hinf
  change x.toModel.unpack.isFinite = true
  cases hunpack : x.toModel.unpack with
  | notANumber =>
      rw [hunpack] at h
      exact h.elim
  | infinity sign =>
      rw [hunpack] at hinf
      cases hinf
  | zero sign => rfl
  | finite sign mantissa exponent hpositive => rfl

private theorem unpackSign_of_unsigned :
    @UnpackedFloat.unpackSign .binary64 x.toBits.toBitVec = 0#1 := by
  have hsign : Sign.ofBitVec
      (@UnpackedFloat.unpackSign .binary64 x.toBits.toBitVec) = .positive := by
    change Unsigned (UnpackedFloat.unpack .binary64 x.toBits.toBitVec) at h
    unfold UnpackedFloat.unpack at h
    dsimp only at h
    split at h
    · split at h
      · exact h
      · exact h.elim
    · split at h
      · split at h <;> exact h
      · exact h
  rw [← Sign.toBitVec_ofBitVec (UnpackedFloat.unpackSign _), hsign]
  rfl

theorem not_isNegative_of_unsigned : isNegative x = false := by
  have hsign := unpackSign_toNat x.toBits
  rw [unpackSign_of_unsigned h] at hsign
  change 0 = _ at hsign
  unfold isNegative Binary.ofFloat
  dsimp only [Nat.pow_eq]
  rw [← hsign]
  split <;> rfl

end

end Number
end LoxLang
