import Mathlib
import LoxLang.Proofs.Number.Texts

/-!
# Rounding

An operation on doubles rounds its exact result.  What it gives are the parts
of a double whose interval holds the exact result, and there is only one such
double.
-/

namespace LoxLang
namespace Number

open Float.Model (Format UnpackedFloat totalExponent)
open Float.Model.UnpackedFloat (Sign Accuracy ExtendedMantissa)

/-! ## Mantissas with a remainder -/

/-- The mantissa with its round bit, which counts halves. -/
def halves (em : ExtendedMantissa) : ℚ :=
  em.mantissa + if em.roundBit then 1 / 2 else 0

/-- The value is what the mantissa and the two bits behind it tell: the sticky
bit stands for anything less than a half. -/
structure Describes (em : ExtendedMantissa) (value : ℚ) : Prop where
  low : halves em ≤ value
  high : value < halves em + 1 / 2
  sticky : em.stickyBit = true ↔ halves em ≠ value

/-- The whole number is nearest to the value, and it is even if there are two
of them. -/
structure IsNearest (n : Nat) (value : ℚ) : Prop where
  low : n ≤ value + 1 / 2
  high : value ≤ n + 1 / 2
  even : n = value + 1 / 2 ∨ value = n + 1 / 2 → n % 2 = 0

theorem halves_of_clear (m : Nat) (sticky : Bool) :
    halves ⟨m, false, sticky⟩ = m := by
  simp [halves]

theorem halves_of_set (m : Nat) (sticky : Bool) :
    halves ⟨m, true, sticky⟩ = m + 1 / 2 := by
  simp [halves]

theorem halves_shiftRightOne (em : ExtendedMantissa) :
    halves em.shiftRightOne = em.mantissa / 2 := by
  have hdivided : (em.mantissa / 2 : Nat) * 2 + (em.mantissa % 2 : Nat) =
      (em.mantissa : ℚ) := by
    exact_mod_cast Nat.div_add_mod' em.mantissa 2
  unfold ExtendedMantissa.shiftRightOne
  rcases Nat.mod_two_eq_zero_or_one em.mantissa with heven | hodd
  · rw [heven] at hdivided ⊢
    change halves ⟨_, false, _⟩ = _
    rw [halves_of_clear]
    push_cast at hdivided ⊢
    linarith
  · rw [hodd] at hdivided ⊢
    change halves ⟨_, true, _⟩ = _
    rw [halves_of_set]
    push_cast at hdivided ⊢
    linarith

section
variable {em : ExtendedMantissa} {value : ℚ}

theorem Describes.mantissa_le (h : Describes em value) :
    em.mantissa ≤ value := by
  have hlow := h.low
  unfold halves at hlow
  split at hlow <;> linarith

theorem Describes.lt_mantissa (h : Describes em value) :
    value < em.mantissa + 1 := by
  have hhigh := h.high
  unfold halves at hhigh
  split at hhigh <;> linarith

theorem Describes.bits_iff (h : Describes em value) :
    (em.roundBit || em.stickyBit) = true ↔ (em.mantissa : ℚ) ≠ value := by
  obtain ⟨hlow, -, hsticky⟩ := h
  obtain ⟨m, round, sticky⟩ := em
  cases round with
  | false =>
      rw [halves_of_clear] at hsticky
      exact hsticky
  | true =>
      rw [halves_of_set] at hlow
      refine ⟨fun _ hvalue => ?_, fun _ => rfl⟩
      dsimp only at hvalue
      linarith

theorem Describes.shiftRightOne (h : Describes em value) :
    Describes em.shiftRightOne (value / 2) := by
  have hlow := h.mantissa_le
  have hhigh := h.lt_mantissa
  refine ⟨?_, ?_, ?_⟩
  · rw [halves_shiftRightOne]
    linarith
  · rw [halves_shiftRightOne]
    linarith
  · rw [halves_shiftRightOne, ne_eq, div_left_inj' two_ne_zero]
    exact h.bits_iff

theorem Describes.shiftRight (h : Describes em value) (k : Nat) :
    Describes (em >>> k) (value / 2 ^ k) := by
  induction k with
  | zero =>
      rw [pow_zero, div_one]
      exact h
  | succ k ih =>
      rw [pow_succ, ← div_div]
      exact ih.shiftRightOne

theorem shiftRight_mantissa (em : ExtendedMantissa) (k : Nat) :
    (em >>> k).mantissa = em.mantissa / 2 ^ k := by
  induction k with
  | zero =>
      rw [pow_zero, Nat.div_one]
      rfl
  | succ k ih =>
      rw [pow_succ, ← Nat.div_div_eq_div_mul, ← ih]
      rfl

/-- Rounding to even gives the nearest whole number. -/
theorem Describes.isNearest (h : Describes em value) :
    IsNearest em.roundedMantissa value := by
  obtain ⟨hlow, hhigh, hsticky⟩ := h
  obtain ⟨m, round, sticky⟩ := em
  cases round with
  | false =>
      rw [halves_of_clear] at hlow hhigh
      have hrounded :
          ExtendedMantissa.roundedMantissa ⟨m, false, sticky⟩ = m := by
        cases sticky <;> rfl
      rw [hrounded]
      refine ⟨by linarith, by linarith, ?_⟩
      rintro (hend | hend) <;> linarith
  | true =>
      rw [halves_of_set] at hlow hhigh hsticky
      cases sticky with
      | false =>
          have hvalue : (m : ℚ) + 1 / 2 = value := by simpa using hsticky
          change IsNearest (m + m % 2) value
          rcases Nat.mod_two_eq_zero_or_one m with heven | hodd
          · rw [heven, Nat.add_zero]
            exact ⟨by linarith, by linarith, fun _ => heven⟩
          · rw [hodd]
            refine ⟨?_, ?_, fun _ => by omega⟩
            · push_cast
              linarith
            · push_cast
              linarith
      | true =>
          have hne : (m : ℚ) + 1 / 2 ≠ value := by simpa using hsticky
          have hlt := lt_of_le_of_ne hlow hne
          change IsNearest (m + 1) value
          refine ⟨?_, ?_, ?_⟩
          · push_cast
            linarith
          · push_cast
            linarith
          · push_cast
            rintro (hend | hend) <;> linarith

end

/-! ## Rounding to the parts of a double -/

namespace Binary

def signOf (negative : Bool) : Sign :=
  if negative then .negative else .positive

/-- The number with these parts as the operations on doubles see it. -/
def unpacked (b : Binary) : UnpackedFloat :=
  if h : b.mantissa = 0 then .zero (signOf b.negative)
  else .finite (signOf b.negative) b.mantissa b.exponent
    (Nat.pos_of_ne_zero h)

/-- The interval goes less far down where the mantissa is the least one. -/
theorem sub_gapBelow_le_of_isNearest
    {b : Binary} {value : ℚ} (hnonneg : 0 ≤ value)
    (h : IsNearest b.mantissa value)
    (hleast : b.mantissa = 2 ^ 52 → leastExponent < b.exponent →
      (b.mantissa : ℚ) ≤ value + 1 / 4) :
    ((4 * b.mantissa - b.gapBelow : Nat) : ℚ) ≤ 4 * value := by
  unfold gapBelow
  split
  · rename_i hedge
    have hvalue := hleast hedge.1 hedge.2
    rw [hedge.1] at hvalue ⊢
    norm_num at hvalue ⊢
    linarith
  · have hvalue := h.low
    rcases Nat.eq_zero_or_pos b.mantissa with hzero | hpos
    · rw [hzero]
      norm_num
      linarith
    · rw [Nat.cast_sub (by omega)]
      push_cast
      linarith

/-- A number lies in the interval of the parts that it is rounded to. -/
theorem contains_of_isNearest
    {b : Binary} {value : ℚ} (hnonneg : 0 ≤ value)
    (h : IsNearest b.mantissa value)
    (hleast : b.mantissa = 2 ^ 52 → leastExponent < b.exponent →
      (b.mantissa : ℚ) ≤ value + 1 / 4) :
    (Interval.around b).Contains (value * 2 ^ b.exponent) := by
  have hp : (0 : ℚ) < 2 ^ (b.exponent - 2) := by positivity
  have hscaled : value * 2 ^ b.exponent =
      4 * value * 2 ^ (b.exponent - 2) := by
    rw [zpow_sub₀ (by norm_num)]
    ring
  have hlow := sub_gapBelow_le_of_isNearest hnonneg h hleast
  have hhigh : 4 * value ≤ ((4 * b.mantissa + 2 : Nat) : ℚ) := by
    have hvalue := h.high
    push_cast
    linarith
  rw [contains_around_iff, hscaled]
  unfold lowEnd highEnd
  simp only [mul_le_mul_iff_left₀ hp, mul_lt_mul_iff_left₀ hp]
  split
  · exact ⟨hlow, hhigh⟩
  · -- Only an even mantissa takes in the ends of its interval.
    rename_i hodd
    refine ⟨lt_of_le_of_ne hlow ?_, lt_of_le_of_ne hhigh ?_⟩
    · intro hend
      apply hodd
      apply h.even
      left
      unfold gapBelow at hend
      rw [if_neg (by omega), Nat.cast_sub (by omega)] at hend
      push_cast at hend
      linarith
    · intro hend
      apply hodd
      apply h.even
      right
      push_cast at hend
      linarith

end Binary

theorem targetExponent_eq (m : Nat) (e : Int) :
    Format.binary64.targetExponent (totalExponent m e) =
      max (m.log2 + e - 52) Binary.leastExponent := by
  simp only [Format.targetExponent, totalExponent, Format.mantissaBits,
    Format.minExponent, Binary.leastExponent]
  omega

/-- The value as a mantissa of at most 53 bits, with the exponent that a double
of its size has. -/
structure Aligned (em : ExtendedMantissa) (exponent : Int) (value : ℚ) :
    Prop where
  describes : Describes em (value / 2 ^ exponent)
  least : Binary.leastExponent ≤ exponent
  bits : em.mantissa < 2 ^ 53
  full : Binary.leastExponent < exponent → 2 ^ 52 ≤ em.mantissa

private theorem ofMantissaAndAccuracy_mantissa (m : Nat) (accuracy : Accuracy) :
    (ExtendedMantissa.ofMantissaAndAccuracy m accuracy).mantissa = m := by
  cases accuracy with
  | exact => rfl
  | inexact order => cases order <;> rfl

/-- A mantissa with enough bits is shifted until it has 53 of them. -/
theorem aligned_shiftToTargetExponent
    {m : Nat} {e : Int} {accuracy : Accuracy} {value : ℚ}
    (h : Describes (.ofMantissaAndAccuracy m accuracy) (value / 2 ^ e))
    (hbits : 52 ≤ m.log2 ∨ e ≤ Binary.leastExponent) :
    let shifted :=
      UnpackedFloat.shiftToTargetExponent .binary64 m e accuracy
    Aligned shifted.1 shifted.2 value := by
  intro shifted
  obtain ⟨k, hk⟩ : ∃ k : Nat, (k : Int) =
      max (m.log2 + e - 52) Binary.leastExponent - e :=
    ⟨_, Int.toNat_of_nonneg (by omega)⟩
  have hshifted : shifted =
      (ExtendedMantissa.ofMantissaAndAccuracy m accuracy >>> k, e + k) := by
    simp only [shifted, UnpackedFloat.shiftToTargetExponent,
      UnpackedFloat.shiftToExponent, targetExponent_eq, ← hk, Int.toNat_natCast]
  have hmantissa : shifted.1.mantissa = m / 2 ^ k := by
    rw [hshifted, shiftRight_mantissa, ofMantissaAndAccuracy_mantissa]
  have hpower : 0 < 2 ^ k := Nat.two_pow_pos k
  rw [hshifted] at hmantissa ⊢
  refine ⟨?_, ?_, ?_, ?_⟩
  · rw [zpow_add₀ two_ne_zero, zpow_natCast, ← div_div]
    exact h.shiftRight k
  · dsimp only
    omega
  · rw [hmantissa, Nat.div_lt_iff_lt_mul hpower, ← Nat.pow_add]
    refine lt_of_lt_of_le Nat.lt_log2_self ?_
    exact Nat.pow_le_pow_right (by decide) (by omega)
  · intro hless
    dsimp only at hless
    have hlog : m.log2 = 52 + k := by omega
    have hne : m ≠ 0 := by
      rintro rfl
      rw [Nat.log2_zero] at hlog
      omega
    rw [hmantissa, Nat.le_div_iff_mul_le hpower, ← Nat.pow_add, ← hlog]
    exact Nat.log2_self_le hne

section
variable {r : Nat} {t : Int}

/-- A mantissa that fits is not shifted again. -/
theorem shiftToTargetExponent_of_lt
    (hr : r < 2 ^ 53) (ht : Binary.leastExponent ≤ t) :
    UnpackedFloat.shiftToTargetExponent .binary64 r t .exact =
      (⟨r, false, false⟩, t) := by
  have hlog : r.log2 ≤ 52 := by
    rcases Nat.eq_zero_or_pos r with rfl | hpos
    · simp
    · have := (Nat.log2_lt hpos.ne').mpr hr
      omega
  have hzero : (max (r.log2 + t - 52) Binary.leastExponent - t).toNat = 0 := by
    omega
  simp only [UnpackedFloat.shiftToTargetExponent,
    UnpackedFloat.shiftToExponent, targetExponent_eq, hzero]
  rw [Nat.cast_zero, Int.add_zero]
  rfl

/-- Rounding up may give one bit more. -/
theorem shiftToTargetExponent_of_carry (ht : Binary.leastExponent ≤ t) :
    UnpackedFloat.shiftToTargetExponent .binary64 (2 ^ 53) t .exact =
      (⟨2 ^ 52, false, false⟩, t + 1) := by
  have hone : (max (((2 ^ 53).log2 : Nat) + t - 52) Binary.leastExponent -
      t).toNat = 1 := by
    rw [Nat.log2_two_pow]
    omega
  simp only [UnpackedFloat.shiftToTargetExponent,
    UnpackedFloat.shiftToExponent, targetExponent_eq, hone]
  rfl

private theorem contains_of_carry
    (negative : Bool) (t : Int) {value : ℚ} (hbound : value < 2 ^ 53)
    (h : IsNearest (2 ^ 53) value) :
    (Interval.around ⟨negative, 2 ^ 52, t + 1⟩).Contains (value * 2 ^ t) := by
  have hlow := h.low
  push_cast at hlow
  have hhalf : value / 2 * 2 ^ (t + 1) = value * 2 ^ t := by
    rw [zpow_add_one₀ two_ne_zero]
    ring
  rw [← hhalf]
  refine Binary.contains_of_isNearest (b := ⟨negative, 2 ^ 52, t + 1⟩)
    (by linarith) ⟨?_, ?_, fun _ => by norm_num⟩ (fun _ _ => ?_)
  all_goals
    push_cast
    linarith

theorem Aligned.exists_parts
    {em : ExtendedMantissa} {value : ℚ} (h : Aligned em t value)
    (negative : Bool) :
    ∃ b : Binary, b.negative = negative ∧ b.Canonical ∧
      (Interval.around b).Contains value ∧
      UnpackedFloat.shiftToTargetExponent .binary64 em.roundedMantissa t
        .exact = (⟨b.mantissa, false, false⟩, b.exponent) := by
  obtain ⟨hdescribes, hleast, hbits, hfull⟩ := h
  have hlow := hdescribes.mantissa_le
  have hhigh := hdescribes.lt_mantissa
  have hnearest := hdescribes.isNearest
  have hp : (0 : ℚ) < 2 ^ t := by positivity
  have hnonneg : 0 ≤ value / 2 ^ t := le_trans (Nat.cast_nonneg _) hlow
  have hbound : value / 2 ^ t < 2 ^ 53 := by
    have : (em.mantissa + 1 : ℚ) ≤ 2 ^ 53 := by exact_mod_cast hbits
    linarith
  have hnormal : Binary.leastExponent < t → 2 ^ 52 ≤ value / 2 ^ t := by
    intro hless
    have : (2 ^ 52 : ℚ) ≤ em.mantissa := by exact_mod_cast hfull hless
    linarith
  have hcarry : em.roundedMantissa < 2 ^ 53 + 1 := by
    have : (em.roundedMantissa : ℚ) < 2 ^ 53 + 1 := by linarith [hnearest.low]
    exact_mod_cast this
  by_cases hfits : em.roundedMantissa < 2 ^ 53
  · refine ⟨⟨negative, em.roundedMantissa, t⟩, rfl, ⟨hleast, hfits, ?_⟩, ?_,
      shiftToTargetExponent_of_lt hfits hleast⟩
    · intro hless
      have : (2 ^ 52 : ℚ) < em.roundedMantissa + 1 := by
        linarith [hnearest.high, hnormal hless]
      exact Nat.lt_succ_iff.mp (by exact_mod_cast this)
    · have hcontains := @Binary.contains_of_isNearest
        ⟨negative, em.roundedMantissa, t⟩ _ hnonneg hnearest (by
          intro hedge hless
          dsimp only at hedge
          rw [hedge]
          push_cast
          linarith [hnormal hless])
      rwa [div_mul_cancel₀ _ hp.ne'] at hcontains
  · have hfull : em.roundedMantissa = 2 ^ 53 := by omega
    rw [hfull] at hnearest ⊢
    refine ⟨⟨negative, 2 ^ 52, t + 1⟩, rfl, ⟨?_, by norm_num, fun _ => le_rfl⟩,
      ?_, shiftToTargetExponent_of_carry hleast⟩
    · dsimp only
      omega
    · have hcontains := contains_of_carry negative t hbound hnearest
      rwa [div_mul_cancel₀ _ hp.ne'] at hcontains

end

/-- What an operation gives is a double with the sign, and the value lies in the
interval of the double. -/
def IsRounded (u : UnpackedFloat) (negative : Bool) (value : ℚ) : Prop :=
  ∃ b : Binary, b.negative = negative ∧ b.Canonical ∧
    (Interval.around b).Contains value ∧ u = b.unpacked

theorem isRounded_roundWithAccuracy
    {m : Nat} {e : Int} {accuracy : Accuracy} {value : ℚ} (negative : Bool)
    (h : Describes (.ofMantissaAndAccuracy m accuracy) (value / 2 ^ e))
    (hbits : 52 ≤ m.log2 ∨ e ≤ Binary.leastExponent) :
    IsRounded (UnpackedFloat.roundWithAccuracy .binary64
      (Binary.signOf negative) m e accuracy) negative value := by
  obtain ⟨b, hnegative, hcanonical, hcontains, hshift⟩ :=
    (aligned_shiftToTargetExponent h hbits).exists_parts negative
  refine ⟨b, hnegative, hcanonical, hcontains, ?_⟩
  unfold UnpackedFloat.roundWithAccuracy
  dsimp only
  rw [hshift]
  unfold Binary.unpacked
  rw [hnegative]

/-! ## Packing -/

namespace Binary

/-- The exponent of the largest finite doubles. -/
def greatestExponent : Int := 971

/-- The double with these parts. -/
def packed (b : Binary) : Float :=
  .ofModel (Float.Model.pack b.unpacked)

theorem ofFloat_of_bits
    {x : Float} {negative : Bool} {biased fraction : Nat}
    (hbiased : biased < 2 ^ 11) (hfraction : fraction < 2 ^ 52)
    (h : x.toBits.toNat =
      negative.toNat * 2 ^ 63 + biased * 2 ^ 52 + fraction) :
    ofFloat x =
      if biased = 0 then ⟨negative, fraction, leastExponent⟩
      else ⟨negative, fraction + 2 ^ 52, (biased : Int) - 1075⟩ := by
  have hnegative := negative.toNat_le
  have hlow : x.toBits.toNat % 2 ^ 52 = fraction := by omega
  have hmiddle : x.toBits.toNat / 2 ^ 52 % 2 ^ 11 = biased := by omega
  have hhigh : x.toBits.toNat / 2 ^ 63 = negative.toNat := by omega
  have hsign : (negative.toNat == 1) = negative := by cases negative <;> rfl
  unfold ofFloat
  dsimp only [Nat.pow_eq]
  rw [hlow, hmiddle, hhigh, hsign]

private theorem packComponents_toNat
    (negative : Bool) (exponent : BitVec 11) (mantissa : BitVec 52) :
    (UnpackedFloat.packComponents .binary64 (signOf negative) exponent
      mantissa).toNat =
        negative.toNat * 2 ^ 63 + exponent.toNat * 2 ^ 52 + mantissa.toNat := by
  have hexponent := exponent.isLt
  have hmantissa := mantissa.isLt
  have hsign : (signOf negative).toBitVec.toNat = negative.toNat := by
    cases negative <;> rfl
  unfold UnpackedFloat.packComponents
  rw [BitVec.toNat_append, BitVec.toNat_append, hsign,
    ← Nat.shiftLeft_add_eq_or_of_lt hexponent,
    ← Nat.shiftLeft_add_eq_or_of_lt hmantissa, Nat.shiftLeft_eq,
    Nat.shiftLeft_eq]
  omega

theorem ofFloat_packComponents
    {x : Float} {negative : Bool} {exponent : BitVec 11} {mantissa : BitVec 52}
    (h : x.toBits.toBitVec = UnpackedFloat.packComponents .binary64
      (signOf negative) exponent mantissa) :
    ofFloat x =
      if exponent.toNat = 0 then ⟨negative, mantissa.toNat, leastExponent⟩
      else ⟨negative, mantissa.toNat + 2 ^ 52,
        (exponent.toNat : Int) - 1075⟩ := by
  apply ofFloat_of_bits exponent.isLt mantissa.isLt
  rw [← packComponents_toNat, ← h]
  rfl

private theorem toBits_packed
    {negative : Bool} {mantissa : Nat} {exponent : Int} (hzero : mantissa ≠ 0)
    (hexponent : exponent ≤ greatestExponent) :
    (packed ⟨negative, mantissa, exponent⟩).toBits.toBitVec =
      if mantissa.log2 + 1 = 53 then
        UnpackedFloat.packComponents .binary64 (signOf negative)
          (BitVec.ofNat 11 (exponent + 1023 + 52).toNat)
          (BitVec.ofNat 52 mantissa)
      else
        UnpackedFloat.packComponents .binary64 (signOf negative) 0#11
          (BitVec.ofNat 52 mantissa) := by
  have hunpacked : unpacked ⟨negative, mantissa, exponent⟩ =
      .finite (signOf negative) mantissa exponent
        (Nat.pos_of_ne_zero hzero) := by
    unfold unpacked
    exact dif_neg hzero
  have hbiased : ¬ 2 ^ 11 ≤ (exponent + 1023 + 52).toNat + 1 := by
    unfold greatestExponent at hexponent
    omega
  change UnpackedFloat.pack .binary64 (unpacked _) = _
  rw [hunpacked]
  unfold UnpackedFloat.pack
  exact if_neg hbiased

/-- The parts of a double can be put together again. -/
theorem ofFloat_packed
    {b : Binary} (h : b.Canonical) (hexponent : b.exponent ≤ greatestExponent) :
    ofFloat b.packed = b := by
  obtain ⟨hleast, hbits, hfull⟩ := h
  obtain ⟨negative, mantissa, exponent⟩ := b
  by_cases hzero : mantissa = 0
  · dsimp only [leastExponent] at hleast hfull
    subst hzero
    have hsame : exponent = -1074 := by omega
    rw [@ofFloat_packComponents _ negative 0#11 0#52 rfl, hsame]
    rfl
  have hpack := @toBits_packed negative mantissa exponent hzero hexponent
  dsimp only [leastExponent, greatestExponent] at hleast hbits hfull hexponent
  by_cases hnormal : 2 ^ 52 ≤ mantissa
  · have hlog : mantissa.log2 + 1 = 53 := by
      rw [(Nat.log2_eq_iff hzero).mpr ⟨hnormal, hbits⟩]
    rw [if_pos hlog] at hpack
    rw [ofFloat_packComponents hpack, BitVec.toNat_ofNat, BitVec.toNat_ofNat,
      if_neg (by omega)]
    apply eq_of_parts
    · rfl
    · dsimp only
      omega
    · dsimp only
      omega
  · have hlog : ¬ mantissa.log2 + 1 = 53 := by
      have := (Nat.log2_lt hzero).mpr (Nat.not_le.mp hnormal)
      omega
    have hsame : exponent = -1074 := by omega
    rw [if_neg hlog] at hpack
    rw [ofFloat_packComponents hpack, BitVec.toNat_ofNat, BitVec.toNat_ofNat,
      if_pos (by rfl), Nat.mod_eq_of_lt (Nat.not_le.mp hnormal), hsame]
    rfl

private theorem exists_components (x : Float) :
    ∃ (negative : Bool) (exponent : BitVec 11) (mantissa : BitVec 52),
      x.toBits.toBitVec = UnpackedFloat.packComponents .binary64
        (signOf negative) exponent mantissa := by
  have hparts :=
    @UnpackedFloat.packComponents_unpackSign_unpackExponent_unpackMantissa
      .binary64 x.toBits.toBitVec
  cases hsign : Sign.ofBitVec
      (@UnpackedFloat.unpackSign .binary64 x.toBits.toBitVec) with
  | positive =>
      rw [hsign] at hparts
      exact ⟨false, _, _, hparts.symm⟩
  | negative =>
      rw [hsign] at hparts
      exact ⟨true, _, _, hparts.symm⟩

theorem unpacked_of_pos
    {b : Binary} (h : 0 < b.mantissa) :
    b.unpacked = .finite (signOf b.negative) b.mantissa b.exponent h :=
  dif_neg h.ne'

/-- A finite double as the operations see it. -/
theorem unpack_of_exponent_le
    {x : Float} (h : (ofFloat x).exponent ≤ greatestExponent) :
    x.toModel.unpack = (ofFloat x).unpacked := by
  obtain ⟨negative, exponent, mantissa, hbits⟩ := exists_components x
  have hsign : Sign.ofBitVec (signOf negative).toBitVec = signOf negative :=
    UnpackedFloat.Sign.ofBitVec_toBitVec _
  rw [ofFloat_packComponents hbits] at h ⊢
  change UnpackedFloat.unpack .binary64 x.toBits.toBitVec = _
  rw [hbits]
  unfold UnpackedFloat.unpack
  simp only [UnpackedFloat.unpackExponent_packComponents,
    UnpackedFloat.unpackMantissa_packComponents,
    UnpackedFloat.unpackSign_packComponents, hsign]
  by_cases hleast : exponent = 0#11
  · subst hleast
    have hbounded : ¬ 0#11 = -1#11 := by decide
    have hnat : (0#11).toNat = 0 := rfl
    rw [if_neg hbounded, if_pos rfl, if_pos hnat]
    by_cases hzero : mantissa = 0#52
    · subst hzero
      rfl
    · have hpos : 0 < mantissa.toNat :=
        Nat.pos_of_ne_zero fun hnat => hzero (BitVec.eq_of_toNat_eq hnat)
      rw [dif_neg hzero, unpacked_of_pos hpos]
      rfl
  · have hnat : exponent.toNat ≠ 0 :=
      fun hnat => hleast (BitVec.eq_of_toNat_eq hnat)
    rw [if_neg hnat] at h ⊢
    have hbounded : ¬ exponent = -1#11 := by
      rintro rfl
      change ((-1#11).toNat : Int) - 1075 ≤ greatestExponent at h
      exact absurd h (by decide)
    have hfull : (1#1 ++ mantissa).toNat = mantissa.toNat + 2 ^ 52 := by
      rw [BitVec.toNat_append, ← Nat.shiftLeft_add_eq_or_of_lt mantissa.isLt,
        Nat.add_comm]
      rfl
    rw [if_neg hbounded, if_neg hleast,
      unpacked_of_pos (Nat.add_pos_right _ (by decide))]
    simp only [hfull]
    rfl

theorem isFinite_iff {x : Float} :
    x.isFinite = true ↔ (ofFloat x).exponent ≤ greatestExponent := by
  change x.toModel.unpack.isFinite = true ↔ _
  constructor
  · obtain ⟨negative, exponent, mantissa, hbits⟩ := exists_components x
    intro hfinite
    change (UnpackedFloat.unpack .binary64 x.toBits.toBitVec).isFinite = true
      at hfinite
    rw [hbits] at hfinite
    unfold UnpackedFloat.unpack at hfinite
    simp only [UnpackedFloat.unpackExponent_packComponents] at hfinite
    split at hfinite
    · split at hfinite <;> cases hfinite
    · rename_i hbounded
      have hnat : exponent.toNat ≠ 2047 :=
        fun hnat => hbounded (BitVec.eq_of_toNat_eq hnat)
      have hlt := exponent.isLt
      rw [ofFloat_packComponents hbits]
      unfold greatestExponent leastExponent
      split <;> dsimp only <;> omega
  · intro hexponent
    rw [unpack_of_exponent_le hexponent]
    unfold unpacked
    split <;> rfl

theorem unpack_of_isFinite {x : Float} (h : x.isFinite = true) :
    x.toModel.unpack = (ofFloat x).unpacked :=
  unpack_of_exponent_le (isFinite_iff.mp h)

private theorem packed_ofFloat {x : Float} (h : x.isFinite = true) :
    (ofFloat x).packed = x :=
  ofFloat_inj (ofFloat_packed (ofFloat_canonical x) (isFinite_iff.mp h))

end Binary

/-- An operation gives the finite double in whose interval its exact result
lies. -/
theorem IsRounded.pack_eq
    {u : UnpackedFloat} {value : ℚ} {x : Float}
    (h : IsRounded u (isNegative x) value) (hfinite : x.isFinite = true)
    (hcontains : (Interval.around (Binary.ofFloat x)).Contains value) :
    Float.ofModel (Float.Model.pack u) = x := by
  obtain ⟨b, hnegative, hcanonical, hholds, rfl⟩ := h
  obtain ⟨hmantissa, hexponent⟩ := Binary.eq_of_contains hcanonical
    (Binary.ofFloat_canonical x) hholds hcontains
  have hparts : b = Binary.ofFloat x :=
    Binary.eq_of_parts hnegative hmantissa hexponent
  rw [hparts]
  exact Binary.packed_ofFloat hfinite

end Number
end LoxLang
