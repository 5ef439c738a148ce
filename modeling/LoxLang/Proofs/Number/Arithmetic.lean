import Mathlib
import LoxLang.Number.Read
import LoxLang.Proofs.Number.Rounding

/-!
# Arithmetic on doubles

Products, quotients and sums are the exact results, rounded.  Reading a decimal
is one product or one quotient with a power of ten, so it gives the double in
whose interval the decimal lies.
-/

namespace LoxLang
namespace Number

open Float.Model (Format UnpackedFloat totalExponent)
open Float.Model.UnpackedFloat (Sign Accuracy ExtendedMantissa)

/-! ## What the operations round -/

section
variable {m : Nat} {value : ℚ}

theorem describes_exact (m : Nat) :
    Describes (.ofMantissaAndAccuracy m .exact) m := by
  have hhalves :
      halves (.ofMantissaAndAccuracy m .exact) = m := halves_of_clear m false
  refine ⟨hhalves.le, ?_, ?_⟩
  · rw [hhalves]
    linarith
  · rw [hhalves]
    exact ⟨fun hset => absurd hset Bool.false_ne_true,
      fun hne => absurd rfl hne⟩

private theorem describes_of_lt_half (hlow : m < value)
    (hhigh : value < m + 1 / 2) :
    Describes (.ofMantissaAndAccuracy m (.inexact .lt)) value := by
  have hhalves : halves (.ofMantissaAndAccuracy m (.inexact .lt)) = m :=
    halves_of_clear m true
  refine ⟨?_, ?_, ?_⟩
  · rw [hhalves]
    exact hlow.le
  · rw [hhalves]
    exact hhigh
  · rw [hhalves]
    exact ⟨fun _ => hlow.ne, fun _ => rfl⟩

private theorem describes_half (m : Nat) :
    Describes (.ofMantissaAndAccuracy m (.inexact .eq)) (m + 1 / 2) := by
  have hhalves : halves (.ofMantissaAndAccuracy m (.inexact .eq)) =
      m + 1 / 2 := halves_of_set m false
  refine ⟨hhalves.le, ?_, ?_⟩
  · rw [hhalves]
    linarith
  · rw [hhalves]
    exact ⟨fun hset => absurd hset Bool.false_ne_true,
      fun hne => absurd rfl hne⟩

private theorem describes_of_half_lt (hlow : m + 1 / 2 < value)
    (hhigh : value < m + 1) :
    Describes (.ofMantissaAndAccuracy m (.inexact .gt)) value := by
  have hhalves : halves (.ofMantissaAndAccuracy m (.inexact .gt)) =
      m + 1 / 2 := halves_of_set m true
  refine ⟨?_, ?_, ?_⟩
  · rw [hhalves]
    exact hlow.le
  · rw [hhalves]
    linarith
  · rw [hhalves]
    exact ⟨fun _ => hlow.ne, fun _ => rfl⟩

end

/-- The remainder of a division tells what follows the last bit. -/
theorem describes_fraction (m : Nat) {n : Nat} (hn : 0 < n) :
    Describes (.ofMantissaAndAccuracy (m / n)
      (UnpackedFloat.accuracyOfFraction (m % n) n)) (m / n : ℚ) := by
  have hpos : (0 : ℚ) < n := by exact_mod_cast hn
  have hvalue : (m / n : ℚ) = (m / n : Nat) + (m % n : Nat) / (n : ℚ) := by
    have hdivided : ((m / n : Nat) : ℚ) * n + (m % n : Nat) = m := by
      exact_mod_cast Nat.div_add_mod' m n
    rw [← hdivided]
    field_simp
  have hrest : ((m % n : Nat) : ℚ) / n < 1 := by
    rw [div_lt_one hpos]
    exact_mod_cast Nat.mod_lt m hn
  rw [hvalue]
  unfold UnpackedFloat.accuracyOfFraction
  by_cases hzero : m % n = 0
  · rw [if_pos hzero, hzero, Nat.cast_zero, zero_div, add_zero]
    exact describes_exact _
  · rw [if_neg hzero]
    have hsome : (0 : ℚ) < (m % n : Nat) / (n : ℚ) :=
      div_pos (by exact_mod_cast Nat.pos_of_ne_zero hzero) hpos
    rcases Nat.lt_trichotomy (2 * (m % n)) n with hless | hhalf | hmore
    · have hfraction : ((m % n : Nat) : ℚ) / n < 1 / 2 := by
        rw [div_lt_div_iff₀ hpos two_pos, one_mul, mul_comm]
        exact_mod_cast hless
      rw [Nat.compare_eq_lt.mpr hless]
      exact describes_of_lt_half (by linarith) (by linarith)
    · have hfraction : ((m % n : Nat) : ℚ) / n = 1 / 2 := by
        rw [div_eq_div_iff hpos.ne' two_ne_zero, one_mul, mul_comm]
        exact_mod_cast hhalf
      rw [Nat.compare_eq_eq.mpr hhalf, hfraction]
      exact describes_half _
    · have hfraction : 1 / 2 < ((m % n : Nat) : ℚ) / n := by
        rw [div_lt_div_iff₀ two_pos hpos, one_mul, mul_comm]
        exact_mod_cast hmore
      rw [Nat.compare_eq_gt.mpr hmore]
      exact describes_of_half_lt (by linarith) (by linarith)

theorem add_le_log2_shiftLeft {m : Nat} (hm : 0 < m) (k : Nat) :
    m.log2 + k ≤ (m <<< k).log2 := by
  rw [Nat.le_log2 (Nat.shiftLeft_pos_iff.mpr hm).ne', Nat.pow_add,
    Nat.shiftLeft_eq]
  exact Nat.mul_le_mul_right _ (Nat.log2_self_le hm.ne')

section
variable {m n : Nat} {e f : Int} (hm : 0 < m) (hn : 0 < n)

theorem isRounded_mul (hbits : 52 ≤ m.log2) :
    IsRounded (UnpackedFloat.mul .binary64 (.finite .positive m e hm)
      (.finite .positive n f hn)) false (m * 2 ^ e * (n * 2 ^ f)) := by
  apply isRounded_roundWithAccuracy false
  · have hvalue : (m * 2 ^ e * (n * 2 ^ f) / 2 ^ (e + f) : ℚ) =
        (m * n : Nat) := by
      rw [zpow_add₀ two_ne_zero]
      push_cast
      field_simp
    rw [hvalue]
    exact describes_exact _
  · left
    rw [Nat.le_log2 hm.ne'] at hbits
    rw [Nat.le_log2 (Nat.mul_pos hm hn).ne']
    exact hbits.trans (Nat.le_mul_of_pos_right m hn)

include hm hn in
/-- The dividend is shifted until the quotient has enough bits. -/
theorem exists_divCore :
    ∃ k t, UnpackedFloat.divCore .binary64 m e n f =
        ((m <<< k) / n, t,
          UnpackedFloat.accuracyOfFraction ((m <<< k) % n) n) ∧
      t = e - f - k ∧
      (52 ≤ ((m <<< k) / n).log2 ∨ t ≤ Binary.leastExponent) := by
  obtain ⟨t, ht⟩ : ∃ t, t = min (e - f)
      (max (m.log2 + e - (n.log2 + f) - 53) Binary.leastExponent) := ⟨_, rfl⟩
  have htarget : min (e - f) (Format.binary64.targetExponent
      (totalExponent m e - totalExponent n f)) = t := by
    simp only [ht, Format.targetExponent, totalExponent, Format.mantissaBits,
      Format.minExponent, Binary.leastExponent]
    omega
  obtain ⟨k, hk⟩ : ∃ k : Nat, (k : Int) = e - f - t :=
    ⟨_, Int.toNat_of_nonneg (by omega)⟩
  refine ⟨k, t, ?_, by omega, ?_⟩
  · unfold UnpackedFloat.divCore
    dsimp only
    rw [htarget, ← hk, Int.toNat_natCast]
  · by_cases hleast : t ≤ Binary.leastExponent
    · exact .inr hleast
    · left
      have hshift : n.log2 + 53 ≤ m.log2 + k := by omega
      have hquotient : 2 ^ 52 ≤ (m <<< k) / n := by
        rw [Nat.le_div_iff_mul_le hn]
        calc 2 ^ 52 * n
            ≤ 2 ^ 52 * 2 ^ (n.log2 + 1) :=
              Nat.mul_le_mul_left _ Nat.lt_log2_self.le
          _ = 2 ^ (n.log2 + 53) := by
              rw [← Nat.pow_add]
              congr 1
              omega
          _ ≤ 2 ^ (m <<< k).log2 :=
              Nat.pow_le_pow_right two_pos
                (hshift.trans (add_le_log2_shiftLeft hm k))
          _ ≤ m <<< k :=
              Nat.log2_self_le (Nat.shiftLeft_pos_iff.mpr hm).ne'
      exact (Nat.le_log2 (by omega)).mpr hquotient

theorem isRounded_div :
    IsRounded (UnpackedFloat.div .binary64 (.finite .positive m e hm)
      (.finite .positive n f hn)) false (m * 2 ^ e / (n * 2 ^ f)) := by
  obtain ⟨k, t, hcore, ht, hbits⟩ := exists_divCore hm hn
  unfold UnpackedFloat.div
  dsimp only
  rw [hcore]
  apply isRounded_roundWithAccuracy false _ hbits
  have hvalue : (m * 2 ^ e / (n * 2 ^ f) / 2 ^ t : ℚ) =
      (m <<< k : Nat) / n := by
    have hpos : (n : ℚ) ≠ 0 := by exact_mod_cast hn.ne'
    rw [ht, Nat.shiftLeft_eq, zpow_sub₀ two_ne_zero, zpow_sub₀ two_ne_zero,
      zpow_natCast]
    push_cast
    field_simp
  rw [hvalue]
  exact describes_fraction _ hn

end

theorem isRounded_round {m : Nat} (hm : 0 < m) (e : Int) (negative : Bool) :
    IsRounded (UnpackedFloat.round .binary64 (Binary.signOf negative) m e)
      negative (m * 2 ^ e) := by
  obtain ⟨k, hk⟩ : ∃ k : Nat, k =
      (e - max (m.log2 + e - 52) Binary.leastExponent).toNat := ⟨_, rfl⟩
  have hlog := add_le_log2_shiftLeft hm k
  unfold UnpackedFloat.round UnpackedFloat.decreaseExponent
  dsimp only
  rw [targetExponent_eq, ← hk]
  apply isRounded_roundWithAccuracy negative
  · have hvalue : (m * 2 ^ e / 2 ^ (e - k) : ℚ) = (m <<< k : Nat) := by
      rw [zpow_sub₀ two_ne_zero, zpow_natCast, Nat.shiftLeft_eq]
      push_cast
      field_simp
    rw [hvalue]
    exact describes_exact _
  · omega

/-! ## Doubles by sign and size -/

/-- The double is finite, and this is its sign and its size. -/
structure Holds (x : Float) (negative : Bool) (size : ℚ) : Prop where
  finite : x.isFinite = true
  sign : isNegative x = negative
  size : (Binary.ofFloat x).size = size

section
variable {x : Float} {negative : Bool} {q : ℚ} {u : UnpackedFloat}

theorem Holds.contains (h : Holds x negative q) :
    (Interval.around (Binary.ofFloat x)).Contains q := by
  rw [← h.size]
  exact Binary.contains_size _

/-- An operation whose exact result is a double gives this double. -/
theorem Holds.pack_eq (hx : Holds x negative q) (h : IsRounded u negative q) :
    Float.ofModel (Float.Model.pack u) = x := by
  rw [← hx.sign] at h
  exact h.pack_eq hx.finite hx.contains

theorem Holds.eq {y : Float} (hx : Holds x negative q)
    (hy : Holds y negative q) : x = y := by
  obtain ⟨hmantissa, hexponent⟩ := Binary.eq_of_contains
    (Binary.ofFloat_canonical x) (Binary.ofFloat_canonical y) hx.contains
    hy.contains
  have hsign : isNegative x = isNegative y := hx.sign.trans hy.sign.symm
  exact Binary.ofFloat_inj (Binary.eq_of_parts hsign hmantissa hexponent)

theorem holds_packed
    {m : Nat} {e : Int} (h : Binary.Canonical ⟨negative, m, e⟩)
    (hexponent : e ≤ Binary.greatestExponent) (hq : (m : ℚ) * 2 ^ e = q) :
    Holds (Binary.packed ⟨negative, m, e⟩) negative q := by
  have hparts := Binary.ofFloat_packed h hexponent
  refine ⟨?_, ?_, ?_⟩
  · rw [Binary.isFinite_iff, hparts]
    exact hexponent
  · rw [isNegative, hparts]
  · rw [hparts]
    exact hq

/-- A double of at least one has a full mantissa. -/
theorem Holds.unpack (h : Holds x negative q) (hpos : 0 < q) :
    ∃ m e hm, x.toModel.unpack =
        .finite (Binary.signOf negative) m e hm ∧
      (m : ℚ) * 2 ^ e = q ∧ (1 ≤ q → 52 ≤ m.log2) := by
  obtain ⟨hfinite, rfl, rfl⟩ := h
  obtain ⟨-, hbits, hfull⟩ := Binary.ofFloat_canonical x
  have hm : 0 < (Binary.ofFloat x).mantissa := by
    apply Nat.pos_of_ne_zero
    intro hzero
    rw [Binary.size, hzero, Nat.cast_zero, zero_mul] at hpos
    exact lt_irrefl _ hpos
  refine ⟨_, _, hm, ?_, rfl, ?_⟩
  · rw [Binary.unpack_of_isFinite hfinite, Binary.unpacked_of_pos hm]
    rfl
  · intro hone
    rw [Nat.le_log2 hm.ne']
    apply hfull
    by_contra hleast
    -- A number with the least exponent is far below one.
    have hpower : (2 : ℚ) ^ (Binary.ofFloat x).exponent ≤ 2 ^ (-53 : Int) := by
      apply zpow_le_zpow_right₀ one_le_two
      unfold Binary.leastExponent at hleast
      omega
    have hbound : ((Binary.ofFloat x).mantissa : ℚ) < 2 ^ 53 := by
      exact_mod_cast hbits
    have hsize : (Binary.ofFloat x).size < 2 ^ 53 * 2 ^ (-53 : Int) := by
      unfold Binary.size
      exact mul_lt_mul hbound hpower (by positivity) (by positivity)
    norm_num at hsize
    linarith

theorem Holds.unpack_zero (h : Holds x negative 0) :
    x.toModel.unpack = .zero (Binary.signOf negative) := by
  obtain ⟨hfinite, rfl, hsize⟩ := h
  have hmantissa : (Binary.ofFloat x).mantissa = 0 := by
    unfold Binary.size at hsize
    rw [mul_eq_zero, Nat.cast_eq_zero] at hsize
    exact hsize.resolve_right (by positivity)
  rw [Binary.unpack_of_isFinite hfinite]
  exact dif_pos hmantissa

theorem Holds.pos_of_ne_zero (h : Holds x negative q) (hq : q ≠ 0) : 0 < q := by
  refine lt_of_le_of_ne ?_ hq.symm
  rw [← h.size]
  unfold Binary.size
  positivity

theorem Holds.beq_zero_iff (h : Holds x negative q) :
    (x == 0) = true ↔ q = 0 := by
  change x.toModel.unpack.beq (.zero .positive) = true ↔ _
  by_cases hq : q = 0
  · subst hq
    rw [h.unpack_zero]
    exact ⟨fun _ => rfl, fun _ => rfl⟩
  · obtain ⟨m, e, hm, hunpack, -, -⟩ := h.unpack (h.pos_of_ne_zero hq)
    rw [hunpack]
    cases negative with
    | false => exact ⟨fun hbeq => absurd hbeq Bool.false_ne_true,
        fun hzero => absurd hzero hq⟩
    | true => exact ⟨fun hbeq => absurd hbeq Bool.false_ne_true,
        fun hzero => absurd hzero hq⟩

end

/-- Every whole number of at most 53 bits, and the next one, is a double. -/
theorem exists_holds (negative : Bool) {n : Nat} (h : n ≤ 2 ^ 53) :
    ∃ x, Holds x negative n := by
  rcases Nat.eq_zero_or_pos n with rfl | hpos
  · have hzero : Binary.Canonical ⟨negative, 0, Binary.leastExponent⟩ :=
      ⟨le_rfl, by norm_num, fun hless => absurd hless (lt_irrefl _)⟩
    exact ⟨_, holds_packed hzero (by decide) (by rw [Nat.cast_zero, zero_mul])⟩
  rcases Nat.lt_or_eq_of_le h with hless | rfl
  · have hlog : n.log2 ≤ 52 :=
      Nat.lt_succ_iff.mp ((Nat.log2_lt hpos.ne').mpr hless)
    obtain ⟨k, hk⟩ := Nat.exists_eq_add_of_le hlog
    have hwhole : Binary.Canonical ⟨negative, n * 2 ^ k, -k⟩ := by
      refine ⟨?_, ?_, fun _ => ?_⟩
      · dsimp only [Binary.leastExponent]
        omega
      · calc n * 2 ^ k
            < 2 ^ (n.log2 + 1) * 2 ^ k :=
              Nat.mul_lt_mul_of_pos_right Nat.lt_log2_self (Nat.two_pow_pos k)
          _ = 2 ^ 53 := by
              rw [← Nat.pow_add]
              congr 1
              omega
      · calc 2 ^ 52
            = 2 ^ n.log2 * 2 ^ k := by rw [← Nat.pow_add, ← hk]
          _ ≤ n * 2 ^ k :=
              Nat.mul_le_mul_right _ (Nat.log2_self_le hpos.ne')
    refine ⟨_, holds_packed hwhole ?_ ?_⟩
    · dsimp only [Binary.greatestExponent]
      omega
    · rw [zpow_neg, zpow_natCast]
      push_cast
      field_simp
  · have hnext : Binary.Canonical ⟨negative, 2 ^ 52, 1⟩ :=
      ⟨show Binary.leastExponent ≤ 1 by decide, by norm_num, fun _ => le_rfl⟩
    exact ⟨_, holds_packed hnext (by decide) (by norm_num)⟩

/-! ## Products and quotients -/

section
variable {a b x : Float} {p q : ℚ}

theorem mul_eq
    (ha : Holds a false p) (hb : Holds b false q) (hp : 1 ≤ p) (hq : 0 < q)
    (hfinite : x.isFinite = true) (hsign : isNegative x = false)
    (h : (Interval.around (Binary.ofFloat x)).Contains (p * q)) :
    a * b = x := by
  obtain ⟨m, e, hm, haparts, rfl, hfull⟩ := ha.unpack (by linarith)
  obtain ⟨n, f, hn, hbparts, rfl, -⟩ := hb.unpack hq
  change Float.ofModel (Float.Model.pack (UnpackedFloat.mul .binary64
    a.toModel.unpack b.toModel.unpack)) = x
  rw [haparts, hbparts]
  have hrounded := @isRounded_mul m n e f hm hn (hfull hp)
  rw [← hsign] at hrounded
  exact hrounded.pack_eq hfinite h

theorem div_eq
    (ha : Holds a false p) (hb : Holds b false q) (hp : 0 < p) (hq : 0 < q)
    (hfinite : x.isFinite = true) (hsign : isNegative x = false)
    (h : (Interval.around (Binary.ofFloat x)).Contains (p / q)) :
    a / b = x := by
  obtain ⟨m, e, hm, haparts, rfl, -⟩ := ha.unpack hp
  obtain ⟨n, f, hn, hbparts, rfl, -⟩ := hb.unpack hq
  change Float.ofModel (Float.Model.pack (UnpackedFloat.div .binary64
    a.toModel.unpack b.toModel.unpack)) = x
  rw [haparts, hbparts]
  have hrounded := @isRounded_div m n e f hm hn
  rw [← hsign] at hrounded
  exact hrounded.pack_eq hfinite h

end

/-! ## Sums -/

private theorem decreaseExponent_value {m : Nat} {e t : Int} (h : t ≤ e) :
    ((UnpackedFloat.decreaseExponent m e t).1 : ℚ) * 2 ^ t = m * 2 ^ e := by
  obtain ⟨k, hk⟩ : ∃ k : Nat, (k : Int) = e - t :=
    ⟨_, Int.toNat_of_nonneg (by omega)⟩
  have he : e = k + t := by omega
  unfold UnpackedFloat.decreaseExponent
  dsimp only
  rw [← hk, Int.toNat_natCast, Nat.shiftLeft_eq, he, zpow_add₀ two_ne_zero,
    zpow_natCast]
  push_cast
  ring

private theorem isRounded_normalize
    {m : Nat} (hm : 0 < m) (e : Int) (negative : Bool) (zeroSign : Sign) :
    IsRounded (UnpackedFloat.normalize .binary64
      (if negative then -(m : Int) else m) e zeroSign) negative
        (m * 2 ^ e) := by
  have hround := isRounded_round hm e negative
  unfold UnpackedFloat.normalize
  cases negative with
  | false =>
      rw [if_neg Bool.false_ne_true, Int.compare_eq_gt.mpr (by omega)]
      exact hround
  | true =>
      rw [if_pos rfl, Int.compare_eq_lt.mpr (by omega)]
      dsimp only
      rw [Int.neg_neg]
      exact hround

/-- The sum of a number and a larger one of the other sign. -/
theorem add_eq
    {a b x : Float} {negative : Bool} {p q : ℚ} (ha : Holds a (!negative) p)
    (hb : Holds b negative q) (hx : Holds x negative (q - p)) (hp : 0 < p)
    (h : p < q) : a + b = x := by
  obtain ⟨m, e, hm, haparts, rfl, -⟩ := ha.unpack hp
  obtain ⟨n, f, hn, hbparts, rfl, -⟩ := hb.unpack (hp.trans h)
  have hsmall := @decreaseExponent_value m _ _ (min_le_left e f)
  have hlarge := @decreaseExponent_value n _ _ (min_le_right e f)
  change Float.ofModel (Float.Model.pack (UnpackedFloat.add .binary64
    a.toModel.unpack b.toModel.unpack)) = x
  rw [haparts, hbparts]
  apply hx.pack_eq
  unfold UnpackedFloat.add
  dsimp only
  generalize (UnpackedFloat.decreaseExponent m e (min e f)).1 = m' at *
  generalize (UnpackedFloat.decreaseExponent n f (min e f)).1 = n' at *
  have hscale : (0 : ℚ) < 2 ^ min e f := by positivity
  have hless : m' < n' := by
    rw [← hsmall, ← hlarge, mul_lt_mul_iff_left₀ hscale] at h
    exact_mod_cast h
  have hsum : (Binary.signOf (!negative)).apply (m' : Int) +
      (Binary.signOf negative).apply (n' : Int) =
        if negative then -((n' - m' : Nat) : Int) else (n' - m' : Nat) := by
    cases negative with
    | false =>
        change -(m' : Int) + n' = (n' - m' : Nat)
        omega
    | true =>
        change (m' : Int) + -n' = -((n' - m' : Nat) : Int)
        omega
  have hvalue : (n * 2 ^ f - m * 2 ^ e : ℚ) =
      (n' - m' : Nat) * 2 ^ min e f := by
    rw [Nat.cast_sub hless.le, sub_mul, hsmall, hlarge]
  rw [hsum, hvalue]
  exact isRounded_normalize (by omega) _ _ _

/-! ## Negation -/

theorem Binary.ofFloat_neg {x : Float} (h : x.isFinite = true) :
    ofFloat (-x) =
      ⟨!(ofFloat x).negative, (ofFloat x).mantissa, (ofFloat x).exponent⟩ := by
  have hsign (negative : Bool) : -signOf negative = signOf (!negative) := by
    cases negative <;> rfl
  have hneg : (ofFloat x).unpacked.neg = unpacked
      ⟨!(ofFloat x).negative, (ofFloat x).mantissa, (ofFloat x).exponent⟩ := by
    unfold unpacked
    dsimp only
    split
    · exact congrArg _ (hsign _)
    · simp only [UnpackedFloat.neg, hsign]
  obtain ⟨hleast, hbits, hfull⟩ := ofFloat_canonical x
  change ofFloat (.ofModel (Float.Model.pack x.toModel.unpack.neg)) = _
  rw [unpack_of_isFinite h, hneg]
  exact ofFloat_packed ⟨hleast, hbits, hfull⟩ (isFinite_iff.mp h)

theorem Holds.neg
    {x : Float} {negative : Bool} {q : ℚ} (h : Holds x negative q) :
    Holds (-x) (!negative) q := by
  obtain ⟨hfinite, rfl, rfl⟩ := h
  have hparts := Binary.ofFloat_neg hfinite
  refine ⟨?_, ?_, ?_⟩
  · rw [Binary.isFinite_iff] at hfinite ⊢
    rw [hparts]
    exact hfinite
  · rw [isNegative, hparts]
    rfl
  · rw [hparts]
    rfl

/-! ## Reading decimals -/

theorem holds_toFloat {n : Nat} (hpos : 0 < n) (h : n < 2 ^ 53) :
    Holds n.toUInt64.toFloat false n := by
  obtain ⟨x, hx⟩ := exists_holds false h.le
  have hsame : n.toUInt64.toNat = n := by
    rw [Nat.toUInt64_eq, UInt64.toNat_ofNat']
    omega
  have hrounded : IsRounded (UnpackedFloat.ofNat .binary64 n.toUInt64.toNat)
      false n := by
    rw [hsame]
    unfold UnpackedFloat.ofNat UnpackedFloat.ofInt UnpackedFloat.normalize
    rw [Int.compare_eq_gt.mpr (by exact_mod_cast hpos)]
    have hround := isRounded_round hpos 0 false
    rw [zpow_zero, mul_one] at hround
    exact hround
  have htoFloat : n.toUInt64.toFloat = x := hx.pack_eq hrounded
  rw [htoFloat]
  exact hx

theorem Binary.size_eq_natCast_iff {b : Binary} {n : Nat} :
    b.size = n ↔
      b.mantissa * 2 ^ b.exponent.toNat = n * 2 ^ (-b.exponent).toNat := by
  have hpower := pow_toNat_mul (by norm_num : (2 : ℚ) ≠ 0) b.exponent
  have hscale : (2 : ℚ) ^ (-b.exponent).toNat ≠ 0 := by positivity
  rw [← Nat.cast_inj (R := ℚ)]
  push_cast
  rw [← hpower, mul_left_comm, mul_comm (n : ℚ), mul_right_inj' hscale]
  rfl

private theorem powersOfTen_parts :
    ∀ e : Fin Float.exactlyRepresentablePowersOfTen.size,
      let b := Binary.ofFloat Float.exactlyRepresentablePowersOfTen[e]
      b.negative = false ∧ b.exponent ≤ Binary.greatestExponent ∧
        b.mantissa * 2 ^ b.exponent.toNat =
          10 ^ e.val * 2 ^ (-b.exponent).toNat := by
  decide +kernel

theorem holds_powerOfTen
    {e : Nat} (h : e < Float.exactlyRepresentablePowersOfTen.size) :
    Holds Float.exactlyRepresentablePowersOfTen[e] false (10 ^ e) := by
  obtain ⟨hsign, hexponent, hparts⟩ := powersOfTen_parts ⟨e, h⟩
  refine ⟨Binary.isFinite_iff.mpr hexponent, hsign, ?_⟩
  have hsize := Binary.size_eq_natCast_iff.mpr hparts
  rw [Nat.cast_pow] at hsize
  exact hsize

section
variable {n : Nat} (hn : 0 < n)
include hn

/-- A decimal with an exponent that is too small rounds to zero. -/
theorem isRounded_zero_of_small
    {e : Int} (h : e < -((2 ^ 11 : Int) + n.log2)) :
    IsRounded (.zero .positive) false (Decimal.value ⟨n, e⟩) := by
  refine ⟨⟨false, 0, Binary.leastExponent⟩, rfl, ?_, ?_, rfl⟩
  · exact ⟨le_rfl, by norm_num, fun hless => absurd hless (lt_irrefl _)⟩
  have hhigh : Decimal.value ⟨n, e⟩ ≤ 2 ^ (-1075 : Int) := by
    rw [Decimal.value_of_neg (by dsimp only; omega)]
    calc (n : ℚ) / 10 ^ (-e).toNat
        ≤ 2 ^ (n.log2 + 1) / 2 ^ (-e).toNat := by
          gcongr
          · exact_mod_cast Nat.lt_log2_self.le
          · norm_num
      _ = 2 ^ ((n.log2 + 1 : Nat) - ((-e).toNat : Nat) : Int) := by
          rw [zpow_sub₀ two_ne_zero, zpow_natCast, zpow_natCast]
      _ ≤ 2 ^ (-1075 : Int) := by
          apply zpow_le_zpow_right₀ one_le_two
          omega
  rw [Binary.contains_around_iff]
  dsimp only
  rw [if_pos (Nat.zero_mod 2)]
  constructor
  · unfold Binary.lowEnd Decimal.value
    dsimp only
    rw [Nat.mul_zero, Nat.zero_sub, Nat.cast_zero, zero_mul]
    positivity
  · refine hhigh.trans (le_of_eq ?_)
    have hstep : (-1075 : Int) = Binary.leastExponent - 2 + 1 := rfl
    unfold Binary.highEnd
    rw [hstep, zpow_add_one₀ two_ne_zero, Nat.mul_zero, Nat.zero_add, mul_comm]
    rfl

private theorem isRounded_ofScientific {e : Int} (h : e ≤ 2 ^ 11) :
    IsRounded (UnpackedFloat.ofScientific .binary64 n e) false
      (Decimal.value ⟨n, e⟩) := by
  have hlarge : ¬ e > 2 ^ Format.binary64.exponentBits := by
    exact not_lt.mpr h
  unfold UnpackedFloat.ofScientific
  rw [dif_neg hn.ne', if_neg hlarge]
  split
  · rename_i hsmall
    exact isRounded_zero_of_small hn hsmall
  split
  · rename_i hnonneg
    have hvalue : Decimal.value ⟨n, e⟩ = (n <<< 53 : Nat) * 2 ^ (-53 : Int) *
        ((10 ^ e.toNat : Nat) * 2 ^ (0 : Int)) := by
      rw [Decimal.value_of_nonneg hnonneg, Nat.shiftLeft_eq]
      push_cast
      norm_num
      ring
    rw [hvalue]
    apply isRounded_mul
    exact le_trans (by omega) (add_le_log2_shiftLeft hn 53)
  · rename_i hneg
    have hvalue : Decimal.value ⟨n, e⟩ =
        n * 2 ^ (0 : Int) / ((10 ^ (-e).toNat : Nat) * 2 ^ (0 : Int)) := by
      rw [Decimal.value_of_neg (by dsimp only; omega), zpow_zero, mul_one,
        mul_one]
      push_cast
      rfl
    rw [hvalue]
    exact isRounded_div hn (Nat.pow_pos (by decide))

/-- A decimal with an exponent that is too large is in no interval. -/
theorem exponent_le_of_contains
    {x : Float} {e : Int} (hfinite : x.isFinite = true)
    (h : (Interval.around (Binary.ofFloat x)).Contains
      (Decimal.value ⟨n, e⟩)) : e ≤ 2 ^ 11 := by
  by_contra hlarge
  have hbits := (Binary.ofFloat_canonical x).bits
  have hexponent := Binary.isFinite_iff.mp hfinite
  have hhigh : Decimal.value ⟨n, e⟩ ≤ (Binary.ofFloat x).highEnd := by
    rw [Binary.contains_around_iff] at h
    split at h
    · exact h.2
    · exact h.2.le
  have hend : (Binary.ofFloat x).highEnd ≤ 2 ^ (1024 : Int) := by
    unfold Binary.highEnd
    calc ((4 * (Binary.ofFloat x).mantissa + 2 : Nat) : ℚ) *
          2 ^ ((Binary.ofFloat x).exponent - 2)
        ≤ (2 ^ 55 : Nat) * 2 ^ (969 : Int) := by
          gcongr
          · omega
          · exact one_le_two
          · unfold Binary.greatestExponent at hexponent
            omega
      _ = 2 ^ (1024 : Int) := by
          rw [Nat.cast_pow, ← zpow_natCast, Nat.cast_ofNat,
            ← zpow_add₀ two_ne_zero]
          rfl
  have hlow : (2 : ℚ) ^ e ≤ Decimal.value ⟨n, e⟩ :=
    calc (2 : ℚ) ^ e
        ≤ 10 ^ e := zpow_le_zpow_left₀ (by omega) (by norm_num) (by norm_num)
      _ = 1 * 10 ^ e := (one_mul _).symm
      _ ≤ n * 10 ^ e := by
          gcongr
          exact_mod_cast hn
  have hless : (2 : ℚ) ^ (1024 : Int) < 2 ^ e :=
    zpow_lt_zpow_right₀ one_lt_two (by omega)
  exact absurd (hlow.trans (hhigh.trans hend)) (not_le.mpr hless)

section
variable {x : Float} (hfinite : x.isFinite = true)
  (hsign : isNegative x = false)
include hfinite hsign

private theorem ofScientific_eq
    (s : Bool) (e : Nat)
    (h : (Interval.around (Binary.ofFloat x)).Contains
      (Decimal.value ⟨n, if s then -e else e⟩)) :
    Float.ofScientific n s e = x := by
  unfold Float.ofScientific
  split
  · rename_i hsmall
    have hdigits := holds_toFloat hn hsmall.1
    have hpower := holds_powerOfTen
      (show e < Float.exactlyRepresentablePowersOfTen.size from
        Nat.lt_succ_of_le hsmall.2)
    have hone : (1 : ℚ) ≤ n := by exact_mod_cast hn
    cases s with
    | true =>
        refine div_eq hdigits hpower (by linarith) (by positivity) hfinite
          hsign ?_
        rw [if_pos rfl, Decimal.value, zpow_neg, zpow_natCast] at h
        exact h
    | false =>
        refine mul_eq hdigits hpower hone (by positivity) hfinite hsign ?_
        rw [if_neg Bool.false_ne_true, Decimal.value, zpow_natCast] at h
        exact h
  · have hexponent : (if s then Int.negOfNat e else Int.ofNat e) =
        if s then -(e : Int) else e := by
      rw [Int.negOfNat_eq]
      rfl
    have hrounded := isRounded_ofScientific hn
      (exponent_le_of_contains hn hfinite h)
    rw [← hsign] at hrounded
    rw [← hexponent] at hrounded h
    exact hrounded.pack_eq hfinite h

/-- Reading a decimal gives the double in whose interval it lies. -/
theorem ofDecimal_eq
    {e : Int}
    (h : (Interval.around (Binary.ofFloat x)).Contains
      (Decimal.value ⟨n, e⟩)) : ofDecimal n e = x := by
  unfold ofDecimal
  split
  · apply ofScientific_eq hn hfinite hsign
    rw [if_pos rfl]
    convert h using 3
    omega
  · apply ofScientific_eq hn hfinite hsign
    rw [if_neg Bool.false_ne_true]
    convert h using 3
    omega

end

/-- A finite double is what a decimal of its interval reads as, behind the sign
of the double. -/
theorem signed_ofDecimal_eq
    {x : Float} (hfinite : x.isFinite = true) {e : Int}
    (h : (Interval.around (Binary.ofFloat x)).Contains
      (Decimal.value ⟨n, e⟩)) :
    (if isNegative x then -ofDecimal n e else ofDecimal n e) = x := by
  have hx : Holds x (isNegative x) (Binary.ofFloat x).size :=
    ⟨hfinite, rfl, rfl⟩
  cases hsign : isNegative x with
  | false => exact ofDecimal_eq hn hfinite hsign h
  | true =>
      rw [hsign] at hx
      have hread : ofDecimal n e = -x := by
        apply ofDecimal_eq hn hx.neg.finite hx.neg.sign
        rw [Binary.ofFloat_neg hfinite]
        exact h
      rw [if_pos rfl, hread]
      exact hx.neg.neg.eq hx

end

theorem holds_ofNat {n : Nat} (h : n ≤ 2 ^ 53) :
    Holds (Float.ofNat n) false n := by
  rcases Nat.eq_zero_or_pos n with rfl | hpos
  · have hzero : Binary.ofFloat (Float.ofNat 0) =
        ⟨false, 0, Binary.leastExponent⟩ := by
      decide +kernel
    refine ⟨by decide +kernel, by rw [isNegative, hzero], ?_⟩
    rw [hzero, Binary.size, Nat.cast_zero, zero_mul]
  · obtain ⟨x, hx⟩ := exists_holds false h
    have hread : Float.ofNat n = x := by
      apply ofScientific_eq hpos hx.finite hx.sign
      rw [if_neg Bool.false_ne_true, Decimal.value, Nat.cast_zero, zpow_zero,
        mul_one]
      exact hx.contains
    rw [hread]
    exact hx

end Number
end LoxLang
