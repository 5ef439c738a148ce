import LoxLang.Proofs.Number.Arithmetic
import LoxLang.Proofs.Coupling
import LoxLang.Session

/-!
# Remainders of whole numbers

The remainder of two whole numbers that are doubles is exact.  It is printed as
the remainder of the floored division, except that a multiple of the divisor
below zero leaves a zero with a sign.
-/

namespace LoxLang
namespace Number

open Float.Model (Format UnpackedFloat totalExponent)

/-! ## Parts that are not canonical -/

private theorem toBits_ofBits
    {negative : Bool} {biased fraction : Nat} (hbiased : biased < 2047)
    (hfraction : fraction < 2 ^ 52) :
    (Float.ofBits (UInt64.ofNat
      (negative.toNat * 2 ^ 63 + biased * 2 ^ 52 + fraction))).toBits.toNat =
        negative.toNat * 2 ^ 63 + biased * 2 ^ 52 + fraction := by
  have hnegative := negative.toNat_le
  obtain ⟨bits, hbits⟩ : ∃ bits, bits = UInt64.ofNat
      (negative.toNat * 2 ^ 63 + biased * 2 ^ 52 + fraction) := ⟨_, rfl⟩
  have hnat : bits.toNat =
      negative.toNat * 2 ^ 63 + biased * 2 ^ 52 + fraction := by
    rw [hbits, UInt64.toNat_ofNat']
    omega
  have hexponent : ¬ @UnpackedFloat.unpackExponent .binary64 bits.toBitVec =
      -1#11 := by
    intro hmax
    have hvalue := unpackExponent_toNat bits
    rw [hmax, hnat] at hvalue
    change 2047 = _ at hvalue
    omega
  have hpack : UnpackedFloat.pack .binary64
      (UnpackedFloat.unpack .binary64 bits.toBitVec) = bits.toBitVec := by
    rw [UnpackedFloat.pack_unpack, if_neg]
    unfold UnpackedFloat.isNaNBits
    rw [decide_eq_true_eq]
    exact fun hnan => hexponent hnan.1
  rw [← hbits, ← hnat]
  exact congrArg BitVec.toNat hpack

private theorem holds_ofBits
    {negative : Bool} {biased fraction : Nat} (hbiased : biased < 2047)
    (hfraction : fraction < 2 ^ 52) :
    Holds (Float.ofBits (UInt64.ofNat
      (negative.toNat * 2 ^ 63 + biased * 2 ^ 52 + fraction))) negative
        (if biased = 0 then fraction * 2 ^ Binary.leastExponent
          else (fraction + 2 ^ 52) * 2 ^ ((biased : Int) - 1075)) := by
  have hparts := Binary.ofFloat_of_bits (by omega) hfraction
    (toBits_ofBits hbiased hfraction : _ = negative.toNat * 2 ^ 63 + _ + _)
  refine ⟨?_, ?_, ?_⟩
  · rw [Binary.isFinite_iff, hparts]
    unfold Binary.leastExponent Binary.greatestExponent
    split <;> dsimp only <;> omega
  · rw [isNegative, hparts]
    split <;> rfl
  · rw [hparts]
    unfold Binary.size
    split
    · rfl
    · push_cast
      rfl

theorem holds_subnormal {negative : Bool} {m : Nat} (h : m < 2 ^ 52) :
    Holds (Float.ofBits (UInt64.ofNat (negative.toNat * 2 ^ 63 + m))) negative
      (m * 2 ^ Binary.leastExponent) := by
  have hholds := @holds_ofBits negative 0 m (by decide) h
  rwa [if_pos rfl, Nat.zero_mul, Nat.add_zero] at hholds

theorem holds_normal
    {negative : Bool} {m : Nat} {e : Int} (hbits : m < 2 ^ 53)
    (hfull : 2 ^ 52 ≤ m) (hleast : Binary.leastExponent ≤ e)
    (hgreatest : e ≤ Binary.greatestExponent) :
    Holds (Float.ofBits (UInt64.ofNat (negative.toNat * 2 ^ 63 +
      (e + 1075).toNat * 2 ^ 52 + (m - 2 ^ 52)))) negative (m * 2 ^ e) := by
  unfold Binary.leastExponent at hleast
  unfold Binary.greatestExponent at hgreatest
  have hholds := @holds_ofBits negative (e + 1075).toNat (m - 2 ^ 52)
    (by omega) (by omega)
  have hbiased : ((e + 1075).toNat : Int) - 1075 = e := by omega
  have hmantissa : ((m - 2 ^ 52 : Nat) : ℚ) + 2 ^ 52 = m := by
    rw [Nat.cast_sub hfull]
    push_cast
    ring
  rwa [if_neg (by omega), hbiased, hmantissa] at hholds

private theorem shifted_lt {m k : Nat} (h : m.log2 + k ≤ 52) :
    m * 2 ^ k < 2 ^ 53 := by
  calc m * 2 ^ k
      < 2 ^ (m.log2 + 1) * 2 ^ k :=
        Nat.mul_lt_mul_of_pos_right Nat.lt_log2_self (Nat.two_pow_pos k)
    _ = 2 ^ (m.log2 + 1 + k) := (Nat.pow_add ..).symm
    _ ≤ 2 ^ 53 := Nat.pow_le_pow_right two_pos (by omega)

private theorem le_shifted {m k : Nat} (hzero : m ≠ 0) (h : m.log2 + k = 52) :
    2 ^ 52 ≤ m * 2 ^ k := by
  rw [← h, Nat.pow_add]
  exact Nat.mul_le_mul_right _ (Nat.log2_self_le hzero)

theorem Binary.size_shifted (negative : Bool) (m k : Nat) (e : Int) :
    size ⟨negative, m, e⟩ = (m * 2 ^ k : Nat) * 2 ^ (e - (k : Int)) := by
  rw [size, zpow_sub₀ two_ne_zero, zpow_natCast]
  push_cast
  field_simp

/-- Parts with a mantissa that fits are the parts of a double. -/
theorem Binary.holds_toFloat
    {b : Binary} (hbits : b.mantissa < 2 ^ 53)
    (hleast : leastExponent ≤ b.exponent)
    (hgreatest : b.exponent ≤ greatestExponent) :
    Holds b.toFloat b.negative b.size := by
  obtain ⟨negative, m, e⟩ := b
  dsimp only at hbits hleast hgreatest
  have hsign : (if negative = true then 2 ^ 63 else 0) =
      negative.toNat * 2 ^ 63 := by
    cases negative <;> rfl
  unfold toFloat
  dsimp only [Nat.pow_eq]
  rw [hsign]
  by_cases hzero : m = 0
  · have hholds := @holds_subnormal negative 0 (by decide)
    rw [Nat.cast_zero, zero_mul, Nat.add_zero] at hholds
    rw [if_pos hzero, size, hzero, Nat.cast_zero, zero_mul]
    exact hholds
  rw [if_neg hzero]
  have hlog : m.log2 ≤ 52 :=
    Nat.lt_succ_iff.mp ((Nat.log2_lt hzero).mpr hbits)
  obtain ⟨k, hk⟩ : ∃ k, k = min (52 - m.log2) (e - leastExponent).toNat :=
    ⟨_, rfl⟩
  rw [← hk, size_shifted negative m k e]
  by_cases hless : m * 2 ^ k < 2 ^ 52
  · -- Fewer bits are left only where the exponent cannot go down further.
    have hexponent : e - (k : Int) = leastExponent := by
      by_contra hmore
      have hfull := @le_shifted m k hzero (by omega)
      omega
    rw [if_pos hless, hexponent]
    exact holds_subnormal hless
  · rw [if_neg hless]
    exact holds_normal (shifted_lt (by omega)) (Nat.not_lt.mp hless) (by omega)
      (by omega)

/-! ## The remainder -/

namespace Binary

/-- The mantissa for a smaller exponent. -/
theorem size_lowered (b : Binary) {e : Int} (h : e ≤ b.exponent) :
    size ⟨b.negative, b.mantissa * 2 ^ (b.exponent - e).toNat, e⟩ =
      b.size := by
  obtain ⟨k, hk⟩ : ∃ k : Nat, (k : Int) = b.exponent - e :=
    ⟨_, Int.toNat_of_nonneg (by omega)⟩
  have hexponent : b.exponent = k + e := by omega
  unfold size
  dsimp only
  rw [← hk, Int.toNat_natCast, hexponent, zpow_add₀ two_ne_zero, zpow_natCast]
  push_cast
  ring

section
variable {a b : Binary}

/-- The remainder of two whole numbers. -/
theorem size_remainder
    {m n : Nat} (ha : a.size = m) (hb : b.size = n) :
    (remainder a b).size = (m % n : Nat) := by
  have hdividend := a.size_lowered (min_le_left a.exponent b.exponent)
  have hdivisor := b.size_lowered (min_le_right a.exponent b.exponent)
  rw [ha, size_eq_natCast_iff] at hdividend
  rw [hb, size_eq_natCast_iff] at hdivisor
  rw [size_eq_natCast_iff]
  unfold remainder
  dsimp only [Nat.pow_eq] at hdividend hdivisor ⊢
  rw [← Nat.mul_mod_mul_right, hdividend, hdivisor, Nat.mul_mod_mul_right]

/-- The remainder needs no more bits than its operands. -/
theorem remainder_mantissa_lt
    (ha : a.mantissa < 2 ^ 53) (hb : b.mantissa < 2 ^ 53)
    (hpos : 0 < b.mantissa) : (remainder a b).mantissa < 2 ^ 53 := by
  unfold remainder
  dsimp only [Nat.pow_eq]
  rcases le_total a.exponent b.exponent with hle | hle
  · rw [min_eq_left hle, Int.sub_self]
    refine lt_of_le_of_lt (Nat.mod_le _ _) ?_
    simpa using ha
  · rw [min_eq_right hle, Int.sub_self]
    refine lt_trans (Nat.mod_lt _ ?_) ?_
    · simpa using hpos
    · simpa using hb

end

end Binary

section
variable {x y : Float} {negative sign : Bool} {q : ℚ}

theorem Holds.lt_zero_iff (h : Holds x negative q) :
    x < 0 ↔ negative = true ∧ q ≠ 0 := by
  change decide (x.toModel < (0 : Float).toModel) = true ↔ _
  rw [decide_eq_true_iff]
  change x.toModel.unpack.lt (.zero .positive) = true ↔ _
  by_cases hq : q = 0
  · subst hq
    rw [h.unpack_zero]
    exact ⟨fun hless => absurd hless Bool.false_ne_true,
      fun hboth => absurd rfl hboth.2⟩
  · obtain ⟨m, e, hm, hunpack, -, -⟩ := h.unpack (h.pos_of_ne_zero hq)
    rw [hunpack]
    cases negative with
    | false => exact ⟨fun hless => absurd hless Bool.false_ne_true,
        fun hboth => absurd hboth.1 Bool.false_ne_true⟩
    | true => exact ⟨fun _ => ⟨rfl, hq⟩, fun _ => rfl⟩

theorem Holds.not_special (h : Holds x negative q) :
    x.isNaN = false ∧ x.isInf = false := by
  change x.toModel.unpack.isNaN = false ∧ x.toModel.unpack.isInf = false
  rw [Binary.unpack_of_isFinite h.finite]
  unfold Binary.unpacked
  split <;> exact ⟨rfl, rfl⟩

theorem holds_remainder
    {m n : Nat} (hx : Holds x negative m) (hy : Holds y sign n) (hn : 0 < n) :
    Holds (remainder x y) negative (m % n : Nat) := by
  obtain ⟨hxnan, hxinf⟩ := hx.not_special
  obtain ⟨hynan, hyinf⟩ := hy.not_special
  have hyzero : (y == 0) = false := by
    rw [← Bool.not_eq_true, hy.beq_zero_iff]
    exact_mod_cast hn.ne'
  have hpos : 0 < (Binary.ofFloat y).mantissa := by
    apply Nat.pos_of_ne_zero
    intro hzero
    have hsize := hy.size
    rw [Binary.size, hzero, Nat.cast_zero, zero_mul] at hsize
    exact hn.ne (by exact_mod_cast hsize)
  obtain ⟨hxleast, hxbits, -⟩ := Binary.ofFloat_canonical x
  obtain ⟨hyleast, hybits, -⟩ := Binary.ofFloat_canonical y
  have hgreatest := Binary.isFinite_iff.mp hx.finite
  have hholds := @Binary.holds_toFloat
    (Binary.remainder (Binary.ofFloat x) (Binary.ofFloat y))
    (Binary.remainder_mantissa_lt hxbits hybits hpos)
    (le_min hxleast hyleast) ((min_le_left _ _).trans hgreatest)
  rw [Binary.size_remainder hx.size hy.size] at hholds
  have hsign : (Binary.remainder (Binary.ofFloat x)
      (Binary.ofFloat y)).negative = negative := hx.sign
  rw [hsign] at hholds
  unfold remainder
  rw [hxnan, hynan, hxinf, hyzero, hyinf, if_neg (by decide),
    if_neg Bool.false_ne_true]
  exact hholds

end

/-! ## Whole numbers -/

section
variable {x : Float} {negative : Bool} {n : Nat}

/-- A whole number is printed with all its digits. -/
theorem Holds.printed_eq (h : Holds x negative n) :
    printed x = (if negative then "-" else "") ++ Nat.repr n := by
  obtain ⟨hfinite, rfl, hsize⟩ := h
  have hwhole : (Binary.ofFloat x).isWhole = true := by
    have hparts := Binary.size_eq_natCast_iff.mp hsize
    unfold Binary.isWhole
    dsimp only [Nat.pow_eq]
    split
    · rfl
    · rename_i hexponent
      have hzero : (Binary.ofFloat x).exponent.toNat = 0 := by omega
      rw [hzero, Nat.pow_zero, Nat.mul_one] at hparts
      rw [hparts, Nat.mul_mod_left]
      rfl
  have hpart : (Binary.ofFloat x).wholePart = n := by
    have hcast := (Binary.wholePart_eq_size hwhole).trans hsize
    exact_mod_cast hcast
  have hall : isWhole x = true := by
    rw [isWhole, hfinite, hwhole]
    rfl
  unfold printed
  rw [hfinite, hall, if_neg (by decide), if_pos rfl, wholeText, hpart]
  rfl

end

theorem holds_ofInt {a : Int} (h : a.natAbs ≤ 2 ^ 53) :
    Holds (Float.ofInt a) (decide (a < 0)) a.natAbs := by
  cases a with
  | ofNat n => exact holds_ofNat h
  | negSucc n =>
      have hneg : decide (Int.negSucc n < 0) = true :=
        decide_eq_true (Int.negSucc_lt_zero n)
      rw [hneg]
      exact (holds_ofNat h).neg

theorem toString_eq (a : Int) :
    toString a = (if a < 0 then "-" else "") ++ Nat.repr a.natAbs := by
  cases a with
  | ofNat n => rfl
  | negSucc n =>
      rw [if_pos (Int.negSucc_lt_zero n)]
      rfl

/-! ## The remainder of a floored division -/

section
variable (a : Int) {b : Int}

/-- The remainder of a division that rounds to zero, moved to the sign of the
divisor. -/
theorem fmod_eq_ite_tmod (b : Int) :
    a.fmod b =
      if a.tmod b ≠ 0 ∧ ¬ (a < 0 ↔ b < 0) then a.tmod b + b else a.tmod b := by
  rw [Int.fmod_eq_tmod]
  simp only [Int.dvd_iff_tmod_eq_zero]
  split <;> split <;> omega

theorem tmod_neg_iff (h : a.tmod b ≠ 0) : a.tmod b < 0 ↔ a < 0 := by
  rcases lt_or_ge a 0 with hneg | hnonneg
  · have hrest := Int.tmod_nonneg b (Int.neg_nonneg_of_nonpos hneg.le)
    rw [Int.neg_tmod] at hrest
    omega
  · have hrest := Int.tmod_nonneg b hnonneg
    omega

theorem natAbs_tmod_lt (h : b ≠ 0) : (a.tmod b).natAbs < b.natAbs := by
  rw [Int.natAbs_tmod]
  exact Nat.mod_lt _ (Int.natAbs_pos.mpr h)

theorem fmod_neg_iff (hb : b ≠ 0) (h : a.fmod b ≠ 0) :
    a.fmod b < 0 ↔ b < 0 := by
  have hsign := tmod_neg_iff a (b := b)
  have hbound := natAbs_tmod_lt a hb
  rw [fmod_eq_ite_tmod] at h ⊢
  split at h
  · rename_i hmove
    rw [if_pos hmove]
    omega
  · rename_i hmove
    rw [if_neg hmove]
    omega

/-- The remainder of a floored division is zero or has the sign of the
divisor. -/
theorem fmod_sign (hb : b ≠ 0) : a.fmod b = 0 ∨ (a.fmod b).sign = b.sign := by
  by_cases hzero : a.fmod b = 0
  · exact .inl hzero
  · right
    have hsame := fmod_neg_iff a hb hzero
    rcases lt_or_gt_of_ne hb with hneg | hpos
    · rw [Int.sign_eq_neg_one_of_neg hneg,
        Int.sign_eq_neg_one_of_neg (hsame.mpr hneg)]
    · rw [Int.sign_eq_one_of_pos hpos, Int.sign_eq_one_of_pos (by omega)]

theorem floor_eq_fdiv (b : Int) : ⌊(a / b : ℚ)⌋ = a.fdiv b := by
  rcases Int.le_total 0 b with hnonneg | hnonpos
  · obtain ⟨n, rfl⟩ := Int.eq_ofNat_of_zero_le hnonneg
    rw [Int.fdiv_eq_ediv_of_nonneg a hnonneg, ← Rat.floor_intCast_div_natCast]
    rfl
  · obtain ⟨n, hn⟩ := Int.eq_ofNat_of_zero_le (Int.neg_nonneg_of_nonpos hnonpos)
    have hb : b = -n := by omega
    rw [hb, ← Int.neg_fdiv_neg, Int.neg_neg,
      Int.fdiv_eq_ediv_of_nonneg _ (Int.natCast_nonneg n),
      ← Rat.floor_intCast_div_natCast]
    push_cast
    rw [div_neg, neg_div]

end

private theorem flooredRemainder_eq
    {x y : Float} {negative sign : Bool} {p q : ℚ}
    (hrest : Holds (remainder x y) negative p) (hy : Holds y sign q)
    (hq : q ≠ 0) :
    flooredRemainder x y =
      if p ≠ 0 ∧ negative ≠ sign then remainder x y + y
      else remainder x y := by
  have hzero : (remainder x y != 0) = true ↔ p ≠ 0 := by
    rw [bne, Bool.not_eq_true', ← Bool.not_eq_true, hrest.beq_zero_iff]
  have hless : p ≠ 0 →
      ((decide (remainder x y < 0) != decide (y < 0)) = true ↔
        negative ≠ sign) := by
    intro hp
    have hrestless : decide (remainder x y < 0) = negative := by
      rw [Bool.eq_iff_iff, decide_eq_true_iff, hrest.lt_zero_iff]
      exact and_iff_left hp
    have hyless : decide (y < 0) = sign := by
      rw [Bool.eq_iff_iff, decide_eq_true_iff, hy.lt_zero_iff]
      exact and_iff_left hq
    rw [hrestless, hyless, bne_iff_ne]
  unfold flooredRemainder
  dsimp only
  apply if_congr _ rfl rfl
  rw [Bool.and_eq_true, hzero]
  exact and_congr_right hless

section
variable {a b : Int} (ha : a.natAbs ≤ 2 ^ 53) (hb : b.natAbs ≤ 2 ^ 53)
  (hne : b ≠ 0)
include ha hb hne

private theorem holds_ofInt_remainder :
    Holds (remainder (Float.ofInt a) (Float.ofInt b)) (decide (a < 0))
      (a.tmod b).natAbs := by
  rw [Int.natAbs_tmod]
  exact holds_remainder (holds_ofInt ha) (holds_ofInt hb)
    (Int.natAbs_pos.mpr hne)

/-- The divisor is added where the signs differ, and the sum is exact. -/
theorem holds_remainder_add
    (hnonzero : a.tmod b ≠ 0) (hdiffer : ¬ (a < 0 ↔ b < 0)) :
    Holds (remainder (Float.ofInt a) (Float.ofInt b) + Float.ofInt b)
      (decide (b < 0)) (a.fmod b).natAbs := by
  have hrest := holds_ofInt_remainder ha hb hne
  have hbound := natAbs_tmod_lt a hne
  have hsign := tmod_neg_iff a hnonzero
  have hfmod := fmod_eq_ite_tmod a b
  rw [if_pos ⟨hnonzero, hdiffer⟩] at hfmod
  have hlost : (a.fmod b).natAbs = b.natAbs - (a.tmod b).natAbs := by omega
  obtain ⟨x, hx⟩ := exists_holds (decide (b < 0))
    (show (a.fmod b).natAbs ≤ 2 ^ 53 by omega)
  have hsum : remainder (Float.ofInt a) (Float.ofInt b) + Float.ofInt b =
      x := by
    have hother : decide (a < 0) = !decide (b < 0) := by
      rw [← decide_not, decide_eq_decide]
      tauto
    rw [hother] at hrest
    rw [hlost, Nat.cast_sub hbound.le] at hx
    apply add_eq hrest (holds_ofInt hb) hx
    · exact_mod_cast Int.natAbs_pos.mpr hnonzero
    · exact_mod_cast hbound
  rw [hsum]
  exact hx

private theorem holds_flooredRemainder :
    Holds (flooredRemainder (Float.ofInt a) (Float.ofInt b))
      (if a.fmod b = 0 then decide (a < 0) else decide (b < 0))
      (a.fmod b).natAbs := by
  have hrest := holds_ofInt_remainder ha hb hne
  have hdivisor : (b.natAbs : ℚ) ≠ 0 := by
    exact_mod_cast Int.natAbs_ne_zero.mpr hne
  have hnonzero : ((a.tmod b).natAbs : ℚ) ≠ 0 ↔ a.tmod b ≠ 0 := by
    rw [ne_eq, Nat.cast_eq_zero, Int.natAbs_eq_zero]
  have hsigns : decide (a < 0) ≠ decide (b < 0) ↔ ¬ (a < 0 ↔ b < 0) := by
    rw [ne_eq, decide_eq_decide]
  have hfmod := fmod_eq_ite_tmod a b
  rw [flooredRemainder_eq hrest (holds_ofInt hb) hdivisor,
    if_congr (and_congr hnonzero hsigns) rfl rfl]
  by_cases hmove : a.tmod b ≠ 0 ∧ ¬ (a < 0 ↔ b < 0)
  · have hbound := natAbs_tmod_lt a hne
    rw [if_pos hmove] at hfmod ⊢
    rw [if_neg (by omega)]
    exact holds_remainder_add ha hb hne hmove.1 hmove.2
  · rw [if_neg hmove] at hfmod ⊢
    rw [hfmod]
    by_cases hzero : a.tmod b = 0
    · rw [if_pos hzero]
      exact hrest
    · rw [if_neg hzero]
      have hsame : decide (a < 0) = decide (b < 0) := by
        rw [decide_eq_decide]
        tauto
      rw [← hsame]
      exact hrest

private theorem printed_flooredRemainder :
    printed (flooredRemainder (Float.ofInt a) (Float.ofInt b)) =
      if a.fmod b = 0 ∧ a < 0 then "-0" else toString (a.fmod b) := by
  have hsign := fmod_neg_iff a hne
  rw [(holds_flooredRemainder ha hb hne).printed_eq]
  by_cases hzero : a.fmod b = 0
  · rw [if_pos hzero, hzero]
    by_cases hneg : a < 0
    · have hboth : (0 : Int) = 0 ∧ a < 0 := ⟨rfl, hneg⟩
      rw [decide_eq_true hneg, if_pos hboth]
      rfl
    · rw [decide_eq_false hneg, if_neg (not_and_of_not_right _ hneg)]
      rfl
  · have hother : ¬ (a.fmod b = 0 ∧ a < 0) := not_and_of_not_left _ hzero
    rw [if_neg hzero, if_neg hother, toString_eq,
      if_congr (decide_eq_true_iff.trans (hsign hzero).symm) rfl rfl]

end

end Number

namespace Step

open Number

/-- The remainder of two whole numbers is printed as the remainder of their
floored division, but a multiple of the divisor below zero is printed as a zero
with a sign. -/
theorem modulo_prints_floored_remainder
    {a b : Int} (ha : |a| ≤ 2 ^ 53) (hb : |b| ≤ 2 ^ 53) (hne : b ≠ 0)
    {fuel : Nat} {left right : Expr} {machine middle after : Machine}
    (hleft : eval fuel left machine = .ok (.number (Float.ofInt a)) middle)
    (hright : eval fuel right middle = .ok (.number (Float.ofInt b)) after)
    (line : Nat) :
    let rest := a - b * ⌊(a / b : ℚ)⌋
    let text := if rest = 0 ∧ a < 0 then "-0" else toString rest
    (rest = 0 ∨ rest.sign = b.sign) ∧
      exec (fuel + 2) (.print (.binary left .modulo right line)) machine =
        (do write (text ++ "\n"); return Completion.normal) after := by
  intro rest text
  rw [Int.abs_eq_natAbs] at ha hb
  have hrest : rest = a.fmod b := by
    rw [Int.fmod_def, ← floor_eq_fdiv]
  have htext :
      printed (flooredRemainder (Float.ofInt a) (Float.ofInt b)) = text := by
    rw [printed_flooredRemainder (by exact_mod_cast ha) (by exact_mod_cast hb)
      hne, ← hrest]
  have hvalue : eval (fuel + 1) (.binary left .modulo right line) machine =
      .ok (.number (flooredRemainder (Float.ofInt a) (Float.ofInt b)))
        after := by
    rw [eval, bind_eq hleft, bind_eq hright]
    rfl
  have hprint : print (.number (flooredRemainder (Float.ofInt a)
      (Float.ofInt b))) after = write (text ++ "\n") after := by
    rw [← htext]
    rfl
  refine ⟨?_, ?_⟩
  · rw [hrest]
    exact fmod_sign a hne
  · rw [exec, bind_eq hvalue]
    change EStateM.bind _ _ _ = EStateM.bind _ _ _
    unfold EStateM.bind
    rw [hprint]

theorem negative_seven_prints_two :
    let machine := Machine.start .unlimited fun _ => 0
    exec 4 (.print (.binary (.unary .negate (.literal (.number 7)) 1) .modulo
      (.literal (.number 3)) 1)) machine =
        (do write "2\n"; return Completion.normal) machine := by
  intro machine
  have hprints := @modulo_prints_floored_remainder (-7) 3 (by decide)
    (by decide) (by decide) 2 (.unary .negate (.literal (.number 7)) 1)
    (.literal (.number 3)) machine machine machine rfl rfl 1
  have hfloor : ⌊((-7 : Int) / (3 : Int) : ℚ)⌋ = -3 := by decide +kernel
  simp only [hfloor] at hprints
  exact hprints.2

theorem negative_six_prints_signed_zero :
    ((Session.start .unlimited fun _ => 0).run 10
      "print -6 % 3;").2.machine.sink.written = "-0\n".toUTF8 ∧
        toString ((-6 : Int) - 3 * ⌊((-6 : Int) / (3 : Int) : ℚ)⌋) = "0" := by
  decide +kernel

end Step
end LoxLang
