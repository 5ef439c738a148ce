import Mathlib.Algebra.Order.Field.Power
import Mathlib.Algebra.Order.Field.Rat
import Mathlib.Tactic.FieldSimp
import Mathlib.Tactic.Linarith
import Mathlib.Tactic.NormNum
import Mathlib.Tactic.Positivity
import Mathlib.Tactic.Ring
import LoxLang.Number.Shortest

/-!
# The decimals around a double

The intervals of rational numbers around two different doubles have nothing in
common: next to each other they share at most an end, and then it belongs to
the one of them whose mantissa is even.  The search for a short decimal comes
upon one in the interval before it runs out of places.  So the decimal that is
found tells the double.
-/

namespace LoxLang
namespace Number

namespace Binary

/-- The parts are those of a double: the exponent is the least one, or the
mantissa has all its bits. -/
structure Canonical (b : Binary) : Prop where
  least : leastExponent ≤ b.exponent
  bits : b.mantissa < 2 ^ 53
  full : leastExponent < b.exponent → 2 ^ 52 ≤ b.mantissa

/-- The size of the number. -/
def size (b : Binary) : ℚ :=
  b.mantissa * 2 ^ b.exponent

end Binary

/-- The number that the decimal stands for. -/
def Decimal.value (d : Decimal) : ℚ :=
  d.digits * 10 ^ d.exponent

/-! ## Powers with a sign -/

theorem pow_toNat_mul {base : ℚ} (h : base ≠ 0) (e : Int) :
    base ^ (-e).toNat * base ^ e = base ^ e.toNat := by
  rw [← zpow_natCast, ← zpow_natCast, ← zpow_add₀ h]
  congr 1
  omega

namespace Interval

/-- The rational number lies in the interval. -/
def Contains (i : Interval) (q : ℚ) : Prop :=
  if i.closed then (i.low : ℚ) ≤ q * i.unit ∧ q * i.unit ≤ i.high
  else (i.low : ℚ) < q * i.unit ∧ q * i.unit < i.high

/-- A whole number of steps on a grid lies in the interval if it does so as
seen on the grid. -/
theorem holds_atPlace_iff (i : Interval) (place : Int) (n : Nat) :
    (i.atPlace place).holds n = true ↔
      i.Contains (Decimal.value ⟨n, place⟩) := by
  have hup : (0 : ℚ) < 10 ^ (-place).toNat := by positivity
  have hscaled :
      ((n * (i.unit * 10 ^ place.toNat) : Nat) : ℚ) =
        Decimal.value ⟨n, place⟩ * i.unit * 10 ^ (-place).toNat := by
    push_cast
    rw [← pow_toNat_mul (by norm_num : (10 : ℚ) ≠ 0), Decimal.value]
    ring
  have hle : ∀ bound : Nat,
      bound * 10 ^ (-place).toNat ≤ n * (i.unit * 10 ^ place.toNat) ↔
        (bound : ℚ) ≤ Decimal.value ⟨n, place⟩ * i.unit := by
    intro bound
    rw [← Nat.cast_le (α := ℚ), hscaled]
    push_cast
    exact mul_le_mul_iff_left₀ hup
  have hge : ∀ bound : Nat,
      n * (i.unit * 10 ^ place.toNat) ≤ bound * 10 ^ (-place).toNat ↔
        Decimal.value ⟨n, place⟩ * i.unit ≤ (bound : ℚ) := by
    intro bound
    rw [← Nat.cast_le (α := ℚ), hscaled]
    push_cast
    exact mul_le_mul_iff_left₀ hup
  unfold holds Contains atPlace
  dsimp only [Nat.pow_eq]
  split
  · rw [Bool.and_eq_true, decide_eq_true_eq, decide_eq_true_eq, hle, hge]
  · rw [Bool.and_eq_true, decide_eq_true_eq, decide_eq_true_eq,
      ← Nat.not_le, ← Nat.not_le, hle, hge, not_le, not_le]

end Interval

/-! ## Different doubles -/

namespace Binary

/-- How far the interval goes down, in quarters of the last bit. -/
def gapBelow (b : Binary) : Nat :=
  if b.mantissa = 2 ^ 52 ∧ leastExponent < b.exponent then 1 else 2

/-- The lower end of the interval. -/
def lowEnd (b : Binary) : ℚ :=
  (4 * b.mantissa - b.gapBelow : Nat) * 2 ^ (b.exponent - 2)

/-- The upper end of the interval. -/
def highEnd (b : Binary) : ℚ :=
  (4 * b.mantissa + 2 : Nat) * 2 ^ (b.exponent - 2)

/-- What the unit of the interval is for. -/
theorem cast_scaled (b : Binary) (steps : Nat) :
    ((steps * 2 ^ (b.exponent - 2).toNat : Nat) : ℚ) =
      steps * 2 ^ (b.exponent - 2) * (2 ^ (2 - b.exponent).toNat : Nat) := by
  have hscale := pow_toNat_mul (by norm_num : (2 : ℚ) ≠ 0) (b.exponent - 2)
  rw [Int.neg_sub] at hscale
  push_cast
  rw [← hscale]
  ring

theorem contains_around_iff (b : Binary) (q : ℚ) :
    (Interval.around b).Contains q ↔
      if b.mantissa % 2 = 0 then b.lowEnd ≤ q ∧ q ≤ b.highEnd
      else b.lowEnd < q ∧ q < b.highEnd := by
  have hunit : (0 : ℚ) < (2 ^ (2 - b.exponent).toNat : Nat) := by positivity
  have hlow : (((Interval.around b).low : Nat) : ℚ) =
      b.lowEnd * (2 ^ (2 - b.exponent).toNat : Nat) :=
    cast_scaled b (4 * b.mantissa - b.gapBelow)
  have hhigh : (((Interval.around b).high : Nat) : ℚ) =
      b.highEnd * (2 ^ (2 - b.exponent).toNat : Nat) :=
    cast_scaled b (4 * b.mantissa + 2)
  have hclosed : (Interval.around b).closed = (b.mantissa % 2 == 0) := rfl
  have hsame : (Interval.around b).unit = 2 ^ (2 - b.exponent).toNat := rfl
  unfold Interval.Contains
  rw [hlow, hhigh, hclosed, hsame]
  simp only [beq_iff_eq, mul_le_mul_iff_left₀ hunit, mul_lt_mul_iff_left₀ hunit]

/-- A double lies in its own interval. -/
theorem contains_size (b : Binary) : (Interval.around b).Contains b.size := by
  have hp : (0 : ℚ) < 2 ^ (b.exponent - 2) := by positivity
  have hsize : b.size = (4 * b.mantissa : Nat) * 2 ^ (b.exponent - 2) := by
    rw [size, zpow_sub₀ (by norm_num)]
    push_cast
    ring
  have hgap : 1 ≤ b.gapBelow := by
    unfold gapBelow
    split <;> omega
  rw [contains_around_iff, hsize]
  unfold lowEnd highEnd
  simp only [mul_le_mul_iff_left₀ hp, mul_lt_mul_iff_left₀ hp, Nat.cast_le,
    Nat.cast_lt]
  split <;> omega

theorem wholePart_eq_size {b : Binary} (h : b.isWhole = true) :
    (b.wholePart : ℚ) = b.size := by
  unfold isWhole at h
  unfold wholePart size
  dsimp only [Nat.pow_eq] at h ⊢
  split
  · rename_i hexponent
    push_cast
    rw [← zpow_natCast, Int.toNat_of_nonneg hexponent]
  · rename_i hexponent
    rw [if_neg hexponent, beq_iff_eq] at h
    have hpower := pow_toNat_mul (by norm_num : (2 : ℚ) ≠ 0) b.exponent
    have hzero : b.exponent.toNat = 0 := by omega
    rw [hzero, pow_zero] at hpower
    have hdivided := Nat.div_mul_cancel (Nat.dvd_of_mod_eq_zero h)
    rw [← Nat.cast_inj (R := ℚ)] at hdivided
    push_cast at hdivided
    rw [← hdivided, mul_assoc, hpower, mul_one]

/-- The parts of the smaller of two doubles. -/
def Before (a b : Binary) : Prop :=
  a.exponent < b.exponent ∨
    a.exponent = b.exponent ∧ a.mantissa < b.mantissa

/-- The intervals of two doubles in steps of the smaller one.  At most one of
them has a common end. -/
theorem Before.steps_le
    {a b : Binary} (ha : a.Canonical) (hb : b.Canonical) (h : a.Before b) :
    let steps :=
      (4 * b.mantissa - b.gapBelow) * 2 ^ (b.exponent - a.exponent).toNat
    4 * a.mantissa + 2 ≤ steps ∧
      (4 * a.mantissa + 2 = steps →
        a.mantissa % 2 = 1 ∨ b.mantissa % 2 = 1) := by
  intro steps
  have hbits := ha.bits
  rcases h with hexponent | ⟨hexponent, hmantissa⟩
  · -- Every step of the exponent doubles what the mantissa counts.
    have hleast := ha.least.trans_lt hexponent
    have hfull := hb.full hleast
    have hgap : 4 * 2 ^ 52 - 1 ≤ 4 * b.mantissa - b.gapBelow := by
      unfold gapBelow
      split <;> omega
    have hdouble : 2 ≤ 2 ^ (b.exponent - a.exponent).toNat :=
      Nat.le_self_pow (by omega) 2
    have hsteps : (4 * 2 ^ 52 - 1) * 2 ≤ steps := Nat.mul_le_mul hgap hdouble
    omega
  · have hgap : b.gapBelow ≤ 2 := by
      unfold gapBelow
      split <;> omega
    have hsame : steps = 4 * b.mantissa - b.gapBelow := by
      simp [steps, hexponent]
    omega

theorem Before.highEnd_le_lowEnd
    {a b : Binary} (ha : a.Canonical) (hb : b.Canonical) (h : a.Before b) :
    a.highEnd ≤ b.lowEnd ∧
      (a.highEnd = b.lowEnd → a.mantissa % 2 = 1 ∨ b.mantissa % 2 = 1) := by
  have hexponent : a.exponent ≤ b.exponent := by
    rcases h with hless | ⟨hsame, -⟩
    · exact hless.le
    · exact hsame.le
  have hp : (0 : ℚ) < 2 ^ (a.exponent - 2) := by positivity
  have hlow : b.lowEnd = ((4 * b.mantissa - b.gapBelow) *
      2 ^ (b.exponent - a.exponent).toNat : Nat) * 2 ^ (a.exponent - 2) := by
    have hpower : (2 : ℚ) ^ (b.exponent - 2) =
        2 ^ (b.exponent - a.exponent).toNat * 2 ^ (a.exponent - 2) := by
      rw [← zpow_natCast, ← zpow_add₀ (by norm_num : (2 : ℚ) ≠ 0)]
      congr 1
      omega
    rw [lowEnd, hpower, Nat.cast_mul, mul_assoc]
    push_cast
    rfl
  obtain ⟨hle, hodd⟩ := h.steps_le ha hb
  rw [hlow, highEnd]
  constructor
  · exact mul_le_mul_of_nonneg_right (Nat.cast_le.mpr hle) hp.le
  · intro hequal
    exact hodd (Nat.cast_injective (mul_right_cancel₀ hp.ne' hequal))

theorem Before.not_both
    {a b : Binary} {q : ℚ} (ha : a.Canonical) (hb : b.Canonical)
    (h : a.Before b) (hqa : (Interval.around a).Contains q) :
    ¬ (Interval.around b).Contains q := by
  intro hqb
  obtain ⟨hle, hodd⟩ := h.highEnd_le_lowEnd ha hb
  rw [contains_around_iff] at hqa hqb
  split at hqa
  · split at hqb
    · -- Only the common end is left, and it is in neither of two even ones.
      have hequal : a.highEnd = b.lowEnd := by linarith
      have := hodd hequal
      omega
    · linarith
  · split at hqb <;> linarith

/-- A number lies in the interval of one double only. -/
theorem eq_of_contains
    {a b : Binary} {q : ℚ} (ha : a.Canonical) (hb : b.Canonical)
    (hqa : (Interval.around a).Contains q)
    (hqb : (Interval.around b).Contains q) :
    a.mantissa = b.mantissa ∧ a.exponent = b.exponent := by
  have hab : ¬ a.Before b := fun h => h.not_both ha hb hqa hqb
  have hba : ¬ b.Before a := fun h => h.not_both hb ha hqb hqa
  unfold Before at hab hba
  omega

end Binary

/-! ## The search for a decimal -/

private theorem digitCount_pos (n : Nat) : 0 < digitCount n :=
  Nat.length_toDigits_pos

theorem lt_pow_digitCount (n : Nat) : n < 10 ^ digitCount n :=
  (Nat.length_toDigits_le_iff (by decide) (digitCount_pos n)).mp le_rfl

theorem pow_digitCount_le {n : Nat} (h : 0 < n) :
    10 ^ digitCount n ≤ 10 * n := by
  obtain ⟨k, hk⟩ := Nat.exists_eq_succ_of_ne_zero (digitCount_pos n).ne'
  rw [hk, Nat.pow_succ', Nat.mul_le_mul_left_iff (by decide)]
  by_cases hzero : k = 0
  · rw [hzero]
    exact h
  · have hlength : ¬ digitCount n ≤ k := by omega
    unfold digitCount at hlength
    rw [Nat.length_toDigits_le_iff (by decide) (Nat.pos_of_ne_zero hzero)]
      at hlength
    omega

namespace Interval

private theorem holds_of_nearest?
    {i : Interval} {tie : Tie} {n : Nat} (h : i.nearest? tie = some n) :
    i.holds n = true := by
  unfold nearest? at h
  dsimp only at h
  split at h
  · cases h
  · cases h
    assumption
  · cases h
    assumption
  · split at h
    · cases h
      assumption
    split at h
    · cases h
      assumption
    split at h
    · cases h
      assumption
    · cases h
      split <;> assumption

/-- If a step of the grid is not longer than the way from the lower end to the
value, then the last multiple up to the value is in the interval. -/
theorem nearest?_isSome
    {i : Interval} (tie : Tie) (hunit : 0 < i.unit)
    (hlow : i.low + i.unit ≤ i.value) (hhigh : i.value < i.high) :
    (i.nearest? tie).isSome = true := by
  have hdivided := Nat.div_add_mod' i.value i.unit
  have hrest := Nat.mod_lt i.value hunit
  have hholds : i.holds (i.value / i.unit) = true := by
    unfold holds
    split
    · simp only [Bool.and_eq_true, decide_eq_true_eq]
      omega
    · simp only [Bool.and_eq_true, decide_eq_true_eq]
      omega
  unfold nearest?
  dsimp only
  rw [hholds]
  cases i.holds (i.value / i.unit + 1) with
  | false => rfl
  | true =>
      dsimp only
      split
      · rfl
      split
      · rfl
      · cases tie <;> rfl

theorem nearest?_atPlace_isSome
    {i : Interval} (tie : Tie) {place : Int} (hunit : 0 < i.unit)
    (hlow : (10 : ℚ) ^ place * i.unit ≤ i.value - i.low)
    (hhigh : i.value < i.high) :
    ((i.atPlace place).nearest? tie).isSome = true := by
  have hup : 0 < 10 ^ (-place).toNat := Nat.pow_pos (by decide)
  have hdown : 0 < 10 ^ place.toNat := Nat.pow_pos (by decide)
  have hpower := pow_toNat_mul (by norm_num : (10 : ℚ) ≠ 0) place
  apply nearest?_isSome
  · exact Nat.mul_pos hunit hdown
  · change i.low * 10 ^ (-place).toNat + i.unit * 10 ^ place.toNat ≤
      i.value * 10 ^ (-place).toNat
    have hscaled := mul_le_mul_of_nonneg_left hlow
      (by positivity : (0 : ℚ) ≤ 10 ^ (-place).toNat)
    rw [← mul_assoc, hpower] at hscaled
    rw [← Nat.cast_le (α := ℚ)]
    push_cast
    linarith
  · exact Nat.mul_lt_mul_of_pos_right hhigh hup

theorem contains_of_firstFrom
    {i : Interval} {tie : Tie} {count : Nat} {place : Int} {d : Decimal}
    (h : i.firstFrom tie count place = some d) : i.Contains d.value := by
  induction count generalizing place with
  | zero => cases h
  | succ count ih =>
      unfold firstFrom at h
      split at h
      · rename_i n hnearest
        cases h
        exact (holds_atPlace_iff i place n).mp (holds_of_nearest? hnearest)
      · exact ih h

private theorem firstFrom_isSome
    {i : Interval} {tie : Tie} {count : Nat} {place : Int} (steps : Nat)
    (hsteps : steps < count)
    (h : ((i.atPlace (place - steps)).nearest? tie).isSome = true) :
    (i.firstFrom tie count place).isSome = true := by
  induction count generalizing place steps with
  | zero => omega
  | succ count ih =>
      unfold firstFrom
      split
      · rfl
      · rename_i hnone
        cases steps with
        | zero =>
            rw [Nat.cast_zero, Int.sub_zero, hnone] at h
            cases h
        | succ steps =>
            apply ih steps (Nat.lt_of_succ_lt_succ hsteps)
            rwa [Nat.cast_succ, Int.add_comm, ← Int.sub_sub] at h

private theorem topPlace_le
    {i : Interval} (hunit : 0 < i.unit) (hvalue : 0 < i.value) :
    (10 : ℚ) ^ i.topPlace * i.unit ≤ 10 * i.value := by
  unfold topPlace
  split
  · rename_i hle
    have hdigits := pow_digitCount_le (Nat.div_pos hle hunit)
    have hmul := Nat.div_mul_le_self i.value i.unit
    rw [zpow_natCast]
    have hall : 10 ^ digitCount (i.value / i.unit) * i.unit ≤ 10 * i.value :=
      calc 10 ^ digitCount (i.value / i.unit) * i.unit
          ≤ 10 * (i.value / i.unit) * i.unit :=
            Nat.mul_le_mul_right _ hdigits
        _ = 10 * (i.value / i.unit * i.unit) := Nat.mul_assoc ..
        _ ≤ 10 * i.value := Nat.mul_le_mul_left _ hmul
    exact_mod_cast hall
  · rename_i hlt
    have hdigits := lt_pow_digitCount (i.unit / i.value)
    have hall : i.unit ≤ 10 ^ digitCount (i.unit / i.value) * i.value :=
      calc i.unit
          ≤ (i.unit / i.value + 1) * i.value := by
            have hdivided := Nat.div_add_mod' i.unit i.value
            have hrest := Nat.mod_lt i.unit hvalue
            rw [Nat.succ_mul]
            omega
        _ ≤ _ := Nat.mul_le_mul_right _ hdigits
    have hcast : (i.unit : ℚ) ≤
        10 ^ digitCount (i.unit / i.value) * i.value := by
      exact_mod_cast hall
    rw [zpow_sub₀ (by norm_num), zpow_one, zpow_natCast, div_mul_eq_mul_div,
      div_le_iff₀ (by positivity)]
    linarith

end Interval

theorem Decimal.value_strip (count : Nat) (d : Decimal) :
    (d.strip count).value = d.value := by
  induction count generalizing d with
  | zero => rfl
  | succ count ih =>
      unfold strip
      split
      · rename_i h
        have hdigits : ((d.digits / 10 : Nat) : ℚ) * 10 = d.digits := by
          exact_mod_cast Nat.div_mul_cancel (Nat.dvd_of_mod_eq_zero h.2)
        rw [ih, value, value, zpow_add_one₀ (by norm_num), ← hdigits]
        ring
      · rfl

namespace Binary

/-- The last of the grids is fine enough: a mantissa has fewer than seventeen
digits, and the first grid is at most one place above the first of them. -/
theorem around_isSome
    {b : Binary} (hb : b.Canonical) (hpositive : 0 < b.mantissa)
    (tie : Tie) :
    ((Interval.around b).firstFrom tie 24
      (Interval.around b).topPlace).isSome = true := by
  have hunit : 0 < (Interval.around b).unit := Nat.pow_pos (by decide)
  have hscale : 0 < 2 ^ (b.exponent - 2).toNat := Nat.pow_pos (by decide)
  have hvalue : (Interval.around b).value =
      4 * b.mantissa * 2 ^ (b.exponent - 2).toNat := rfl
  have hlow : (Interval.around b).low =
      (4 * b.mantissa - b.gapBelow) * 2 ^ (b.exponent - 2).toNat := rfl
  have hhigh : (Interval.around b).high =
      (4 * b.mantissa + 2) * 2 ^ (b.exponent - 2).toNat := rfl
  have htop := Interval.topPlace_le hunit (by rw [hvalue]; positivity)
  have hstep : (Interval.around b).low + 2 ^ (b.exponent - 2).toNat ≤
      (Interval.around b).value := by
    have hgap : 1 ≤ b.gapBelow := by
      unfold gapBelow
      split <;> omega
    rw [hlow, hvalue, ← Nat.succ_mul]
    exact Nat.mul_le_mul_right _ (by omega)
  have hbits : 40 * b.mantissa ≤ 10 ^ 23 := by
    have := hb.bits
    omega
  apply Interval.firstFrom_isSome 23 (by decide)
  apply Interval.nearest?_atPlace_isSome tie hunit
  · rw [hvalue] at htop
    rw [← Nat.cast_le (α := ℚ)] at hstep hbits
    push_cast at htop hstep hbits
    calc (10 : ℚ) ^ ((Interval.around b).topPlace - (23 : Nat)) *
          (Interval.around b).unit
        = 10 ^ (Interval.around b).topPlace * (Interval.around b).unit /
            10 ^ 23 := by
          rw [zpow_sub₀ (by norm_num), zpow_natCast, div_mul_eq_mul_div]
      _ ≤ 10 * (4 * b.mantissa * 2 ^ (b.exponent - 2).toNat) / 10 ^ 23 := by
          gcongr
      _ = 40 * b.mantissa / 10 ^ 23 * 2 ^ (b.exponent - 2).toNat := by ring
      _ ≤ 1 * 2 ^ (b.exponent - 2).toNat := by
          gcongr
          exact (div_le_one (by norm_num)).mpr hbits
      _ ≤ (Interval.around b).value - (Interval.around b).low := by linarith
  · rw [hvalue, hhigh]
    exact Nat.mul_lt_mul_of_pos_right (by omega) hscale

/-- The shortest decimal lies in the interval of the double. -/
theorem contains_shortest
    {b : Binary} (hb : b.Canonical) (hpositive : 0 < b.mantissa)
    (tie : Tie) : (Interval.around b).Contains (shortest tie b).value := by
  obtain ⟨d, hd⟩ := Option.isSome_iff_exists.mp (around_isSome hb hpositive tie)
  unfold shortest
  dsimp only
  rw [hd, Decimal.value_strip]
  exact Interval.contains_of_firstFrom hd

end Binary

end Number
end LoxLang
