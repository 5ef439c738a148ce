import Mathlib
import LoxLang.Number.Written
import LoxLang.Proofs.Number.Nearest

/-!
# The texts of numbers

A finite double is written with digits and a point, and the number that it
writes lies in the interval of the double.  So two finite doubles with the same
text are the same.
-/

namespace LoxLang
namespace Number

open Float.Model (UnpackedFloat)

/-! ## The bits of a double -/

section
variable (bits : UInt64)

theorem unpackMantissa_toNat :
    (@UnpackedFloat.unpackMantissa .binary64 bits.toBitVec).toNat =
      bits.toNat % 2 ^ 52 := by
  simp [UnpackedFloat.unpackMantissa]

theorem unpackExponent_toNat :
    (@UnpackedFloat.unpackExponent .binary64 bits.toBitVec).toNat =
      bits.toNat / 2 ^ 52 % 2 ^ 11 := by
  simp [UnpackedFloat.unpackExponent, Nat.shiftRight_eq_div_pow]

end

namespace Binary

theorem ofFloat_canonical (x : Float) : (ofFloat x).Canonical := by
  unfold ofFloat
  dsimp only [Nat.pow_eq]
  split
  · refine ⟨le_rfl, ?_, fun hless => absurd hless (lt_irrefl _)⟩
    dsimp only
    omega
  · refine ⟨?_, ?_, fun _ => Nat.le_add_left _ _⟩
    · dsimp only [leastExponent]
      omega
    · dsimp only
      omega

theorem eq_of_parts
    {a b : Binary} (hnegative : a.negative = b.negative)
    (hmantissa : a.mantissa = b.mantissa)
    (hexponent : a.exponent = b.exponent) : a = b := by
  cases a
  cases b
  cases hnegative
  cases hmantissa
  cases hexponent
  rfl

/-- The parts of a double are all that there is to it. -/
theorem ofFloat_inj {x y : Float} (h : ofFloat x = ofFloat y) : x = y := by
  have hx := x.toBits.toNat_lt
  have hy := y.toBits.toNat_lt
  have hbits : x.toBits = y.toBits := by
    apply UInt64.toNat_inj.mp
    unfold ofFloat at h
    dsimp only [Nat.pow_eq] at h
    -- An exponent that is not the least one goes with a full mantissa, so the
    -- mixed cases are impossible.
    split at h <;> split at h <;>
      simp only [mk.injEq, leastExponent] at h <;>
      rw [Bool.eq_iff_iff, beq_iff_eq, beq_iff_eq] at h <;>
      omega
  exact Float.toBits_inj.mp hbits

private theorem mantissa_eq_zero_of_unpack
    {x : Float} {sign : UnpackedFloat.Sign}
    (h : x.toModel.unpack = .zero sign) : (ofFloat x).mantissa = 0 := by
  have hfraction := unpackMantissa_toNat x.toBits
  have hbiased := unpackExponent_toNat x.toBits
  change UnpackedFloat.unpack .binary64 x.toBits.toBitVec = _ at h
  unfold UnpackedFloat.unpack at h
  dsimp only at h
  split at h
  · split at h <;> cases h
  · split at h
    · rename_i hexponent
      split at h
      · rename_i hmantissa
        rw [hmantissa] at hfraction
        rw [hexponent] at hbiased
        unfold ofFloat
        dsimp only [Nat.pow_eq]
        have hleast : x.toBits.toNat / 2 ^ 52 % 2 ^ 11 = 0 := hbiased.symm
        rw [if_pos hleast]
        exact hfraction.symm
      · cases h
    · cases h

theorem mantissa_eq_zero {x : Float} (h : (x == 0) = true) :
    (ofFloat x).mantissa = 0 := by
  have hbeq : x.toModel.unpack.beq (.zero .positive) = true := h
  cases hunpack : x.toModel.unpack with
  | zero sign => exact mantissa_eq_zero_of_unpack hunpack
  | notANumber =>
      rw [hunpack] at hbeq
      cases hbeq
  | infinity sign =>
      rw [hunpack] at hbeq
      cases sign <;> cases hbeq
  | finite sign mantissa exponent hpositive =>
      rw [hunpack] at hbeq
      cases sign <;> cases hbeq

end Binary

/-! ## What a text writes -/

def notPoint (c : Char) : Bool :=
  c != '.'

/-- The number that digits with a point between them write. -/
def textValue (text : List Char) : ℚ :=
  Nat.ofDigitChars 10 (text.filter notPoint) 0 /
    10 ^ ((text.dropWhile notPoint).drop 1).length

/-- The text starts with a digit, has nothing but digits and points in it, and
writes the number. -/
structure Numeral (text : List Char) (value : ℚ) : Prop where
  first : ∃ c, text.head? = some c ∧ c.isDigit = true
  all : ∀ c ∈ text, c.isDigit = true ∨ c = '.'
  value : textValue text = value

def Digits (text : List Char) : Prop :=
  ∀ c ∈ text, c.isDigit = true

theorem Digits.append {a b : List Char} (ha : Digits a) (hb : Digits b) :
    Digits (a ++ b) :=
  List.forall_mem_append.mpr ⟨ha, hb⟩

theorem digits_repr (n : Nat) : Digits (Nat.toDigits 10 n) :=
  fun _ hc => Nat.isDigit_of_mem_toDigits (by decide) (by decide) hc

theorem digits_zeros (n : Nat) : Digits (List.replicate n '0') := by
  intro c hc
  rw [List.eq_of_mem_replicate hc]
  decide

theorem Digits.notPoint {text : List Char} (h : Digits text) :
    ∀ c ∈ text, notPoint c = true := by
  intro c hc
  apply bne_iff_ne.mpr
  rintro rfl
  exact absurd (h '.' hc) (by decide)

theorem Digits.first {text : List Char} (h : Digits text) (hne : text ≠ []) :
    ∃ c, text.head? = some c ∧ c.isDigit = true :=
  ⟨text.head hne, List.head?_eq_some_head hne, h _ (List.head_mem hne)⟩

theorem numeral_of_digits
    {text : List Char} (h : Digits text) (hne : text ≠ []) :
    Numeral text (Nat.ofDigitChars 10 text 0) := by
  refine ⟨h.first hne, fun c hc => .inl (h c hc), ?_⟩
  rw [textValue, List.filter_eq_self.mpr h.notPoint,
    List.dropWhile_eq_nil_iff.mpr h.notPoint]
  simp

theorem numeral_of_point
    {whole fraction : List Char} (hwhole : Digits whole)
    (hfraction : Digits fraction) (hne : whole ≠ []) :
    Numeral (whole ++ '.' :: fraction)
      (Nat.ofDigitChars 10 (whole ++ fraction) 0 / 10 ^ fraction.length) := by
  obtain ⟨c, hfirst, hdigit⟩ := hwhole.first hne
  refine ⟨⟨c, ?_, hdigit⟩, ?_, ?_⟩
  · rw [List.head?_append, hfirst, Option.some_or]
  · intro d hd
    rw [List.mem_append, List.mem_cons] at hd
    rcases hd with hd | hd | hd
    · exact .inl (hwhole d hd)
    · exact .inr hd
    · exact .inl (hfraction d hd)
  · have hpoint : ¬ notPoint '.' = true := by decide
    rw [textValue, List.filter_append, List.filter_eq_self.mpr hwhole.notPoint,
      List.filter_cons_of_neg hpoint,
      List.filter_eq_self.mpr hfraction.notPoint,
      List.dropWhile_append_of_pos hwhole.notPoint,
      List.dropWhile_cons_of_neg hpoint]
    rfl

theorem Decimal.value_of_neg {d : Decimal} (h : d.exponent < 0) :
    d.value = d.digits / 10 ^ (-d.exponent).toNat := by
  have hpower := pow_toNat_mul (by norm_num : (10 : ℚ) ≠ 0) d.exponent
  have hzero : d.exponent.toNat = 0 := by omega
  rw [hzero, pow_zero] at hpower
  rw [value, eq_div_iff (by positivity), mul_assoc,
    mul_comm (10 ^ d.exponent), hpower, mul_one]

theorem Decimal.value_of_nonneg {d : Decimal} (h : 0 ≤ d.exponent) :
    d.value = (10 ^ d.exponent.toNat * d.digits : Nat) := by
  rw [value]
  push_cast
  rw [← zpow_natCast, Int.toNat_of_nonneg h, mul_comm]

theorem Decimal.point_eq (d : Decimal) :
    d.point = ((Nat.toDigits 10 d.digits).length : Int) + d.exponent :=
  rfl

section
variable {d : Decimal}

theorem numeral_of_no_point (h : 0 ≤ d.exponent) :
    Numeral (Nat.toDigits 10 d.digits ++
      List.replicate d.exponent.toNat '0') d.value := by
  have htext := numeral_of_digits
    ((digits_repr d.digits).append (digits_zeros d.exponent.toNat))
    (List.append_ne_nil_of_left_ne_nil Nat.toDigits_ne_nil _)
  rw [Nat.ofDigitChars_append, Nat.ofDigitChars_ten_toDigits,
    Nat.ofDigitChars_replicate_zero] at htext
  rw [Decimal.value_of_nonneg h]
  exact htext

/-- The point stands among the digits. -/
theorem numeral_of_inner_point (h : d.exponent < 0) (hpoint : 0 < d.point) :
    Numeral ((Nat.toDigits 10 d.digits).take d.point.toNat ++
      '.' :: (Nat.toDigits 10 d.digits).drop d.point.toNat) d.value := by
  have hdigits := digits_repr d.digits
  have hwhole : Digits ((Nat.toDigits 10 d.digits).take d.point.toNat) :=
    fun c hc => hdigits c (List.mem_of_mem_take hc)
  have hfraction : Digits ((Nat.toDigits 10 d.digits).drop d.point.toNat) :=
    fun c hc => hdigits c (List.mem_of_mem_drop hc)
  have hfirst : (Nat.toDigits 10 d.digits).take d.point.toNat ≠ [] := by
    rw [ne_eq, List.take_eq_nil_iff, not_or]
    exact ⟨by omega, Nat.toDigits_ne_nil⟩
  have hlength : (Nat.toDigits 10 d.digits).length - d.point.toNat =
      (-d.exponent).toNat := by
    have hplace := d.point_eq
    omega
  have htext := numeral_of_point hwhole hfraction hfirst
  rw [List.take_append_drop, Nat.ofDigitChars_ten_toDigits, List.length_drop,
    hlength] at htext
  rw [Decimal.value_of_neg h]
  exact htext

/-- All digits stand behind the point. -/
theorem numeral_of_leading_point (h : d.exponent < 0) (hpoint : d.point ≤ 0) :
    Numeral (['0'] ++ '.' :: (List.replicate (-d.point).toNat '0' ++
      Nat.toDigits 10 d.digits)) d.value := by
  have hfraction :=
    (digits_zeros (-d.point).toNat).append (digits_repr d.digits)
  have hlength :
      (-d.point).toNat + (Nat.toDigits 10 d.digits).length =
        (-d.exponent).toNat := by
    have hplace := d.point_eq
    omega
  have hdigits : Nat.ofDigitChars 10
      (['0'] ++ (List.replicate (-d.point).toNat '0' ++
        Nat.toDigits 10 d.digits)) 0 = d.digits := by
    rw [Nat.ofDigitChars_append, Nat.ofDigitChars_append,
      Nat.ofDigitChars_replicate_zero]
    simp [Nat.ofDigitChars_cons]
  have htext := numeral_of_point (digits_zeros 1) hfraction (by simp)
  rw [List.replicate_one, hdigits, List.length_append, List.length_replicate,
    hlength] at htext
  rw [Decimal.value_of_neg h]
  exact htext

end

private theorem numeral_positional (d : Decimal) :
    Numeral (d.positional "").toList d.value := by
  unfold Decimal.positional
  dsimp only
  split
  · rename_i hexponent
    simpa [zeros] using numeral_of_no_point hexponent
  · rename_i hexponent
    have hneg : d.exponent < 0 := by omega
    split
    · rename_i hpoint
      simpa using numeral_of_inner_point hneg hpoint
    · rename_i hpoint
      simpa [zeros] using numeral_of_leading_point hneg (by omega)

/-! ## The text of a literal -/

private theorem isWhole_of_mantissa
    {x : Float} (hfinite : x.isFinite = true)
    (h : (Binary.ofFloat x).mantissa = 0) : isWhole x = true := by
  unfold isWhole Binary.isWhole
  rw [hfinite, h]
  simp

/-- Behind its sign, the text of a finite double writes a number in the
interval of the double. -/
theorem exists_numeral {x : Float} (hfinite : x.isFinite = true) :
    ∃ text value,
      (printedLiteral x).toList = (signText x).toList ++ text ∧
      Numeral text value ∧
      (Interval.around (Binary.ofFloat x)).Contains value := by
  unfold printedLiteral
  rw [hfinite]
  rw [if_neg (by decide)]
  by_cases hwhole : isWhole x = true
  · rw [if_pos hwhole]
    have htext := numeral_of_point
      (digits_repr (Binary.ofFloat x).wholePart) (digits_zeros 1)
      Nat.toDigits_ne_nil
    have hvalue : ((Nat.ofDigitChars 10
        (Nat.toDigits 10 (Binary.ofFloat x).wholePart ++
          List.replicate 1 '0') 0 : Nat) : ℚ) /
            10 ^ (List.replicate 1 '0').length =
          (Binary.ofFloat x).size := by
      unfold isWhole at hwhole
      rw [Bool.and_eq_true] at hwhole
      rw [Nat.ofDigitChars_append, Nat.ofDigitChars_ten_toDigits,
        Nat.ofDigitChars_replicate_zero, List.length_replicate,
        ← Binary.wholePart_eq_size hwhole.2]
      push_cast
      field_simp
    rw [hvalue] at htext
    refine ⟨_, _, ?_, htext, Binary.contains_size _⟩
    simp [wholeText]
  · rw [if_neg hwhole]
    have hmantissa : (Binary.ofFloat x).mantissa ≠ 0 :=
      fun hzero => hwhole (isWhole_of_mantissa hfinite hzero)
    have hnonzero : ¬ (x == 0) = true :=
      fun hzero => hmantissa (Binary.mantissa_eq_zero hzero)
    refine ⟨_, _, ?_, numeral_positional _,
      Binary.contains_shortest (Binary.ofFloat_canonical x)
        (Nat.pos_of_ne_zero hmantissa) .up⟩
    rw [shortestText, if_neg hnonzero, String.toList_append]

private theorem signText_eq_of_append
    {x y : Float} {a b : List Char} {v w : ℚ} (ha : Numeral a v)
    (hb : Numeral b w)
    (h : (signText x).toList ++ a = (signText y).toList ++ b) :
    isNegative x = isNegative y ∧ a = b := by
  obtain ⟨c, hc, hcdigit⟩ := ha.first
  obtain ⟨d, hd, hddigit⟩ := hb.first
  have hminus : Char.isDigit '-' = false := by decide
  unfold signText at h
  cases hx : isNegative x <;> cases hy : isNegative y <;> rw [hx, hy] at h
  · exact ⟨rfl, h⟩
  · have hhead : a = '-' :: b := h
    rw [hhead, List.head?_cons, Option.some.injEq] at hc
    rw [← hc, hminus] at hcdigit
    cases hcdigit
  · have hhead : '-' :: a = b := h
    rw [← hhead, List.head?_cons, Option.some.injEq] at hd
    rw [← hd, hminus] at hddigit
    cases hddigit
  · exact ⟨rfl, List.tail_eq_of_cons_eq h⟩

/-- Different finite doubles have different texts. -/
theorem printedLiteral_inj
    {x y : Float} (hx : x.isFinite = true) (hy : y.isFinite = true)
    (h : printedLiteral x = printedLiteral y) : x = y := by
  obtain ⟨a, v, htext, hnumeral, hcontains⟩ := exists_numeral hx
  obtain ⟨b, w, htext', hnumeral', hcontains'⟩ := exists_numeral hy
  rw [h, htext'] at htext
  obtain ⟨hsign, rfl⟩ := signText_eq_of_append hnumeral' hnumeral htext
  have hvalue : v = w := hnumeral.value.symm.trans hnumeral'.value
  subst hvalue
  obtain ⟨hmantissa, hexponent⟩ := Binary.eq_of_contains
    (Binary.ofFloat_canonical x) (Binary.ofFloat_canonical y) hcontains
    hcontains'
  exact Binary.ofFloat_inj
    (Binary.eq_of_parts hsign.symm hmantissa hexponent)

end Number
end LoxLang
