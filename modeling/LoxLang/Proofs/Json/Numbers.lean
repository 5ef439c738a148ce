import LoxLang.Json.Reader
import LoxLang.Json.Written
import LoxLang.Proofs.Number.Arithmetic

/-!
# Numbers in data

A number in a data dump is read back as the same number, whatever stands behind
it.  A double is spelled with a point or with an exponent, so it is never taken
for a whole number.
-/

namespace LoxLang

open Number
  (Binary Holds Digits Decimal ofDecimal digitsValue isNegative signText)

namespace Number

theorem digitsValue_eq (digits : List Char) :
    digitsValue digits = Nat.ofDigitChars 10 digits 0 := by
  unfold digitsValue Nat.ofDigitChars
  simp only [Nat.mul_comm]

/-- The interval of a number other than zero lies above zero. -/
theorem Binary.pos_of_contains
    {b : Binary} {value : ℚ} (h : 0 < b.mantissa)
    (hcontains : (Interval.around b).Contains value) : 0 < value := by
  have hgap : b.gapBelow ≤ 2 := by
    unfold gapBelow
    split <;> omega
  have hlow : 0 < b.lowEnd := by
    unfold lowEnd
    have hsteps : 0 < 4 * b.mantissa - b.gapBelow := by omega
    positivity
  rw [contains_around_iff] at hcontains
  split at hcontains
  · exact lt_of_lt_of_le hlow hcontains.1
  · exact hlow.trans hcontains.1

end Number

namespace Json

/-! ## Numbers -/

/-- What may stand behind a number without being read as a part of it. -/
def Stops (rest : List Char) : Prop :=
  ∀ c ∈ rest.head?, c.isDigit = false ∧ c ≠ '.' ∧ c ≠ 'e' ∧ c ≠ 'E'

theorem splitDigits_append
    {digits rest : List Char} (h : Digits digits)
    (hrest : ∀ c ∈ rest.head?, c.isDigit = false) :
    splitDigits (digits ++ rest) = (digits, rest) := by
  unfold splitDigits
  rw [List.takeWhile_append_of_pos h, List.dropWhile_append_of_pos h]
  cases rest with
  | nil => simp
  | cons c rest =>
      have hc : ¬ c.isDigit = true := by
        rw [hrest c rfl]
        exact Bool.false_ne_true
      rw [List.takeWhile_cons_of_neg hc, List.dropWhile_cons_of_neg hc,
        List.append_nil]

theorem exponentPart_of_stops {rest : List Char} (h : Stops rest) :
    exponentPart rest = (none, rest) := by
  cases rest with
  | nil => rfl
  | cons c rest =>
      obtain ⟨-, -, hlower, hupper⟩ := h c rfl
      unfold exponentPart
      exact if_neg (not_or.mpr ⟨hlower, hupper⟩)

theorem exponentPart_minus
    {digits rest : List Char} (h : Digits digits) (hrest : Stops rest) :
    exponentPart ('e' :: '-' :: (digits ++ rest)) =
      (some (-(digitsValue digits : Int)), rest) := by
  have hsplit := splitDigits_append h fun c hc => (hrest c hc).1
  change (some (-(digitsValue (splitDigits (digits ++ rest)).1 : Int)),
    (splitDigits (digits ++ rest)).2) = _
  rw [hsplit]

theorem exponentPart_plus
    {digits rest : List Char} (h : Digits digits) (hrest : Stops rest) :
    exponentPart ('e' :: '+' :: (digits ++ rest)) =
      (some (digitsValue digits : Int), rest) := by
  have hsplit := splitDigits_append h fun c hc => (hrest c hc).1
  change (some (digitsValue (splitDigits (digits ++ rest)).1 : Int),
    (splitDigits (digits ++ rest)).2) = _
  rw [hsplit]

theorem fractionPart_of_ne {rest : List Char} (h : ∀ c ∈ rest.head?, c ≠ '.') :
    fractionPart rest = (none, rest) := by
  unfold fractionPart
  split
  · exact absurd rfl (h '.' rfl)
  · rfl

private theorem fractionPart_point
    {digits rest : List Char} (h : Digits digits)
    (hrest : ∀ c ∈ rest.head?, c.isDigit = false) :
    fractionPart ('.' :: (digits ++ rest)) = (some digits, rest) := by
  change (some (splitDigits (digits ++ rest)).1,
    (splitDigits (digits ++ rest)).2) = _
  rw [splitDigits_append h hrest]

/-- The double with the sign in front of it. -/
def signed (negative : Bool) (x : Float) : Float :=
  if negative then -x else x

section
variable {whole fraction tail rest : List Char} (hwhole : Digits whole)
  (hne : whole ≠ []) (negative : Bool)
include hwhole hne

theorem number?_whole (hrest : Stops rest) :
    number? negative (whole ++ rest) =
      some (if negative then
          if digitsValue whole = 0 then .real (-0.0)
          else .int (-(digitsValue whole : Int))
        else .int (digitsValue whole), rest) := by
  have hempty : ¬ whole.isEmpty = true := by simpa using hne
  unfold number?
  rw [splitDigits_append hwhole fun c hc => (hrest c hc).1]
  dsimp only
  rw [if_neg hempty, fractionPart_of_ne fun c hc => (hrest c hc).2.1]
  dsimp only
  rw [exponentPart_of_stops hrest]
  cases negative <;> rfl

theorem number?_fraction
    {exponent : Option Int} (hfraction : Digits fraction)
    (htail : ∀ c ∈ tail.head?, c.isDigit = false)
    (hexponent : exponentPart tail = (exponent, rest)) :
    number? negative (whole ++ '.' :: (fraction ++ tail)) =
      some (.real (signed negative (ofDecimal (digitsValue (whole ++ fraction))
        (exponent.getD 0 - fraction.length))), rest) := by
  have hpoint : ∀ c ∈ ('.' :: (fraction ++ tail)).head?, c.isDigit = false := by
    rintro c ⟨rfl⟩
    rfl
  have hempty : ¬ whole.isEmpty = true := by simpa using hne
  unfold number?
  rw [splitDigits_append hwhole hpoint]
  dsimp only
  rw [if_neg hempty, fractionPart_point hfraction htail]
  dsimp only
  rw [hexponent]
  rfl

theorem number?_exponent
    {exponent : Int} (htail : ∀ c ∈ tail.head?, c.isDigit = false ∧ c ≠ '.')
    (hexponent : exponentPart tail = (some exponent, rest)) :
    number? negative (whole ++ tail) =
      some (.real (signed negative (ofDecimal (digitsValue whole) exponent)),
        rest) := by
  have hempty : ¬ whole.isEmpty = true := by simpa using hne
  unfold number?
  rw [splitDigits_append hwhole fun c hc => (htail c hc).1]
  dsimp only
  rw [if_neg hempty, fractionPart_of_ne fun c hc => (htail c hc).2]
  dsimp only
  rw [hexponent]
  simp [signed]

end

/-- The text is read as a decimal of this value, whatever stands behind it. -/
structure Spells (text : List Char) (value : ℚ) : Prop where
  first : ∃ c, text.head? = some c ∧ c.isDigit = true
  read : ∃ n e, Decimal.value ⟨n, e⟩ = value ∧
    ∀ negative rest, Stops rest →
      number? negative (text ++ rest) =
        some (.real (signed negative (ofDecimal n e)), rest)

private theorem spells_fraction
    {whole fraction : List Char} {value : ℚ} (hwhole : Digits whole)
    (hfraction : Digits fraction) (hne : whole ≠ [])
    (h : Number.textValue (whole ++ '.' :: fraction) = value) :
    Spells (whole ++ '.' :: fraction) value := by
  have hnumeral := Number.numeral_of_point hwhole hfraction hne
  refine ⟨hnumeral.first, digitsValue (whole ++ fraction), -fraction.length, ?_,
    ?_⟩
  · rw [← h, hnumeral.value, Decimal.value, zpow_neg, zpow_natCast,
      Number.digitsValue_eq]
    rfl
  · intro negative rest hrest
    have hread := number?_fraction hwhole hne negative hfraction
      (fun c hc => (hrest c hc).1) (exponentPart_of_stops hrest)
    rw [List.append_assoc, List.cons_append, hread, Option.getD_none,
      Int.zero_sub]

private theorem textValue_zero_fraction
    {whole : List Char} (h : Digits whole) (hne : whole ≠ []) :
    Number.textValue (whole ++ ['.', '0']) = Number.textValue whole := by
  have hpoint := (Number.numeral_of_point h (Number.digits_zeros 1) hne).value
  rw [Nat.ofDigitChars_append, Nat.ofDigitChars_replicate_zero,
    List.length_replicate, List.replicate_one] at hpoint
  rw [hpoint, (Number.numeral_of_digits h hne).value]
  push_cast
  field_simp

theorem spells_positional (d : Decimal) :
    Spells (d.positional ".0").toList d.value := by
  have hdigits := Number.digits_repr d.digits
  unfold Decimal.positional
  dsimp only
  split
  · rename_i hexponent
    have hwhole := hdigits.append (Number.digits_zeros d.exponent.toNat)
    have hne : Nat.toDigits 10 d.digits ++
        List.replicate d.exponent.toNat '0' ≠ [] :=
      List.append_ne_nil_of_left_ne_nil Nat.toDigits_ne_nil _
    have hvalue := (textValue_zero_fraction hwhole hne).trans
      (Number.numeral_of_no_point hexponent).value
    simpa [Number.zeros] using
      spells_fraction hwhole (Number.digits_zeros 1) hne hvalue
  · rename_i hexponent
    have hneg : d.exponent < 0 := by omega
    split
    · rename_i hpoint
      have hvalue := (Number.numeral_of_inner_point hneg hpoint).value
      have hne : (Nat.toDigits 10 d.digits).take d.point.toNat ≠ [] := by
        rw [ne_eq, List.take_eq_nil_iff, not_or]
        exact ⟨by omega, Nat.toDigits_ne_nil⟩
      simpa using spells_fraction
        (fun c hc => hdigits c (List.mem_of_mem_take hc))
        (fun c hc => hdigits c (List.mem_of_mem_drop hc)) hne hvalue
    · rename_i hpoint
      have hvalue := (Number.numeral_of_leading_point hneg (by omega)).value
      simpa [Number.zeros] using spells_fraction (Number.digits_zeros 1)
        ((Number.digits_zeros (-d.point).toNat).append hdigits) (by simp) hvalue

/-- A power of ten as it stands behind the digits. -/
def powerText (power : Int) : List Char :=
  (if power < 0 then "e-" ++ Nat.repr power.natAbs
    else "e+" ++ Nat.repr power.natAbs).toList

private theorem exponentPart_powerText
    {rest : List Char} (power : Int) (h : Stops rest) :
    exponentPart (powerText power ++ rest) = (some power, rest) := by
  have hdigits := Number.digits_repr power.natAbs
  have hvalue : digitsValue (Nat.toDigits 10 power.natAbs) = power.natAbs := by
    rw [Number.digitsValue_eq, Nat.ofDigitChars_ten_toDigits]
  unfold powerText
  split
  · rename_i hneg
    have hread := exponentPart_minus hdigits h
    have hpower : -(power.natAbs : Int) = power := by omega
    rw [hvalue, hpower] at hread
    simpa using hread
  · rename_i hnonneg
    have hread := exponentPart_plus hdigits h
    have hpower : (power.natAbs : Int) = power := by omega
    rw [hvalue, hpower] at hread
    simpa using hread

private theorem head?_powerText (power : Int) (rest : List Char) :
    (powerText power ++ rest).head? = some 'e' := by
  unfold powerText
  split <;> simp

private theorem scientific_toList
    {d : Decimal} {first : Char} {others : List Char}
    (h : Nat.toDigits 10 d.digits = first :: others) :
    d.scientific.toList = [first] ++
      ((if others.isEmpty then [] else '.' :: others) ++
        powerText (d.point - 1)) := by
  have hrepr : (Nat.repr d.digits).toList = first :: others := by
    rw [← h]
    simp
  unfold Decimal.scientific powerText
  dsimp only
  rw [hrepr, List.drop_one, List.tail_cons, List.take_succ_cons, List.take_zero,
    String.toList_append, String.toList_append, List.append_assoc]
  cases others with
  | nil => simp
  | cons c others => simp

theorem spells_scientific (d : Decimal) :
    Spells d.scientific.toList d.value := by
  have hdigits := Number.digits_repr d.digits
  have hvalue : digitsValue (Nat.toDigits 10 d.digits) = d.digits := by
    rw [Number.digitsValue_eq, Nat.ofDigitChars_ten_toDigits]
  have hpoint := d.point_eq
  obtain ⟨first, others, hsplit⟩ := List.exists_cons_of_ne_nil
    (Nat.toDigits_ne_nil : Nat.toDigits 10 d.digits ≠ [])
  rw [hsplit] at hdigits hvalue hpoint
  rw [List.length_cons] at hpoint
  have hfirst : Digits [first] :=
    fun c hc => hdigits c (List.mem_cons.mpr (.inl (List.mem_singleton.mp hc)))
  have hothers : Digits others :=
    fun c hc => hdigits c (List.mem_cons_of_mem _ hc)
  rw [scientific_toList hsplit]
  refine ⟨⟨first, rfl, hdigits first List.mem_cons_self⟩, d.digits, d.exponent,
    rfl, ?_⟩
  intro negative rest hrest
  have hpower := exponentPart_powerText (d.point - 1) hrest
  have htail : ∀ c ∈ (powerText (d.point - 1) ++ rest).head?,
      c.isDigit = false ∧ c ≠ '.' := by
    rw [head?_powerText]
    rintro c ⟨rfl⟩
    decide
  cases others with
  | nil =>
      have hexponent : d.point - 1 = d.exponent := by
        rw [hpoint, List.length_nil]
        omega
      have hread := number?_exponent hfirst (by simp) negative htail hpower
      rw [hvalue, hexponent] at hread
      simpa [hexponent] using hread
  | cons c others =>
      have hexponent : d.point - 1 - ((c :: others).length : Int) =
          d.exponent := by
        omega
      have hread := number?_fraction hfirst (by simp) negative hothers
        (fun c hc => (htail c hc).1) hpower
      have hall : digitsValue ([first] ++ c :: others) = d.digits := hvalue
      rw [hall, Option.getD_some, hexponent] at hread
      simpa using hread

/-- The text is read as this number behind a sign. -/
structure Reads (text : List Char) (negative : Bool) (j : Json) : Prop where
  first : ∃ c, text.head? = some c ∧ c.isDigit = true
  read : ∀ rest, Stops rest → number? negative (text ++ rest) = some (j, rest)

section
variable {x : Float} (hfinite : x.isFinite = true)
include hfinite

private theorem reads_zero (h : (x == 0) = true) :
    Reads ['0', '.', '0'] (isNegative x) (.real x) := by
  have hzero : ofDecimal (digitsValue ['0', '0']) (-1) = 0 := by decide +kernel
  have hx : Holds x (isNegative x) 0 := by
    refine ⟨hfinite, rfl, ?_⟩
    rw [Binary.size, Binary.mantissa_eq_zero h, Nat.cast_zero, zero_mul]
  have hsigned : signed (isNegative x) 0 = x := by
    have hplus : Holds 0 false (0 : Nat) :=
      Number.holds_ofNat (Nat.zero_le (2 ^ 53))
    rw [Nat.cast_zero] at hplus
    cases hsign : isNegative x with
    | false =>
        rw [hsign] at hx
        exact hplus.eq hx
    | true =>
        rw [hsign] at hx
        exact hplus.neg.eq hx
  refine ⟨⟨'0', rfl, rfl⟩, ?_⟩
  intro rest hrest
  have hread := number?_fraction (Number.digits_zeros 1) (by simp)
    (isNegative x) (Number.digits_zeros 1) (fun c hc => (hrest c hc).1)
    (exponentPart_of_stops hrest)
  change number? _ ('0' :: '.' :: '0' :: rest) = some (.real (signed _
    (ofDecimal (digitsValue ['0', '0']) (-1))), rest) at hread
  rw [hzero, hsigned] at hread
  exact hread

theorem Spells.reads {text : List Char} {value : ℚ} (h : Spells text value)
    (hpos : 0 < value)
    (hcontains : (Number.Interval.around (Binary.ofFloat x)).Contains value) :
    Reads text (isNegative x) (.real x) := by
  obtain ⟨hfirst, n, e, hvalue, hread⟩ := h
  have hn : 0 < n := by
    apply Nat.pos_of_ne_zero
    rintro rfl
    rw [Decimal.value, Nat.cast_zero, zero_mul] at hvalue
    exact hpos.ne hvalue
  rw [← hvalue] at hcontains
  refine ⟨hfirst, fun rest hrest => ?_⟩
  rw [hread _ rest hrest]
  have hsame : signed (isNegative x) (ofDecimal n e) = x :=
    Number.signed_ofDecimal_eq hn hfinite hcontains
  rw [hsame]

/-- Behind its sign, a finite double is read back from its text. -/
theorem exists_reads :
    ∃ text, realChars x = (signText x).toList ++ text ∧
      Reads text (isNegative x) (.real x) := by
  unfold realChars Number.dumped?
  rw [hfinite, if_neg (by decide)]
  by_cases hzero : (x == 0) = true
  · rw [if_pos hzero]
    refine ⟨_, ?_, reads_zero hfinite hzero⟩
    simp
  · rw [if_neg hzero]
    have hx : Holds x (isNegative x) (Binary.ofFloat x).size :=
      ⟨hfinite, rfl, rfl⟩
    have hmantissa : 0 < (Binary.ofFloat x).mantissa := by
      apply Nat.pos_of_ne_zero
      intro hnone
      apply hzero
      rw [hx.beq_zero_iff, Binary.size, hnone, Nat.cast_zero, zero_mul]
    have hcontains := Binary.contains_shortest (Binary.ofFloat_canonical x)
      hmantissa .toEven
    have hpos := Binary.pos_of_contains hmantissa hcontains
    dsimp only
    split
    · refine ⟨_, ?_, (spells_positional _).reads hfinite hpos hcontains⟩
      simp
    · refine ⟨_, ?_, (spells_scientific _).reads hfinite hpos hcontains⟩
      simp

end

end Json
end LoxLang
