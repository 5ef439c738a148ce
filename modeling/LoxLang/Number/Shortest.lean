import LoxLang.Number.Binary

/-!
# The shortest decimal of a double

Every finite double is the nearest double to a whole interval of real numbers.
`shortest` picks the decimal with the fewest digits in that interval, and of
those the one nearest to the double.  All comparisons are exact: the ends of the
interval are fractions over a common denominator.
-/

namespace LoxLang
namespace Number

structure Decimal where
  digits : Nat
  exponent : Int
deriving DecidableEq, Repr

/-- Where a number goes that lies halfway between two decimals. -/
inductive Tie where
  | up
  | toEven
deriving DecidableEq, Repr

/-- The real numbers from `low / unit` to `high / unit` around `value / unit`;
`closed` tells whether the ends belong to them. -/
structure Interval where
  low : Nat
  value : Nat
  high : Nat
  unit : Nat
  closed : Bool
deriving DecidableEq, Repr

namespace Interval

/-- The reals that round to `mantissa * 2 ^ exponent`.  The next smaller double
is only half as far away when the mantissa is the least of its binade. -/
def around (b : Binary) : Interval :=
  let below :=
    if b.mantissa = Nat.pow 2 52 ∧ Binary.leastExponent < b.exponent then 1
    else 2
  let scale := Nat.pow 2 (b.exponent - 2).toNat
  { low := (4 * b.mantissa - below) * scale
    value := 4 * b.mantissa * scale
    high := (4 * b.mantissa + 2) * scale
    unit := Nat.pow 2 (2 - b.exponent).toNat
    closed := b.mantissa % 2 == 0 }

/-- The interval as seen in multiples of `10 ^ place`. -/
def atPlace (i : Interval) (place : Int) : Interval :=
  let up := Nat.pow 10 (-place).toNat
  let down := Nat.pow 10 place.toNat
  { i with
    low := i.low * up, value := i.value * up, high := i.high * up,
    unit := i.unit * down }

/-- The whole number `n` lies in the interval. -/
def holds (i : Interval) (n : Nat) : Bool :=
  if i.closed then i.low ≤ n * i.unit && n * i.unit ≤ i.high
  else i.low < n * i.unit && n * i.unit < i.high

/-- The whole number in the interval that is nearest to its value, if there is
one among the two neighbours of the value. -/
def nearest? (i : Interval) (tie : Tie) : Option Nat :=
  let below := i.value / i.unit
  let above := below + 1
  match i.holds below, i.holds above with
  | false, false => none
  | true, false => some below
  | false, true => some above
  | true, true =>
      let left := i.value - below * i.unit
      let right := above * i.unit - i.value
      if left < right then some below
      else if right < left then some above
      else match tie with
        | .up => some above
        | .toEven => some (if below % 2 = 0 then below else above)

end Interval

def digitCount (n : Nat) : Nat :=
  (Nat.toDigits 10 n).length

/-- A place at or above the first digit of the interval's value. -/
def Interval.topPlace (i : Interval) : Int :=
  if i.unit ≤ i.value then (digitCount (i.value / i.unit) : Int)
  else 1 - (digitCount (i.unit / i.value) : Int)

/-- The first decimal in the interval on the grids `10 ^ place`, `10 ^ (place -
1)`, and so on; `count` bounds the number of grids. -/
def Interval.firstFrom (i : Interval) (tie : Tie) : Nat → Int → Option Decimal
  | 0, _ => none
  | count + 1, place =>
      match (i.atPlace place).nearest? tie with
      | some n => some ⟨n, place⟩
      | none => i.firstFrom tie count (place - 1)

/-- The decimal without zeros at the end of its digits; `count` bounds their
number. -/
def Decimal.strip : Nat → Decimal → Decimal
  | 0, d => d
  | count + 1, d =>
      if d.digits ≠ 0 ∧ d.digits % 10 = 0 then
        strip count ⟨d.digits / 10, d.exponent + 1⟩
      else d

/-- The shortest decimal that rounds to the double with parts `b`, which is not
zero. -/
def shortest (tie : Tie) (b : Binary) : Decimal :=
  let i := Interval.around b
  match i.firstFrom tie 24 i.topPlace with
  | some d => d.strip 24
  | none => ⟨b.mantissa, b.exponent⟩

end Number
end LoxLang
