/-!
# Finite doubles as binary fractions

A finite double is `± mantissa * 2 ^ exponent`.  This decomposition gives the
whole part of a number exactly, and with it the remainder of a division, which
never needs rounding.
-/

namespace LoxLang
namespace Number

/-- A finite double: its sign, and its size as `mantissa * 2 ^ exponent`. -/
structure Binary where
  negative : Bool
  mantissa : Nat
  exponent : Int
deriving DecidableEq, Repr

namespace Binary

/-- The exponent of the smallest doubles. -/
def leastExponent : Int := -1074

/-- The parts of a finite double.  On infinities and NaN the result has no
meaning. -/
def ofFloat (x : Float) : Binary :=
  let bits := x.toBits.toNat
  let fraction : Nat := bits % Nat.pow 2 52
  let biased : Nat := bits / Nat.pow 2 52 % Nat.pow 2 11
  let negative := bits / Nat.pow 2 63 == 1
  if biased = 0 then ⟨negative, fraction, leastExponent⟩
  else ⟨negative, fraction + Nat.pow 2 52, (biased : Int) - 1075⟩

/-- The double with these parts, for a mantissa below `2 ^ 53` and an exponent
that a double has. -/
def toFloat (b : Binary) : Float :=
  let sign := if b.negative then Nat.pow 2 63 else 0
  if b.mantissa = 0 then Float.ofBits (UInt64.ofNat sign)
  else
    let shift := min (52 - b.mantissa.log2) (b.exponent - leastExponent).toNat
    let mantissa := b.mantissa * Nat.pow 2 shift
    let exponent := b.exponent - shift
    if mantissa < Nat.pow 2 52 then
      Float.ofBits (UInt64.ofNat (sign + mantissa))
    else
      let biased := (exponent + 1075).toNat
      Float.ofBits (UInt64.ofNat
        (sign + biased * Nat.pow 2 52 + (mantissa - Nat.pow 2 52)))

def isWhole (b : Binary) : Bool :=
  if 0 ≤ b.exponent then true
  else b.mantissa % Nat.pow 2 (-b.exponent).toNat == 0

/-- The whole part of the number's size. -/
def wholePart (b : Binary) : Nat :=
  if 0 ≤ b.exponent then b.mantissa * Nat.pow 2 b.exponent.toNat
  else b.mantissa / Nat.pow 2 (-b.exponent).toNat

/-- What is left of `a` after taking away the largest whole multiple of the size
of `b`, with the sign of `a`. -/
def remainder (a b : Binary) : Binary :=
  let exponent := min a.exponent b.exponent
  let dividend := a.mantissa * Nat.pow 2 (a.exponent - exponent).toNat
  let divisor := b.mantissa * Nat.pow 2 (b.exponent - exponent).toNat
  ⟨a.negative, dividend % divisor, exponent⟩

end Binary

/-- The double is finite and has no fractional part. -/
def isWhole (x : Float) : Bool :=
  x.isFinite && (Binary.ofFloat x).isWhole

def isNegative (x : Float) : Bool :=
  (Binary.ofFloat x).negative

/-- The remainder of the division of two doubles, with the sign of the dividend.
A division without a meaning has NaN for its remainder. -/
def remainder (a b : Float) : Float :=
  if a.isNaN || b.isNaN || a.isInf || b == 0 then 0 / 0
  else if b.isInf then a
  else (Binary.remainder (Binary.ofFloat a) (Binary.ofFloat b)).toFloat

/-- The remainder of a floored division: it is zero or has the sign of the
divisor. -/
def flooredRemainder (a b : Float) : Float :=
  let r := remainder a b
  if r != 0 && (r < 0) != (b < 0) then r + b else r

end Number
end LoxLang
