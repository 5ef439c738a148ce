/-!
# Decimal digits as numbers
-/

namespace LoxLang
namespace Number

def digitsValue (digits : List Char) : Nat :=
  digits.foldl (fun n c => n * 10 + (c.toNat - '0'.toNat)) 0

/-- The double nearest to `digits * 10 ^ exponent`, a tie going to the even
mantissa. -/
def ofDecimal (digits : Nat) (exponent : Int) : Float :=
  if exponent < 0 then Float.ofScientific digits true exponent.natAbs
  else Float.ofScientific digits false exponent.natAbs

/-- The double nearest to the number with these digits before and after the
point. -/
def ofDigits (whole fraction : List Char) : Float :=
  ofDecimal (digitsValue (whole ++ fraction)) (-(fraction.length : Int))

end Number
end LoxLang
