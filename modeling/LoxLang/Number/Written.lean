import LoxLang.Number.Shortest

/-!
# Decimals as text

A decimal is written in positional notation, or with one digit before the point
and an exponent.  `Style` says which of the two a format uses, and how a number
without a fraction looks.
-/

namespace LoxLang
namespace Number

def zeros (n : Nat) : String :=
  String.ofList (List.replicate n '0')

/-- Where the decimal point stands, counted from the front of the digits. -/
def Decimal.point (d : Decimal) : Int :=
  (digitCount d.digits : Int) + d.exponent

/-- The decimal in positional notation; `whole` follows a number without a
fraction. -/
def Decimal.positional (d : Decimal) (whole : String) : String :=
  let digits := Nat.repr d.digits
  if 0 ≤ d.exponent then digits ++ zeros d.exponent.toNat ++ whole
  else if 0 < d.point then
    String.ofList (digits.toList.take d.point.toNat) ++ "." ++
      String.ofList (digits.toList.drop d.point.toNat)
  else "0." ++ zeros (-d.point).toNat ++ digits

/-- The decimal with one digit before the point and a signed power of ten. -/
def Decimal.scientific (d : Decimal) : String :=
  let digits := (Nat.repr d.digits).toList
  let power := d.point - 1
  let fraction := digits.drop 1
  String.ofList (digits.take 1) ++
    (if fraction.isEmpty then "" else "." ++ String.ofList fraction) ++
    (if power < 0 then "e-" ++ Nat.repr power.natAbs
      else "e+" ++ Nat.repr power.natAbs)

def signText (x : Float) : String :=
  if isNegative x then "-" else ""

/-- The whole double `x` with all its digits. -/
def wholeText (x : Float) : String :=
  signText x ++ Nat.repr (Binary.ofFloat x).wholePart

/-- The finite double `x` with the fewest digits that round to it, never with an
exponent. -/
def shortestText (x : Float) : String :=
  if x == 0 then signText x ++ "0"
  else signText x ++ (shortest .up (Binary.ofFloat x)).positional ""

def unboundedText (x : Float) : String :=
  if x.isNaN then "NaN" else signText x ++ "inf"

/-- A number as the language prints it: a whole number with all its digits, any
other with the fewest digits that round to it. -/
def printed (x : Float) : String :=
  if !x.isFinite then unboundedText x
  else if isWhole x then wholeText x
  else shortestText x

/-- A number as a literal of a printed tree, where a whole number keeps one
decimal place. -/
def printedLiteral (x : Float) : String :=
  if !x.isFinite then unboundedText x
  else if isWhole x then wholeText x ++ ".0"
  else shortestText x

/-- A number as the payload of a printed token: like a literal below `2 ^ 63`,
and with the fewest digits from there on. -/
def printedPayload (x : Float) : String :=
  if !x.isFinite then unboundedText x
  else if isWhole x && (Binary.ofFloat x).wholePart < Nat.pow 2 63 then
    (if x == 0 then "0" else wholeText x) ++ ".0"
  else shortestText x

/-- A number in a data dump: positional with a fraction from `10 ^ -5` up to `10
^ 16`, with an exponent elsewhere.  A number that is not finite has no text. -/
def dumped? (x : Float) : Option String :=
  if !x.isFinite then none
  else if x == 0 then some (signText x ++ "0.0")
  else
    let d := shortest .toEven (Binary.ofFloat x)
    if -5 < d.point ∧ d.point ≤ 16 then some (signText x ++ d.positional ".0")
    else some (signText x ++ d.scientific)

end Number
end LoxLang
