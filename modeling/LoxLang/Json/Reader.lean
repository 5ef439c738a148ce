import LoxLang.Json.Basic
import LoxLang.Number.Read

/-!
# Reading JSON

`Json.parse?` reads one value with blanks around it.  A number with a point or
an exponent is a double, and so is `-0`; every other number is whole.  The
reader calls itself at most twice for a character, so twice the length of the
text bounds its depth.
-/

namespace LoxLang
namespace Json

def isSpace (c : Char) : Bool :=
  c == ' ' || c == '\n' || c == '\r' || c == '\t'

/-- The text from its first character that is not blank. -/
def skipSpace (text : List Char) : List Char :=
  text.dropWhile isSpace

def hexValue? (c : Char) : Option Nat :=
  if '0' ≤ c ∧ c ≤ '9' then some (c.toNat - '0'.toNat)
  else if 'a' ≤ c ∧ c ≤ 'f' then some (c.toNat - 'a'.toNat + 10)
  else if 'A' ≤ c ∧ c ≤ 'F' then some (c.toNat - 'A'.toNat + 10)
  else none

/-- The number that four digits in base sixteen write. -/
def hexUnit? (a b c d : Char) : Option Nat := do
  let a ← hexValue? a
  let b ← hexValue? b
  let c ← hexValue? c
  let d ← hexValue? d
  return ((a * 16 + b) * 16 + c) * 16 + d

/-- The character that a one-letter escape stands for. -/
def shortEscape? : Char → Option Char
  | '"' => some '"'
  | '\\' => some '\\'
  | '/' => some '/'
  | 'b' => some '\x08'
  | 'f' => some '\x0c'
  | 'n' => some '\n'
  | 'r' => some '\r'
  | 't' => some '\t'
  | _ => none

/-- The rest of a string after its opening quote, and the text behind its
closing quote; `read` holds the characters so far, last one first. -/
def stringBody? (read : List Char) : List Char → Option (String × List Char)
  | [] => none
  | '"' :: rest => some (String.ofList read.reverse, rest)
  | '\\' :: 'u' :: a :: b :: c :: d :: rest =>
      match hexUnit? a b c d with
      | none => none
      | some unit =>
          if 0xD800 ≤ unit ∧ unit < 0xDC00 then
            match rest with
            | '\\' :: 'u' :: e :: f :: g :: h :: rest =>
                match hexUnit? e f g h with
                | none => none
                | some low =>
                    stringBody?
                      (Char.ofNat (0x10000 + (unit - 0xD800) * 0x400 +
                        (low - 0xDC00)) :: read)
                      rest
            | _ => none
          else stringBody? (Char.ofNat unit :: read) rest
  | '\\' :: c :: rest =>
      match shortEscape? c with
      | none => none
      | some c => stringBody? (c :: read) rest
  | c :: rest => stringBody? (c :: read) rest

/-- The digits at the front of a text, and what follows them. -/
def splitDigits (text : List Char) : List Char × List Char :=
  (text.takeWhile Char.isDigit, text.dropWhile Char.isDigit)

/-- The digits behind a point at the front of a text, if there is one, and what
follows them. -/
def fractionPart : List Char → Option (List Char) × List Char
  | '.' :: rest =>
      let (digits, rest) := splitDigits rest
      (some digits, rest)
  | rest => (none, rest)

/-- The exponent at the front of a text, if there is one, and what follows
it. -/
def exponentPart : List Char → Option Int × List Char
  | mark :: rest =>
      if mark = 'e' ∨ mark = 'E' then
        match rest with
        | '-' :: rest =>
            let (digits, rest) := splitDigits rest
            (some (-(Number.digitsValue digits : Int)), rest)
        | '+' :: rest =>
            let (digits, rest) := splitDigits rest
            (some (Number.digitsValue digits), rest)
        | rest =>
            let (digits, rest) := splitDigits rest
            (some (Number.digitsValue digits), rest)
      else (none, mark :: rest)
  | [] => (none, [])

/-- The number at the front of a text after its sign, and what follows it. -/
def number? (negative : Bool) (text : List Char) : Option (Json × List Char) :=
  let (whole, rest) := splitDigits text
  if whole.isEmpty then none
  else
    let (fraction, rest) := fractionPart rest
    let (exponent, rest) := exponentPart rest
    if fraction.isNone && exponent.isNone then
      let n := Number.digitsValue whole
      if negative then
        some (if n = 0 then .real (-0.0) else .int (-(n : Int)), rest)
      else some (.int n, rest)
    else
      let digits := fraction.getD []
      let x := Number.ofDecimal (Number.digitsValue (whole ++ digits))
        (exponent.getD 0 - digits.length)
      some (.real (if negative then -x else x), rest)

/-- What follows a word at the front of a text. -/
def afterWord? : List Char → List Char → Option (List Char)
  | [], text => some text
  | c :: word, d :: text => if c = d then afterWord? word text else none
  | _ :: _, [] => none

mutual

/-- The value at the front of a text, and what follows it. -/
def value? : Nat → List Char → Option (Json × List Char)
  | 0, _ => none
  | depth + 1, text =>
      match skipSpace text with
      | '"' :: rest =>
          (stringBody? [] rest).map fun (s, rest) => (.string s, rest)
      | '[' :: rest =>
          match skipSpace rest with
          | ']' :: rest => some (.array [], rest)
          | rest => do
              let (item, rest) ← value? depth rest
              let (items, rest) ← items? depth rest
              return (.array (item :: items), rest)
      | '\x7b' :: rest =>
          match skipSpace rest with
          | '\x7d' :: rest => some (.object [], rest)
          | rest => do
              let (first, rest) ← member depth rest
              let (members, rest) ← members? depth rest
              return (.object (first :: members), rest)
      | '-' :: rest => number? true rest
      | 'n' :: rest =>
          (afterWord? "ull".toList rest).map fun rest => (.null, rest)
      | 't' :: rest =>
          (afterWord? "rue".toList rest).map fun rest => (.bool true, rest)
      | 'f' :: rest =>
          (afterWord? "alse".toList rest).map fun rest => (.bool false, rest)
      | rest => number? false rest

/-- The items after the first one, up to the end of the array. -/
def items? : Nat → List Char → Option (List Json × List Char)
  | 0, _ => none
  | depth + 1, text =>
      match skipSpace text with
      | ']' :: rest => some ([], rest)
      | ',' :: rest => do
          let (item, rest) ← value? depth rest
          let (items, rest) ← items? depth rest
          return (item :: items, rest)
      | _ => none

def member : Nat → List Char → Option ((String × Json) × List Char)
  | 0, _ => none
  | depth + 1, text =>
      match skipSpace text with
      | '"' :: rest => do
          let (key, rest) ← stringBody? [] rest
          match skipSpace rest with
          | ':' :: rest => do
              let (value, rest) ← value? depth rest
              return ((key, value), rest)
          | _ => none
      | _ => none

/-- The members after the first one, up to the end of the object. -/
def members? : Nat → List Char → Option (List (String × Json) × List Char)
  | 0, _ => none
  | depth + 1, text =>
      match skipSpace text with
      | '\x7d' :: rest => some ([], rest)
      | ',' :: rest => do
          let (first, rest) ← member depth rest
          let (members, rest) ← members? depth rest
          return (first :: members, rest)
      | _ => none

end

def parse? (text : String) : Option Json :=
  match value? (2 * text.length + 2) text.toList with
  | some (j, rest) => if (skipSpace rest).isEmpty then some j else none
  | none => none

end Json
end LoxLang
