import LoxLang.Text.Mark

/-!
# Quoted text

A text between double quotes on one line: quotes, backslashes and the usual
controls have short escapes, and every other character without a mark of its own
is written by its number.
-/

namespace LoxLang
namespace Text

/-- The digits of a number in base sixteen, lower case and without leading
zeros. -/
def hexDigits (n : Nat) : String :=
  String.ofList (Nat.toDigits 16 n)

/-- A character as it stands inside a quoted text. -/
def quotedChar (c : Char) : String :=
  if c = '\x00' then "\\0"
  else if c = '\t' then "\\t"
  else if c = '\r' then "\\r"
  else if c = '\n' then "\\n"
  else if c = '"' then "\\\""
  else if c = '\\' then "\\\\"
  else if hasMark c then String.singleton c
  else "\\u\x7b" ++ hexDigits c.toNat ++ "\x7d"

def quoted (text : String) : String :=
  "\"" ++ String.join (text.toList.map quotedChar) ++ "\""

end Text
end LoxLang
