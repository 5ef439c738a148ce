import LoxLang.Json.Basic
import LoxLang.Number.Written

/-!
# JSON as text

`compact` writes a value without blanks; `pretty` puts each item and member on a
line of its own, two spaces deeper than what encloses it.  In a string only
quotes, backslashes and control characters are escaped.  A double that is not
finite is written as `null`.
-/

namespace LoxLang
namespace Json

/-- A character as it stands inside a JSON string. -/
def escaped (c : Char) : List Char :=
  if c = '"' then ['\\', '"']
  else if c = '\\' then ['\\', '\\']
  else if c = '\x08' then ['\\', 'b']
  else if c = '\x0c' then ['\\', 'f']
  else if c = '\n' then ['\\', 'n']
  else if c = '\r' then ['\\', 'r']
  else if c = '\t' then ['\\', 't']
  else if c.toNat < 0x20 then
    ['\\', 'u', '0', '0', Nat.digitChar (c.toNat / 16),
      Nat.digitChar (c.toNat % 16)]
  else [c]

def stringChars (text : String) : List Char :=
  '"' :: (text.toList.flatMap escaped ++ ['"'])

def intChars (n : Int) : List Char :=
  if n < 0 then '-' :: Nat.toDigits 10 n.natAbs else Nat.toDigits 10 n.natAbs

/-- A double in decimal, or `null`. -/
def realChars (x : Float) : List Char :=
  ((Number.dumped? x).getD "null").toList

mutual

/-- A value without blanks. -/
def chars : Json → List Char
  | .null => "null".toList
  | .bool true => "true".toList
  | .bool false => "false".toList
  | .int n => intChars n
  | .real x => realChars x
  | .string s => stringChars s
  | .array [] => ['[', ']']
  | .array (item :: items) => '[' :: (chars item ++ itemsChars items)
  | .object [] => ['\x7b', '\x7d']
  | .object ((key, value) :: members) =>
      '\x7b' ::
        (stringChars key ++ ':' :: (chars value ++ membersChars members))

/-- The items after the first one, and the end of the array. -/
def itemsChars : List Json → List Char
  | [] => [']']
  | item :: items => ',' :: (chars item ++ itemsChars items)

/-- The members after the first one, and the end of the object. -/
def membersChars : List (String × Json) → List Char
  | [] => ['\x7d']
  | (key, value) :: members =>
      ',' :: (stringChars key ++ ':' :: (chars value ++ membersChars members))

end

def compact (j : Json) : String :=
  String.ofList j.chars

/-- A new line that starts `depth` steps to the right. -/
def newLine (depth : Nat) : String :=
  "\n" ++ String.ofList (List.replicate (2 * depth) ' ')

mutual

/-- The value over several lines, its first line standing `depth` steps to the
right. -/
def prettyAt (depth : Nat) : Json → String
  | .array (item :: items) =>
      "[" ++ newLine (depth + 1) ++ prettyAt (depth + 1) item ++
        prettyItems depth items
  | .object ((key, value) :: members) =>
      "\x7b" ++ newLine (depth + 1) ++ String.ofList (stringChars key) ++
        ": " ++ prettyAt (depth + 1) value ++ prettyMembers depth members
  | other => other.compact

def prettyItems (depth : Nat) : List Json → String
  | [] => newLine depth ++ "]"
  | item :: items =>
      "," ++ newLine (depth + 1) ++ prettyAt (depth + 1) item ++
        prettyItems depth items

def prettyMembers (depth : Nat) : List (String × Json) → String
  | [] => newLine depth ++ "\x7d"
  | (key, value) :: members =>
      "," ++ newLine (depth + 1) ++ String.ofList (stringChars key) ++ ": " ++
        prettyAt (depth + 1) value ++ prettyMembers depth members

end

def pretty (j : Json) : String :=
  j.prettyAt 0

end Json
end LoxLang
