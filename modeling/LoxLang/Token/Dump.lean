import LoxLang.Json.Basic
import LoxLang.Token.Basic

/-!
# Tokens as data
-/

namespace LoxLang
namespace Token

/-- A kind as data: its name, together with what it carries. -/
def Kind.toJson : Kind → Json
  | .string content => .tagged "STRING" (.string content)
  | .number value => .tagged "NUMBER" (.real value)
  | kind => .string kind.name

def toJson (token : Token) : Json :=
  .object [("token_type", token.kind.toJson), ("lexeme", .string token.lexeme),
    ("line", .nat token.line)]

def listToJson (tokens : List Token) : Json :=
  .array (tokens.map toJson)

end Token
end LoxLang
