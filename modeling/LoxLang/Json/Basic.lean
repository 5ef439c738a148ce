/-!
# JSON values

The data that dumps of tokens and trees are made of.  An object keeps its
members in the order in which they are written.
-/

namespace LoxLang

/-- A JSON value.  A number is a whole number or a double. -/
inductive Json where
  | null
  | bool (value : Bool)
  | int (value : Int)
  | real (value : Float)
  | string (value : String)
  | array (items : List Json)
  | object (members : List (String × Json))

namespace Json

def nat (n : Nat) : Json :=
  .int n

/-- An object with one member: a choice by name with its content. -/
def tagged (tag : String) (content : Json) : Json :=
  .object [(tag, content)]

def option (write : α → Json) : Option α → Json
  | none => .null
  | some a => write a

/-- The first member of an object with the given key. -/
def member? (key : String) : Json → Option Json
  | .object members => members.lookup key
  | _ => none

def nat? : Json → Option Nat
  | .int n => if 0 ≤ n then some n.toNat else none
  | _ => none

def string? : Json → Option String
  | .string s => some s
  | _ => none

def real? : Json → Option Float
  | .int n => some (Float.ofInt n)
  | .real x => some x
  | _ => none

def array? : Json → Option (List Json)
  | .array items => some items
  | _ => none

end Json
end LoxLang
