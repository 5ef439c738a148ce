import LoxLang.Tree.Basic

/-!
# Values

Functions, classes and instances are values by reference: two of them are equal
when they are the same object of a store.  Numbers compare as doubles do, so NaN
differs from itself.
-/

namespace LoxLang

abbrev FrameId := Nat
abbrev FunctionId := Nat
abbrev ClassId := Nat
abbrev ObjectId := Nat

/-- The functions that are not written in the language. -/
inductive Native where
  /-- The time in seconds. -/
  | clock
  /-- A function that the host lends; what it does is known to the machine. -/
  | lent (id : Nat) (name : String) (arity : Nat)
deriving DecidableEq, Repr

def Native.name : Native → String
  | .clock => "clock"
  | .lent _ name _ => name

def Native.arity : Native → Nat
  | .clock => 0
  | .lent _ _ arity => arity

inductive Value where
  | nil
  | bool (value : Bool)
  | number (value : Float)
  | string (value : String)
  | native (function : Native)
  | function (id : FunctionId)
  | classRef (id : ClassId)
  | object (id : ObjectId)
deriving DecidableEq, Repr

namespace Value

def ofLiteral : Literal → Value
  | .number value => .number value
  | .string value => .string value
  | .yes => .bool true
  | .no => .bool false
  | .nil => .nil

/-- Everything but `nil` and `false` holds as a condition. -/
def isTruthy : Value → Bool
  | .nil => false
  | .bool value => value
  | _ => true

/-- The value is a reference into a store. -/
def refers : Value → Bool
  | .function _ | .classRef _ | .object _ => true
  | .nil | .bool _ | .number _ | .string _ | .native _ => false

/-- The equality of the language. -/
def equals : Value → Value → Bool
  | .number a, .number b => a == b
  | a, b => a = b

end Value
end LoxLang
