/-!
# How a run can go wrong

A `RuntimeError` is the program's own fault, an `OutputError` that of the place
it prints to.  A `Defect` is neither: it shows a tree whose distances do not fit
its scopes.
-/

namespace LoxLang

inductive Mismatch where
  | booleanOperand
  | numberOperand
  | numberOperands
  | numberOrStringOperands
  | classAsSuperclass
deriving DecidableEq, Repr

def Mismatch.message : Mismatch → String
  | .booleanOperand => "Operand must be a boolean."
  | .numberOperand => "Operand must be a number."
  | .numberOperands => "Operands must be numbers."
  | .numberOrStringOperands => "Operands must be two numbers or two strings."
  | .classAsSuperclass => "Superclass must be a class."

namespace RuntimeError

/-- Why an evaluation fails. -/
inductive Cause where
  | undefinedVariable (name : String)
  | undefinedProperty (name : String)
  | typeMismatch (mismatch : Mismatch)
  | notCallable
  | arityMismatch (expected got : Nat)
  | notAnInstance
  | native (message : String)
deriving DecidableEq, Repr

def Cause.message : Cause → String
  | .undefinedVariable name => "Undefined variable '" ++ name ++ "'."
  | .undefinedProperty name => "Undefined property '" ++ name ++ "'."
  | .typeMismatch mismatch => mismatch.message
  | .notCallable => "Can only call functions and classes."
  | .arityMismatch expected got =>
      "Expected " ++ Nat.repr expected ++ " arguments but got " ++
        Nat.repr got ++ "."
  | .notAnInstance => "Only instances have properties."
  | .native message => message

end RuntimeError

/-- A failure of an evaluation, and the line it points at. -/
structure RuntimeError where
  cause : RuntimeError.Cause
  line : Nat
deriving DecidableEq, Repr

def RuntimeError.message (e : RuntimeError) : String :=
  e.cause.message ++ " [line " ++ Nat.repr e.line ++ "]"

/-- A failure to write output or to read input. -/
inductive OutputError where
  | sinkFull
  | flushFailed
  | notText
deriving DecidableEq, Repr

def OutputError.message : OutputError → String
  | .sinkFull => "sink full"
  | .flushFailed => "flush failed"
  | .notText => "stream did not contain valid UTF-8"

/-- A tree and its distances do not fit together. -/
inductive Defect where
  /-- The scope at the recorded distance does not hold the name. -/
  | missing (name : String)
  /-- The scopes end when `left` steps are still to go. -/
  | chainTooShort (name : String) (left : Nat)
  /-- `super` and `this` are not bound to a class and an instance. -/
  | superSlots (line : Nat)
  /-- A `return` stands outside of all functions. -/
  | strayReturn
deriving DecidableEq, Repr

def Defect.message : Defect → String
  | .missing name => "resolved variable '" ++ name ++ "' missing from its scope"
  | .chainTooShort name left =>
      "scope chain too short: '" ++ name ++ "' resolved " ++ Nat.repr left ++
        " hop(s) beyond the globals"
  | .superSlots line =>
      "'super' at line " ++ Nat.repr line ++
        " resolved to slots that do not hold a class and an instance"
  | .strayReturn =>
      "internal error: entered unreachable code: 'return' escaped to the " ++
        "top level; it must be rejected before execution"

end LoxLang
