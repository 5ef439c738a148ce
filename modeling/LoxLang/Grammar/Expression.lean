import LoxLang.Grammar.Cursor

/-!
# Expressions from tokens

The rules, from the loosest to the tightest:

    assignment  →  level 6 ( "=" assignment )?
    level n     →  level (n - 1) ( sign of level n, level (n - 1) )*
    level 0     →  ( "!" | "-" | "+" ) level 0  |  call
    call        →  primary ( "(" arguments? ")" | "." name )*
    primary     →  number | string | word | name | "super" "." name
                |  "(" assignment ")"

The signs of a level associate to the left.  The left side of an assignment is
read as an expression first and has to be a name or a property.
-/

namespace LoxLang
namespace Grammar

/-- The most parameters or arguments that a list can have. -/
def maxArity : Nat := 255

inductive Connective where
  | binary (op : BinaryOp)
  | logical (op : LogicalOp)
deriving DecidableEq, Repr

/-- Joins two expressions; the line is that of the sign. -/
def Connective.join (left : Expr) (line : Nat) (right : Expr) :
    Connective → Expr
  | .binary op => .binary left op right line
  | .logical op => .logical left op right

/-- The signs of each level, the tightest at level 1. -/
def connective? : Nat → Token.Kind → Option Connective
  | 1, .star => some (.binary .multiply)
  | 1, .slash => some (.binary .divide)
  | 1, .percent => some (.binary .modulo)
  | 2, .minus => some (.binary .subtract)
  | 2, .plus => some (.binary .add)
  | 3, .greater => some (.binary .greater)
  | 3, .greaterEqual => some (.binary .greaterEqual)
  | 3, .less => some (.binary .less)
  | 3, .lessEqual => some (.binary .lessEqual)
  | 4, .bangEqual => some (.binary .notEqual)
  | 4, .equalEqual => some (.binary .equal)
  | 5, .andWord => some (.logical .and)
  | 6, .orWord => some (.logical .or)
  | _, _ => none

def topLevel : Nat := 6

def unaryOp? : Token.Kind → Option UnaryOp
  | .bang => some .not
  | .minus => some .negate
  | .plus => some .plus
  | _ => none

/-- Reads the next token if `choose` knows its kind. -/
def acceptWhere (choose : Token.Kind → Option α) :
    Parse (Option α) := fun cursor =>
  if cursor.atEnd then .ok none cursor
  else match choose cursor.here.kind with
    | some a => .ok (some a) cursor.advance
    | none => .ok none cursor

/-- A primary expression that is one token, other than a name. -/
def constant? : Token.Kind → Option Literal
  | .falseWord => some .no
  | .trueWord => some .yes
  | .nilWord => some .nil
  | .number value => some (.number value)
  | .string content => some (.string content)
  | _ => none

/-- A token of this kind holds its value itself. -/
def holdsValue : Token.Kind → Bool
  | .number _ | .string _ => true
  | _ => false

/-- Reads a constant.  A number or a text is looked for in the token shown, even
at the end, where that is the last token once more. -/
def constant : Parse (Option Literal) := fun cursor =>
  if cursor.atEnd && !holdsValue cursor.here.kind then .ok none cursor
  else match constant? cursor.here.kind with
    | some value => .ok (some value) cursor.advance
    | none => .ok none cursor

/-- The assignment of a value to what has been read as an expression; `line` is
that of `=`. -/
def assignTo (target : Expr) (line : Nat) (value : Expr) : Parse Expr :=
  match target with
  | .read _ name => do
      let id ← freshId
      return .assign id name value
  | .get object name => return .set object name value
  | _ => throw ⟨.invalidTarget, line⟩

def noExpression : Parse α := fun cursor =>
  let token := cursor.here
  let cause :=
    if token.kind = .eof then .expectedExpressionAtEnd
    else .expectedExpression token.lexeme
  .error ⟨cause, token.line⟩ cursor

mutual

def assignment : Nat → Parse Expr
  | 0 => failHere .tooDeep
  | depth + 1 => do
      let target ← level depth topLevel
      if ← accept .equal then
        let line ← previousLine
        let value ← assignment depth
        assignTo target line value
      else
        return target

def level : Nat → Nat → Parse Expr
  | 0, _ => failHere .tooDeep
  | depth + 1, 0 => do
      match ← acceptWhere unaryOp? with
      | some op =>
          let line ← previousLine
          let operand ← level depth 0
          return .unary op operand line
      | none => call depth
  | depth + 1, n + 1 => do
      let left ← level depth n
      levelTail depth n left

/-- The rest of level `n + 1` after its first operand. -/
def levelTail : Nat → Nat → Expr → Parse Expr
  | 0, _, _ => failHere .tooDeep
  | depth + 1, n, left => do
      match ← acceptWhere (connective? (n + 1)) with
      | some sign =>
          let line ← previousLine
          let right ← level depth n
          levelTail depth n (sign.join left line right)
      | none => return left

def call : Nat → Parse Expr
  | 0 => failHere .tooDeep
  | depth + 1 => do
      let callee ← primary depth
      callTail depth callee

/-- The calls and properties that follow an expression. -/
def callTail : Nat → Expr → Parse Expr
  | 0, _ => failHere .tooDeep
  | depth + 1, callee => do
      if ← accept .leftParen then
        let values ← if ← sees .rightParen then pure [] else arguments depth 0
        let close ← expect .rightParen .argumentsEnd
        callTail depth (.call callee close.line values)
      else if ← accept .dot then
        let name ← identifier .propertyName
        callTail depth (.get callee name)
      else
        return callee

/-- The arguments of a call, `count` of them having been read. -/
def arguments : Nat → Nat → Parse (List Expr)
  | 0, _ => failHere .tooDeep
  | depth + 1, count => do
      if maxArity ≤ count then
        failHere .tooManyArguments
      else
        let value ← assignment depth
        if ← accept .comma then
          let values ← arguments depth (count + 1)
          return value :: values
        else
          return [value]

def primary : Nat → Parse Expr
  | 0 => failHere .tooDeep
  | depth + 1 => do
      match ← constant with
      | some value => return .literal value
      | none =>
          if ← sees .identifier then
            let name ← identifier .variableName
            let id ← freshId
            return .read id name
          else if ← accept .thisWord then
            let line ← previousLine
            let id ← freshId
            return .this id line
          else if ← accept .superWord then
            let line ← previousLine
            let _ ← expect .dot .superDot
            let method ← identifier .superMethodName
            let id ← freshId
            return .super id line method
          else if ← accept .leftParen then
            let inner ← assignment depth
            let _ ← expect .rightParen .groupEnd
            return .group inner
          else
            noExpression

end

def expression : Parse Expr := fun cursor =>
  assignment cursor.depthBound cursor

end Grammar
end LoxLang
