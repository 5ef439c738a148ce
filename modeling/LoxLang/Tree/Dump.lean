import LoxLang.Json.Basic
import LoxLang.Tree.Basic

/-!
# Trees as data

A node is an object with one member, whose key names the form of the node; a
form without parts is just its name.  `ofJson?` reads back what `toJson` writes,
with the members of an object in any order.  What stands below a node is less
deep, so the depth of the data bounds the reading.
-/

namespace LoxLang

def Ident.toJson (ident : Ident) : Json :=
  .object [("name", .string ident.name), ("line", .nat ident.line)]

def Literal.toJson : Literal → Json
  | .number value => .tagged "Number" (.real value)
  | .string value => .tagged "Str" (.string value)
  | .yes => .string "True"
  | .no => .string "False"
  | .nil => .string "Nil"

def UnaryOp.label : UnaryOp → String
  | .negate => "Negate"
  | .plus => "Plus"
  | .not => "Not"

def BinaryOp.label : BinaryOp → String
  | .add => "Add"
  | .subtract => "Subtract"
  | .multiply => "Multiply"
  | .divide => "Divide"
  | .modulo => "Modulo"
  | .equal => "Equal"
  | .notEqual => "NotEqual"
  | .less => "Less"
  | .lessEqual => "LessEqual"
  | .greater => "Greater"
  | .greaterEqual => "GreaterEqual"

def LogicalOp.label : LogicalOp → String
  | .and => "And"
  | .or => "Or"

mutual

/-- An expression as data. -/
def Expr.toJson : Expr → Json
  | .literal value => .tagged "Literal" value.toJson
  | .group inner => .tagged "Grouping" inner.toJson
  | .unary op operand line =>
      .tagged "Unary" (.object [("operator", .string op.label),
        ("right", operand.toJson), ("line", .nat line)])
  | .binary left op right line =>
      .tagged "Binary" (.object [("left", left.toJson),
        ("operator", .string op.label), ("right", right.toJson),
        ("line", .nat line)])
  | .logical left op right =>
      .tagged "Logical" (.object [("left", left.toJson),
        ("operator", .string op.label), ("right", right.toJson)])
  | .read id name =>
      .tagged "Variable" (.object [("id", .nat id), ("name", name.toJson)])
  | .assign id name value =>
      .tagged "Assign" (.object [("id", .nat id), ("name", name.toJson),
        ("value", value.toJson)])
  | .call callee line arguments =>
      .tagged "Call" (.object [("callee", callee.toJson), ("line", .nat line),
        ("arguments", .array (Expr.listToJson arguments))])
  | .get object name =>
      .tagged "Get" (.object [("object", object.toJson), ("name", name.toJson)])
  | .set object name value =>
      .tagged "Set" (.object [("object", object.toJson), ("name", name.toJson),
        ("value", value.toJson)])
  | .this id line =>
      .tagged "This" (.object [("id", .nat id), ("line", .nat line)])
  | .super id line method =>
      .tagged "Super" (.object [("id", .nat id), ("line", .nat line),
        ("method", method.toJson)])

def Expr.listToJson : List Expr → List Json
  | [] => []
  | expr :: exprs => expr.toJson :: Expr.listToJson exprs

end

mutual

def Stmt.toJson : Stmt → Json
  | .expression expr => .tagged "Expression" expr.toJson
  | .print expr => .tagged "Print" expr.toJson
  | .var name initializer =>
      .tagged "Var" (.object [("name", name.toJson),
        ("initializer", .option Expr.toJson initializer)])
  | .block body => .tagged "Block" (.array (Stmt.listToJson body))
  | .branch condition thenBranch none =>
      .tagged "If" (.object [("condition", condition.toJson),
        ("then_branch", thenBranch.toJson), ("else_branch", .null)])
  | .branch condition thenBranch (some elseBranch) =>
      .tagged "If" (.object [("condition", condition.toJson),
        ("then_branch", thenBranch.toJson), ("else_branch", elseBranch.toJson)])
  | .loop condition body =>
      .tagged "While" (.object [("condition", condition.toJson),
        ("body", body.toJson)])
  | .function declaration => .tagged "Function" declaration.toJson
  | .ret line value =>
      .tagged "Return" (.object [("line", .nat line),
        ("value", .option Expr.toJson value)])
  | .classDecl name superclass methods =>
      .tagged "Class" (.object [("name", name.toJson),
        ("superclass", .option Expr.toJson superclass),
        ("methods", .array (FunctionDecl.listToJson methods))])

def Stmt.listToJson : List Stmt → List Json
  | [] => []
  | stmt :: stmts => stmt.toJson :: Stmt.listToJson stmts

def FunctionDecl.toJson : FunctionDecl → Json
  | ⟨name, params, body⟩ =>
      .object [("name", name.toJson),
        ("params", .array (params.map Ident.toJson)),
        ("body", .array (Stmt.listToJson body))]

def FunctionDecl.listToJson : List FunctionDecl → List Json
  | [] => []
  | declaration :: declarations =>
      declaration.toJson :: FunctionDecl.listToJson declarations

end

def Program.toJson (program : Program) : Json :=
  .array (Stmt.listToJson program)

namespace Json

mutual

/-- How many values enclose each other at the deepest point. -/
def depth : Json → Nat
  | .array items => depthItems items + 1
  | .object members => depthMembers members + 1
  | _ => 1

def depthItems : List Json → Nat
  | [] => 0
  | item :: items => max item.depth (depthItems items)

def depthMembers : List (String × Json) → Nat
  | [] => 0
  | (_, value) :: members => max value.depth (depthMembers members)

end

/-- Reads one member of an object. -/
def readMember? (j : Json) (key : String) (read : Json → Option α) : Option α :=
  (j.member? key).bind read

def readOption? (read : Json → Option α) : Json → Option (Option α)
  | .null => some none
  | j => (read j).map some

def readArray? (read : Json → Option α) (j : Json) : Option (List α) :=
  j.array?.bind fun items => items.mapM read

end Json

def Ident.ofJson? (j : Json) : Option Ident := do
  let name ← j.readMember? "name" Json.string?
  let line ← j.readMember? "line" Json.nat?
  return ⟨name, line⟩

def Literal.ofJson? : Json → Option Literal
  | .string "True" => some .yes
  | .string "False" => some .no
  | .string "Nil" => some .nil
  | .object [("Number", value)] => value.real?.map .number
  | .object [("Str", value)] => value.string?.map .string
  | _ => none

def UnaryOp.ofLabel? : String → Option UnaryOp
  | "Negate" => some .negate
  | "Plus" => some .plus
  | "Not" => some .not
  | _ => none

def BinaryOp.ofLabel? : String → Option BinaryOp
  | "Add" => some .add
  | "Subtract" => some .subtract
  | "Multiply" => some .multiply
  | "Divide" => some .divide
  | "Modulo" => some .modulo
  | "Equal" => some .equal
  | "NotEqual" => some .notEqual
  | "Less" => some .less
  | "LessEqual" => some .lessEqual
  | "Greater" => some .greater
  | "GreaterEqual" => some .greaterEqual
  | _ => none

def LogicalOp.ofLabel? : String → Option LogicalOp
  | "And" => some .and
  | "Or" => some .or
  | _ => none

/-- Reads an expression from data of at most the given depth. -/
def Expr.read? : Nat → Json → Option Expr
  | 0, _ => none
  | depth + 1, .object [(form, j)] =>
      match form with
      | "Literal" => (Literal.ofJson? j).map .literal
      | "Grouping" => (Expr.read? depth j).map .group
      | "Unary" => do
          let op ← j.readMember? "operator" fun op =>
            op.string?.bind UnaryOp.ofLabel?
          let operand ← j.readMember? "right" (Expr.read? depth)
          let line ← j.readMember? "line" Json.nat?
          return .unary op operand line
      | "Binary" => do
          let left ← j.readMember? "left" (Expr.read? depth)
          let op ← j.readMember? "operator" fun op =>
            op.string?.bind BinaryOp.ofLabel?
          let right ← j.readMember? "right" (Expr.read? depth)
          let line ← j.readMember? "line" Json.nat?
          return .binary left op right line
      | "Logical" => do
          let left ← j.readMember? "left" (Expr.read? depth)
          let op ← j.readMember? "operator" fun op =>
            op.string?.bind LogicalOp.ofLabel?
          let right ← j.readMember? "right" (Expr.read? depth)
          return .logical left op right
      | "Variable" => do
          let id ← j.readMember? "id" Json.nat?
          let name ← j.readMember? "name" Ident.ofJson?
          return .read id name
      | "Assign" => do
          let id ← j.readMember? "id" Json.nat?
          let name ← j.readMember? "name" Ident.ofJson?
          let value ← j.readMember? "value" (Expr.read? depth)
          return .assign id name value
      | "Call" => do
          let callee ← j.readMember? "callee" (Expr.read? depth)
          let line ← j.readMember? "line" Json.nat?
          let arguments ← j.readMember? "arguments"
            (Json.readArray? (Expr.read? depth))
          return .call callee line arguments
      | "Get" => do
          let object ← j.readMember? "object" (Expr.read? depth)
          let name ← j.readMember? "name" Ident.ofJson?
          return .get object name
      | "Set" => do
          let object ← j.readMember? "object" (Expr.read? depth)
          let name ← j.readMember? "name" Ident.ofJson?
          let value ← j.readMember? "value" (Expr.read? depth)
          return .set object name value
      | "This" => do
          let id ← j.readMember? "id" Json.nat?
          let line ← j.readMember? "line" Json.nat?
          return .this id line
      | "Super" => do
          let id ← j.readMember? "id" Json.nat?
          let line ← j.readMember? "line" Json.nat?
          let method ← j.readMember? "method" Ident.ofJson?
          return .super id line method
      | _ => none
  | _, _ => none

mutual

def Stmt.read? : Nat → Json → Option Stmt
  | 0, _ => none
  | depth + 1, .object [(form, j)] =>
      match form with
      | "Expression" => (Expr.read? depth j).map .expression
      | "Print" => (Expr.read? depth j).map .print
      | "Var" => do
          let name ← j.readMember? "name" Ident.ofJson?
          let initializer ← j.readMember? "initializer"
            (Json.readOption? (Expr.read? depth))
          return .var name initializer
      | "Block" => (Json.readArray? (Stmt.read? depth) j).map .block
      | "If" => do
          let condition ← j.readMember? "condition" (Expr.read? depth)
          let thenBranch ← j.readMember? "then_branch" (Stmt.read? depth)
          let elseBranch ← j.readMember? "else_branch"
            (Json.readOption? (Stmt.read? depth))
          return .branch condition thenBranch elseBranch
      | "While" => do
          let condition ← j.readMember? "condition" (Expr.read? depth)
          let body ← j.readMember? "body" (Stmt.read? depth)
          return .loop condition body
      | "Function" => (FunctionDecl.read? depth j).map .function
      | "Return" => do
          let line ← j.readMember? "line" Json.nat?
          let value ← j.readMember? "value"
            (Json.readOption? (Expr.read? depth))
          return .ret line value
      | "Class" => do
          let name ← j.readMember? "name" Ident.ofJson?
          let superclass ← j.readMember? "superclass"
            (Json.readOption? (Expr.read? depth))
          let methods ← j.readMember? "methods"
            (Json.readArray? (FunctionDecl.read? depth))
          return .classDecl name superclass methods
      | _ => none
  | _, _ => none

def FunctionDecl.read? : Nat → Json → Option FunctionDecl
  | 0, _ => none
  | depth + 1, j => do
      let name ← j.readMember? "name" Ident.ofJson?
      let params ← j.readMember? "params" (Json.readArray? Ident.ofJson?)
      let body ← j.readMember? "body" (Json.readArray? (Stmt.read? depth))
      return ⟨name, params, body⟩

end

/-- The program that data describes. -/
def Program.ofJson? (j : Json) : Option Program :=
  Json.readArray? (Stmt.read? j.depth) j

end LoxLang
