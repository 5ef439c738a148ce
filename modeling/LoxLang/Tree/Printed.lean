import LoxLang.Number.Written
import LoxLang.Tree.Basic

/-!
# Trees in brackets

Every node with parts is written in round brackets, its head word or sign first.
-/

namespace LoxLang

/-- A literal as it stands in a printed tree; a string stands without quotes. -/
def Literal.printed : Literal → String
  | .number value => Number.printedLiteral value
  | .string value => value
  | .yes => "true"
  | .no => "false"
  | .nil => "nil"

mutual

/-- An expression in brackets. -/
def Expr.printed : Expr → String
  | .literal value => value.printed
  | .group inner => "(group " ++ inner.printed ++ ")"
  | .unary op operand _ => "(" ++ op.sign ++ " " ++ operand.printed ++ ")"
  | .binary left op right _ =>
      "(" ++ op.sign ++ " " ++ left.printed ++ " " ++ right.printed ++ ")"
  | .logical left op right =>
      "(" ++ op.sign ++ " " ++ left.printed ++ " " ++ right.printed ++ ")"
  | .read _ name => name.name
  | .assign _ name value => "(= " ++ name.name ++ " " ++ value.printed ++ ")"
  | .call callee _ arguments =>
      "(call " ++ callee.printed ++ Expr.printedList arguments ++ ")"
  | .get object name => "(. " ++ object.printed ++ " " ++ name.name ++ ")"
  | .set object name value =>
      "(.= " ++ object.printed ++ " " ++ name.name ++ " " ++
        value.printed ++ ")"
  | .this _ _ => "this"
  | .super _ _ method => "(super " ++ method.name ++ ")"

def Expr.printedList : List Expr → String
  | [] => ""
  | expr :: exprs => " " ++ expr.printed ++ Expr.printedList exprs

end

mutual

def Stmt.printed : Stmt → String
  | .expression expr => "(; " ++ expr.printed ++ ")"
  | .print expr => "(print " ++ expr.printed ++ ")"
  | .var name none => "(var " ++ name.name ++ ")"
  | .var name (some value) =>
      "(var " ++ name.name ++ " " ++ value.printed ++ ")"
  | .block body => "(block" ++ Stmt.printedList body ++ ")"
  | .branch condition thenBranch none =>
      "(if " ++ condition.printed ++ " " ++ thenBranch.printed ++ ")"
  | .branch condition thenBranch (some elseBranch) =>
      "(if " ++ condition.printed ++ " " ++ thenBranch.printed ++ " " ++
        elseBranch.printed ++ ")"
  | .loop condition body =>
      "(while " ++ condition.printed ++ " " ++ body.printed ++ ")"
  | .function declaration => declaration.printed "fun"
  | .ret _ none => "(return)"
  | .ret _ (some value) => "(return " ++ value.printed ++ ")"
  | .classDecl name none methods =>
      "(class " ++ name.name ++ FunctionDecl.printedList methods ++ ")"
  | .classDecl name (some superclass) methods =>
      "(class " ++ name.name ++ " < " ++ superclass.printed ++
        FunctionDecl.printedList methods ++ ")"

def Stmt.printedList : List Stmt → String
  | [] => ""
  | stmt :: stmts => " " ++ stmt.printed ++ Stmt.printedList stmts

/-- A function or method in brackets, under the given head word. -/
def FunctionDecl.printed (head : String) : FunctionDecl → String
  | ⟨name, params, body⟩ =>
      "(" ++ head ++ " " ++ name.name ++ " (" ++
        " ".intercalate (params.map Ident.name) ++ ") (block" ++
        Stmt.printedList body ++ "))"

def FunctionDecl.printedList : List FunctionDecl → String
  | [] => ""
  | method :: methods =>
      " " ++ method.printed "method" ++ FunctionDecl.printedList methods

end

/-- A program in brackets, one line for each statement. -/
def Program.printed (program : Program) : String :=
  "\n".intercalate (program.map Stmt.printed)

end LoxLang
