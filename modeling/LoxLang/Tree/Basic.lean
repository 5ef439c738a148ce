/-!
# Syntax trees

A program is a list of statements.  Each place that reads or writes a variable,
`this` or `super` has a number of its own, so that two places with the same name
can be bound differently.
-/

namespace LoxLang

/-- A name together with the line on which it stands. -/
structure Ident where
  name : String
  line : Nat
deriving DecidableEq, Repr

/-- The number of a place that is bound to a declaration. -/
abbrev PlaceId := Nat

inductive Literal where
  | number (value : Float)
  | string (value : String)
  | yes
  | no
  | nil
deriving DecidableEq, Repr

inductive UnaryOp where
  | negate
  | plus
  | not
deriving DecidableEq, Repr

inductive BinaryOp where
  | add
  | subtract
  | multiply
  | divide
  | modulo
  | equal
  | notEqual
  | less
  | lessEqual
  | greater
  | greaterEqual
deriving DecidableEq, Repr

inductive LogicalOp where
  | and
  | or
deriving DecidableEq, Repr

/-- Expressions.  A line belongs to the token that a failing evaluation points
at. -/
inductive Expr where
  | literal (value : Literal)
  | group (inner : Expr)
  | unary (op : UnaryOp) (operand : Expr) (line : Nat)
  | binary (left : Expr) (op : BinaryOp) (right : Expr) (line : Nat)
  | logical (left : Expr) (op : LogicalOp) (right : Expr)
  | read (id : PlaceId) (name : Ident)
  | assign (id : PlaceId) (name : Ident) (value : Expr)
  | call (callee : Expr) (line : Nat) (arguments : List Expr)
  | get (object : Expr) (name : Ident)
  | set (object : Expr) (name : Ident) (value : Expr)
  | this (id : PlaceId) (line : Nat)
  | super (id : PlaceId) (line : Nat) (method : Ident)

mutual

inductive Stmt where
  | expression (expr : Expr)
  | print (expr : Expr)
  | var (name : Ident) (initializer : Option Expr)
  | block (body : List Stmt)
  | branch (condition : Expr) (thenBranch : Stmt) (elseBranch : Option Stmt)
  | loop (condition : Expr) (body : Stmt)
  | function (declaration : FunctionDecl)
  | ret (line : Nat) (value : Option Expr)
  | classDecl (name : Ident) (superclass : Option Expr)
      (methods : List FunctionDecl)

/-- A function or a method: its name, its parameters and its body. -/
structure FunctionDecl where
  name : Ident
  params : List Ident
  body : List Stmt

end

abbrev Program := List Stmt

/-- The name of the method that sets up a new instance. -/
def initializerName : String := "init"

def UnaryOp.sign : UnaryOp → String
  | .negate => "-"
  | .plus => "+"
  | .not => "!"

def BinaryOp.sign : BinaryOp → String
  | .add => "+"
  | .subtract => "-"
  | .multiply => "*"
  | .divide => "/"
  | .modulo => "%"
  | .equal => "=="
  | .notEqual => "!="
  | .less => "<"
  | .lessEqual => "<="
  | .greater => ">"
  | .greaterEqual => ">="

def LogicalOp.sign : LogicalOp → String
  | .and => "and"
  | .or => "or"

end LoxLang
