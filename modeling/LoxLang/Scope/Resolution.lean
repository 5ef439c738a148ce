import LoxLang.Bindings
import LoxLang.Scope.Distance
import LoxLang.Tree.Basic

/-!
# Binding names to scopes

One walk over a program keeps the stack of scopes that enclose each place,
records the distance of every place that is bound to one of them, and reports
what the rules of the language forbid.  The walk goes on after an error.  At the
top level there is no scope: names there are global.
-/

namespace LoxLang

/-- What a program does against the rules on scopes. -/
inductive ScopeError.Cause where
  | returnAtTop
  | valueFromInitializer
  | thisOutsideClass
  | superOutsideClass
  | superWithoutSuperclass
  | inheritsFromItself
  | alreadyDeclared (name : String)
  | readInOwnInitializer (name : String)
deriving DecidableEq, Repr

def ScopeError.Cause.message : ScopeError.Cause → String
  | .returnAtTop => "Can't return from top-level code."
  | .valueFromInitializer => "Can't return a value from an initializer."
  | .thisOutsideClass => "Can't use 'this' outside of a class."
  | .superOutsideClass => "Can't use 'super' outside of a class."
  | .superWithoutSuperclass =>
      "Can't use 'super' in a class with no superclass."
  | .inheritsFromItself => "A class can't inherit from itself."
  | .alreadyDeclared name =>
      "Already a variable named '" ++ name ++ "' in this scope."
  | .readInOwnInitializer name =>
      "Can't read local variable '" ++ name ++ "' in its own initializer."

structure ScopeError where
  cause : ScopeError.Cause
  line : Nat
deriving DecidableEq, Repr

namespace Scope

inductive FunctionKind where
  | none
  | function
  | initializer
  | method
deriving DecidableEq, Repr

inductive ClassKind where
  | none
  | base
  | derived
deriving DecidableEq, Repr

/-- What encloses a place, other than scopes. -/
structure Surroundings where
  function : FunctionKind
  classKind : ClassKind
deriving DecidableEq, Repr

def Surroundings.top : Surroundings :=
  ⟨.none, .none⟩

/-- What a walk knows and has found so far.  A scope, innermost first, tells of
each name it declares whether its declaration is complete. -/
structure Resolution where
  scopes : List (Bindings Bool)
  distances : Distances
  errors : List ScopeError

namespace Resolution

def start : Resolution :=
  ⟨[], .empty, []⟩

def report (r : Resolution) (cause : ScopeError.Cause) (line : Nat) :
    Resolution :=
  { r with errors := r.errors ++ [⟨cause, line⟩] }

/-- Enters a scope that declares some names from the start. -/
def enter (r : Resolution) (scope : Bindings Bool) : Resolution :=
  { r with scopes := scope :: r.scopes }

def leave (r : Resolution) : Resolution :=
  { r with scopes := r.scopes.tail }

/-- Starts the declaration of a name in the innermost scope. -/
def declare (r : Resolution) (name : Ident) : Resolution :=
  match r.scopes with
  | [] => r
  | scope :: outer =>
      if scope.has name.name then
        r.report (.alreadyDeclared name.name) name.line
      else { r with scopes := scope.put name.name false :: outer }

/-- Completes the declaration of a name in the innermost scope. -/
def define (r : Resolution) (name : Ident) : Resolution :=
  match r.scopes with
  | [] => r
  | scope :: outer => { r with scopes := scope.put name.name true :: outer }

/-- Binds a place to the nearest scope that declares the name. -/
def bind (r : Resolution) (id : PlaceId) (name : String) : Resolution :=
  match r.scopes.findIdx? fun scope => scope.has name with
  | some distance => { r with distances := r.distances.record id distance }
  | none => r

/-- The name is being declared in the innermost scope. -/
def inOwnInitializer (r : Resolution) (name : String) : Bool :=
  match r.scopes with
  | [] => false
  | scope :: _ => scope.find? name = some false

end Resolution

mutual

def resolveExpr (around : Surroundings) : Expr → Resolution → Resolution
  | .literal _, r => r
  | .group inner, r => resolveExpr around inner r
  | .unary _ operand _, r => resolveExpr around operand r
  | .binary left _ right _, r =>
      resolveExpr around right (resolveExpr around left r)
  | .logical left _ right, r =>
      resolveExpr around right (resolveExpr around left r)
  | .read id name, r =>
      let r :=
        if r.inOwnInitializer name.name then
          r.report (.readInOwnInitializer name.name) name.line
        else r
      r.bind id name.name
  | .assign id name value, r => (resolveExpr around value r).bind id name.name
  | .call callee _ arguments, r =>
      resolveExprs around arguments (resolveExpr around callee r)
  | .get object _, r => resolveExpr around object r
  | .set object _ value, r =>
      resolveExpr around value (resolveExpr around object r)
  | .this id line, r =>
      match around.classKind with
      | .none => r.report .thisOutsideClass line
      | _ => r.bind id "this"
  | .super id line _, r =>
      match around.classKind with
      | .none => r.report .superOutsideClass line
      | .base => r.report .superWithoutSuperclass line
      | .derived => r.bind id "super"

def resolveExprs (around : Surroundings) : List Expr → Resolution → Resolution
  | [], r => r
  | expr :: exprs, r => resolveExprs around exprs (resolveExpr around expr r)

end

def resolveOption (around : Surroundings) :
    Option Expr → Resolution → Resolution
  | none, r => r
  | some expr, r => resolveExpr around expr r

def declareParams : List Ident → Resolution → Resolution
  | [], r => r
  | param :: params, r => declareParams params ((r.declare param).define param)

def methodKind (name : String) : FunctionKind :=
  if name = initializerName then .initializer else .method

/-- Reports a class that is named as its own superclass. -/
def checkSuperclass (name : Ident) : Expr → Resolution → Resolution
  | .read _ superName, r =>
      if superName.name = name.name then
        r.report .inheritsFromItself superName.line
      else r
  | _, r => r

/-- Reports a `return` in the wrong place. -/
def checkReturn (around : Surroundings) (line : Nat) (value : Option Expr)
    (r : Resolution) : Resolution :=
  let r := if around.function = .none then r.report .returnAtTop line else r
  if value.isSome ∧ around.function = .initializer then
    r.report .valueFromInitializer line
  else r

mutual

def resolveStmt (around : Surroundings) : Stmt → Resolution → Resolution
  | .expression expr, r => resolveExpr around expr r
  | .print expr, r => resolveExpr around expr r
  | .var name initializer, r =>
      (resolveOption around initializer (r.declare name)).define name
  | .block body, r => (resolveStmts around body (r.enter .empty)).leave
  | .branch condition thenBranch none, r =>
      resolveStmt around thenBranch (resolveExpr around condition r)
  | .branch condition thenBranch (some elseBranch), r =>
      resolveStmt around elseBranch
        (resolveStmt around thenBranch (resolveExpr around condition r))
  | .loop condition body, r =>
      resolveStmt around body (resolveExpr around condition r)
  | .function declaration, r =>
      resolveFunction { around with function := .function } declaration
        ((r.declare declaration.name).define declaration.name)
  | .ret line value, r =>
      resolveOption around value (checkReturn around line value r)
  | .classDecl name none methods, r =>
      let inside := { around with classKind := .base }
      let r := (r.declare name).define name
      (resolveMethods inside methods
        (r.enter (Bindings.empty.put "this" true))).leave
  | .classDecl name (some superclass) methods, r =>
      let inside := { around with classKind := .derived }
      let r := checkSuperclass name superclass ((r.declare name).define name)
      let r := (resolveExpr inside superclass r).enter
        (Bindings.empty.put "super" true)
      (resolveMethods inside methods
        (r.enter (Bindings.empty.put "this" true))).leave.leave

def resolveStmts (around : Surroundings) : List Stmt → Resolution → Resolution
  | [], r => r
  | stmt :: stmts, r => resolveStmts around stmts (resolveStmt around stmt r)

/-- Walks over the parameters and the body of a function, which share one
scope. -/
def resolveFunction (around : Surroundings) :
    FunctionDecl → Resolution → Resolution
  | ⟨_, params, body⟩, r =>
      (resolveStmts around body (declareParams params (r.enter .empty))).leave

def resolveMethods (around : Surroundings) :
    List FunctionDecl → Resolution → Resolution
  | [], r => r
  | method :: methods, r =>
      resolveMethods around methods
        (resolveFunction
          { around with function := methodKind method.name.name } method r)

end

/-- The distances of a program's places, or everything it does against the
rules. -/
def resolve (program : Program) : Except (List ScopeError) Distances :=
  let r := resolveStmts .top program .start
  match r.errors with
  | [] => .ok r.distances
  | errors => .error errors

end Scope
end LoxLang
