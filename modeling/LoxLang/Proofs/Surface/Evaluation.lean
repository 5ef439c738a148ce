import LoxLang.Proofs.Lexical.Evaluation
import LoxLang.Proofs.Surface.Tree

/-!
# Lexical scoping with `for` loops

Programs are run as they are written, by locations and without distances or
frames.  A `for` loop opens one scope for its initializer, and all its rounds
go on in that scope: the condition, where a missing one holds, the body, and
then the increment.  Whatever leaves a round early leaves the loop, and the
increment is not evaluated.  All else is as in the evaluation of the trees
without `for` loops.
-/

namespace LoxLang
namespace Surface

open Lexical (Env StateOf)

instance : Lexical.Headed FunctionDecl :=
  ⟨FunctionDecl.name, FunctionDecl.params⟩

abbrev Function := Lexical.FunctionOf FunctionDecl

abbrev Class := Lexical.ClassOf FunctionDecl

abbrev State := StateOf FunctionDecl

abbrev State.start (sink : Sink) (clock : Nat → Float) : State :=
  StateOf.start sink clock

abbrev Step := Lexical.StepOf FunctionDecl

namespace Step

open Lexical.Step

/-! ## Clauses

What is done with the expressions of a declaration or of a loop, given the way
in which expressions are evaluated. -/

/-- Declares a variable, which is `nil` without an initializer. -/
def declareVariable (eval : Expr → Step Value) (env : Env) (name : Ident) :
    Option Expr → Step Env
  | none => declare env name.name .nil
  | some value => do
      let value ← eval value
      declare env name.name value

/-- The superclass in the declaration of a class. -/
def superclassOf (eval : Expr → Step Value) (name : Ident) :
    Option Expr → Step (Option ClassId)
  | none => return none
  | some superclass => do
      match ← eval superclass with
      | .classRef id => return some id
      | _ => fail (.typeMismatch .classAsSuperclass) name.line

/-- Declares a class, whose name can be seen by all of the declaration. -/
def declareClass (eval : Env → Expr → Step Value) (env : Env) (name : Ident)
    (superclass : Option Expr) (methods : List FunctionDecl) : Step Env := do
  let env ← declare env name.name .nil
  let superclass ← superclassOf (eval env) name superclass
  Lexical.Step.declareClass env name superclass methods
  return env

/-- The environment of the rounds, which is the one behind the initializer. -/
def enterLoop (eval : Expr → Step Value) (env : Env) :
    Option Initializer → Step Env
  | none => return env
  | some (.var name value) => declareVariable eval env name value
  | some (.expression expr) => do
      let _ ← eval expr
      return env

/-- There is to be another round; without a condition there always is. -/
def goesOn (eval : Expr → Step Value) : Option Expr → Step Bool
  | none => return true
  | some condition => do
      let value ← eval condition
      return value.isTruthy

def advance (eval : Expr → Step Value) : Option Expr → Step Unit
  | none => return ()
  | some increment => do
      let _ ← eval increment
      return ()

/-! ## Expressions and statements -/

mutual

/-- The value of an expression. -/
def eval : Nat → Env → Expr → Step Value
  | 0, _, _ => throw .outOfFuel
  | fuel + 1, env, expr =>
      match expr with
      | .literal value => return Value.ofLiteral value
      | .group inner => eval fuel env inner
      | .unary op operand line => do
          let value ← eval fuel env operand
          orMismatch line (Value.unary op value)
      | .binary left op right line => do
          let a ← eval fuel env left
          let b ← eval fuel env right
          orMismatch line (Value.binary a op b)
      | .logical left op right => do
          let value ← eval fuel env left
          if Value.decides op value then return value else eval fuel env right
      | .read _ name => readName env name
      | .assign _ name value => do
          let value ← eval fuel env value
          writeName env name value
          return value
      | .call callee line arguments => do
          let callee ← eval fuel env callee
          let values ← evalAll fuel env arguments
          match ← ask fun state => state.arity? callee with
          | none => fail .notCallable line
          | some arity =>
              if values.length = arity then call fuel callee values line
              else fail (.arityMismatch arity values.length) line
      | .get object name => do
          match ← eval fuel env object with
          | .object id => getProperty id name
          | _ => fail .notAnInstance name.line
      | .set object name value => do
          match ← eval fuel env object with
          | .object id =>
              let value ← eval fuel env value
              setProperty id name.name value
              return value
          | _ => fail .notAnInstance name.line
      | .this _ line => readName env ⟨"this", line⟩
      | .super _ line method => superMethod env line method

/-- The values of expressions, from left to right. -/
def evalAll : Nat → Env → List Expr → Step (List Value)
  | 0, _, _ => throw .outOfFuel
  | _ + 1, _, [] => return []
  | fuel + 1, env, expr :: exprs => do
      let value ← eval fuel env expr
      let values ← evalAll fuel env exprs
      return value :: values

/-- Calls a value with as many arguments as it takes. -/
def call : Nat → Value → List Value → Nat → Step Value
  | 0, _, _, _ => throw .outOfFuel
  | fuel + 1, callee, arguments, line =>
      match callee with
      | .native native => callNative native arguments line
      | .function id => do
          match ← ask fun state => state.functions[id]? with
          | some function => invoke fuel function arguments
          | none => fail .notCallable line
      | .classRef id => do
          let object ← addObject ⟨id, .empty⟩
          match ← ask fun state => state.method? id initializerName with
          | some method =>
              let initializer ← bindMethod method object
              let _ ← invoke fuel initializer arguments
              return .object object
          | none => return .object object
      | _ => fail .notCallable line

/-- Carries out the body of a function.  An initializer gives back its
instance. -/
def invoke : Nat → Function → List Value → Step Value
  | 0, _, _ => throw .outOfFuel
  | fuel + 1, function, arguments => do
      let env ←
        bindParams function.env (function.declaration.params.zip arguments)
      let completion ← execAll fuel env function.declaration.body
      if function.initializer then readName function.env ⟨"this", 0⟩
      else
        match completion with
        | .normal => return .nil
        | .returned value => return value

/-- Carries out a statement, which declares nothing for what follows it. -/
def exec : Nat → Env → Stmt → Step Completion
  | 0, _, _ => throw .outOfFuel
  | fuel + 1, env, stmt =>
      match stmt with
      | .expression expr => do
          let _ ← eval fuel env expr
          return .normal
      | .print expr => do
          let value ← eval fuel env expr
          print value
          return .normal
      | .ret _ none => return .returned .nil
      | .ret _ (some value) => do
          let value ← eval fuel env value
          return .returned value
      | .block body => execAll fuel env.inner body
      | .branch condition thenBranch elseBranch => do
          let value ← eval fuel env condition
          if value.isTruthy then exec fuel env thenBranch
          else match elseBranch with
            | some elseBranch => exec fuel env elseBranch
            | none => return .normal
      | .loop condition body => repeatWhile fuel env condition body
      | .forLoop initializer condition increment body => do
          let env ← enterLoop (eval fuel env.inner) env.inner initializer
          repeatFor fuel env condition increment body

/-- Carries out declarations in order, up to a `return`; each one sees what the
ones in front of it have declared. -/
def execAll : Nat → Env → List Decl → Step Completion
  | 0, _, _ => throw .outOfFuel
  | _ + 1, _, [] => return .normal
  | fuel + 1, env, decl :: decls =>
      match decl with
      | .var name value => do
          let env ← declareVariable (eval fuel env) env name value
          execAll fuel env decls
      | .function declaration => do
          let env ← declareFunction env declaration
          execAll fuel env decls
      | .classDecl name superclass methods => do
          let env ← declareClass (eval fuel) env name superclass methods
          execAll fuel env decls
      | .statement stmt => do
          match ← exec fuel env stmt with
          | .normal => execAll fuel env decls
          | .returned value => return .returned value

/-- Carries out the rounds of a `while` loop. -/
def repeatWhile : Nat → Env → Expr → Stmt → Step Completion
  | 0, _, _, _ => throw .outOfFuel
  | fuel + 1, env, condition, body => do
      let value ← eval fuel env condition
      if value.isTruthy then
        match ← exec fuel env body with
        | .normal => repeatWhile fuel env condition body
        | .returned value => return .returned value
      else return .normal

/-- Carries out the rounds of a `for` loop. -/
def repeatFor :
    Nat → Env → Option Expr → Option Expr → Stmt → Step Completion
  | 0, _, _, _, _ => throw .outOfFuel
  | fuel + 1, env, condition, increment, body => do
      if ← goesOn (eval fuel env) condition then
        match ← exec fuel env body with
        | .normal =>
            advance (eval fuel env) increment
            repeatFor fuel env condition increment body
        | .returned value => return .returned value
      else return .normal

end

end Step

/-- Runs a program.  What was written is flushed at the end, and before a
failure of the program is reported. -/
def State.run (fuel : Nat) (state : State) (program : Program) :
    Outcome × State :=
  match Step.execAll fuel .top program state with
  | .ok _ state => state.flushed .finished
  | .error (.fault e) state => state.flushed (.failed [.runtime e])
  | .error halt state => (.ofHalt halt, state)

end Surface
end LoxLang
