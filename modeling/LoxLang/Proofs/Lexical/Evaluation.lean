import LoxLang.Proofs.Lexical.State

/-!
# Lexical scoping by locations

A second way to run a program: by environments and locations in the place of
distances and frames.
-/

namespace LoxLang
namespace Lexical

instance : Headed FunctionDecl :=
  ⟨FunctionDecl.name, FunctionDecl.params⟩

@[simp] theorem headed_name (declaration : FunctionDecl) :
    Headed.name declaration = declaration.name := rfl

@[simp] theorem headed_params (declaration : FunctionDecl) :
    Headed.params declaration = declaration.params := rfl

abbrev Function := FunctionOf FunctionDecl

abbrev Class := ClassOf FunctionDecl

abbrev State := StateOf FunctionDecl

abbrev State.start (sink : Sink) (clock : Nat → Float) : State :=
  StateOf.start sink clock

/-- How a statement ends when nothing halts it; what follows it sees the names
that it has declared. -/
inductive Completion where
  | normal (env : Env)
  | returned (value : Value)

/-- At the end of a scope, back in the environment around it. -/
def Completion.leave (env : Env) : Completion → Completion
  | .normal _ => .normal env
  | .returned value => .returned value

abbrev Step := StepOf FunctionDecl

namespace Step

mutual

/-- The value of an expression. -/
def eval : Nat → Env → Expr → Step Value
  | 0, _, _ => throw .outOfFuel
  | fuel + 1, env, expr =>
      match expr with
      | .literal value => return Value.ofLiteral value
      | .group inner => eval fuel env inner
      | .unary op operand line => do
          let value ← eval fuel env operand
          orMismatch line (Value.unary op value)
      | .binary left op right line => do
          let a ← eval fuel env left
          let b ← eval fuel env right
          orMismatch line (Value.binary a op b)
      | .logical left op right => do
          let value ← eval fuel env left
          if Value.decides op value then return value else eval fuel env right
      | .read _ name => readName env name
      | .assign _ name value => do
          let value ← eval fuel env value
          writeName env name value
          return value
      | .call callee line arguments => do
          let callee ← eval fuel env callee
          let values ← evalAll fuel env arguments
          match ← ask fun state => state.arity? callee with
          | none => fail .notCallable line
          | some arity =>
              if values.length = arity then call fuel callee values line
              else fail (.arityMismatch arity values.length) line
      | .get object name => do
          match ← eval fuel env object with
          | .object id => getProperty id name
          | _ => fail .notAnInstance name.line
      | .set object name value => do
          match ← eval fuel env object with
          | .object id =>
              let value ← eval fuel env value
              setProperty id name.name value
              return value
          | _ => fail .notAnInstance name.line
      | .this _ line => readName env ⟨"this", line⟩
      | .super _ line method => superMethod env line method

/-- The values of expressions, from left to right. -/
def evalAll : Nat → Env → List Expr → Step (List Value)
  | 0, _, _ => throw .outOfFuel
  | _ + 1, _, [] => return []
  | fuel + 1, env, expr :: exprs => do
      let value ← eval fuel env expr
      let values ← evalAll fuel env exprs
      return value :: values

/-- Calls a value with as many arguments as it takes. -/
def call : Nat → Value → List Value → Nat → Step Value
  | 0, _, _, _ => throw .outOfFuel
  | fuel + 1, callee, arguments, line =>
      match callee with
      | .native native => callNative native arguments line
      | .function id => do
          match ← ask fun state => state.functions[id]? with
          | some function => invoke fuel function arguments
          | none => fail .notCallable line
      | .classRef id => do
          let object ← addObject ⟨id, .empty⟩
          match ← ask fun state => state.method? id initializerName with
          | some method =>
              let initializer ← bindMethod method object
              let _ ← invoke fuel initializer arguments
              return .object object
          | none => return .object object
      | _ => fail .notCallable line

/-- Carries out the body of a function.  An initializer gives back its
instance. -/
def invoke : Nat → Function → List Value → Step Value
  | 0, _, _ => throw .outOfFuel
  | fuel + 1, function, arguments => do
      let env ←
        bindParams function.env (function.declaration.params.zip arguments)
      let completion ← execAll fuel env function.declaration.body
      if function.initializer then readName function.env ⟨"this", 0⟩
      else
        match completion with
        | .normal _ => return .nil
        | .returned value => return value

/-- Carries out a statement. -/
def exec : Nat → Env → Stmt → Step Completion
  | 0, _, _ => throw .outOfFuel
  | fuel + 1, env, stmt =>
      match stmt with
      | .expression expr => do
          let _ ← eval fuel env expr
          return .normal env
      | .print expr => do
          let value ← eval fuel env expr
          print value
          return .normal env
      | .var name none => do
          let env ← declare env name.name .nil
          return .normal env
      | .var name (some initializer) => do
          let value ← eval fuel env initializer
          let env ← declare env name.name value
          return .normal env
      | .block body => do
          let completion ← execAll fuel env.inner body
          return completion.leave env
      | .branch condition thenBranch elseBranch => do
          let value ← eval fuel env condition
          if value.isTruthy then
            let completion ← exec fuel env thenBranch
            return completion.leave env
          else match elseBranch with
            | some elseBranch =>
                let completion ← exec fuel env elseBranch
                return completion.leave env
            | none => return .normal env
      | .loop condition body => repeatWhile fuel env condition body
      | .function declaration => do
          let env ← declareFunction env declaration
          return .normal env
      | .ret _ none => return .returned .nil
      | .ret _ (some value) => do
          let value ← eval fuel env value
          return .returned value
      | .classDecl name superclass methods => do
          let env ← declare env name.name .nil
          match superclass with
          | none => declareClass env name none methods
          | some superclass =>
              match ← eval fuel env superclass with
              | .classRef id => declareClass env name (some id) methods
              | _ => fail (.typeMismatch .classAsSuperclass) name.line
          return .normal env

/-- Carries out statements in order, up to a `return`; each one sees what the
ones in front of it have declared. -/
def execAll : Nat → Env → List Stmt → Step Completion
  | 0, _, _ => throw .outOfFuel
  | _ + 1, env, [] => return .normal env
  | fuel + 1, env, stmt :: stmts => do
      match ← exec fuel env stmt with
      | .normal env => execAll fuel env stmts
      | .returned value => return .returned value

/-- Carries out the rounds of a loop. -/
def repeatWhile : Nat → Env → Expr → Stmt → Step Completion
  | 0, _, _, _ => throw .outOfFuel
  | fuel + 1, env, condition, body => do
      let value ← eval fuel env condition
      if value.isTruthy then
        match ← exec fuel env body with
        | .normal _ => repeatWhile fuel env condition body
        | .returned value => return .returned value
      else return .normal env

end

end Step

/-- Runs a program.  What was written is flushed at the end, and before a
failure of the program is reported. -/
def State.run (fuel : Nat) (state : State) (program : Program) :
    Outcome × State :=
  match Step.execAll fuel .top program state with
  | .ok _ state => state.flushed .finished
  | .error (.fault e) state => state.flushed (.failed [.runtime e])
  | .error halt state => (.ofHalt halt, state)

end Lexical
end LoxLang
