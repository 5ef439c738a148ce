import LoxLang.Run.Machine

/-!
# Evaluation

`eval` gives the value of an expression, `exec` carries out a statement.  Both
follow the tree; a call continues in the body of the function, and a loop in its
next round.  The first argument bounds how deep the steps nest, so that every
run comes to an end: where it is too low, the run halts with `outOfFuel`.
-/

namespace LoxLang

namespace Value

def unary (op : UnaryOp) (operand : Value) : Except Mismatch Value :=
  match op, operand with
  | .negate, .number x => .ok (.number (-x))
  | .plus, .number x => .ok (.number x)
  | .not, .bool b => .ok (.bool !b)
  | .not, _ => .error .booleanOperand
  | _, _ => .error .numberOperand

def arithmetic (op : BinaryOp) (a b : Float) : Value :=
  match op with
  | .add => .number (a + b)
  | .subtract => .number (a - b)
  | .multiply => .number (a * b)
  | .divide => .number (a / b)
  | .modulo => .number (Number.flooredRemainder a b)
  | .equal => .bool (a == b)
  | .notEqual => .bool !(a == b)
  | .less => .bool (a < b)
  | .lessEqual => .bool (a ≤ b)
  | .greater => .bool (b < a)
  | .greaterEqual => .bool (b ≤ a)

/-- The value of an operator.  All values can be compared for equality, texts
can be joined, and everything else is for numbers. -/
def binary (left : Value) (op : BinaryOp) (right : Value) :
    Except Mismatch Value :=
  match op, left, right with
  | .equal, a, b => .ok (.bool (a.equals b))
  | .notEqual, a, b => .ok (.bool !(a.equals b))
  | op, .number a, .number b => .ok (arithmetic op a b)
  | .add, .string a, .string b => .ok (.string (a ++ b))
  | .add, _, _ => .error .numberOrStringOperands
  | _, _, _ => .error .numberOperands

/-- The left operand alone decides a logical expression. -/
def decides : LogicalOp → Value → Bool
  | .or, left => left.isTruthy
  | .and, left => !left.isTruthy

end Value

namespace Step

/-- The result of an operator, or a failure on the given line. -/
def orMismatch (line : Nat) : Except Mismatch Value → Step Value
  | .ok value => pure value
  | .error mismatch => fail (.typeMismatch mismatch) line

/-- Calls a function of the host.  A message of failure belongs to the line of
the call. -/
def callLent (id : Nat) (arguments : List Value) (line : Nat) :
    Step Value := do
  match ← ask fun machine =>
      (machine.host id).call machine.store.view arguments with
  | .ok value => return value
  | .error message => fail (.native message) line

def callNative (native : Native) (arguments : List Value) (line : Nat) :
    Step Value :=
  match native with
  | .clock => readClock
  | .lent id _ _ => callLent id arguments line

/-- The distance one step inside of another.  Distances are words of 64 bits, so
one less than zero is the largest of them. -/
def innerDistance (distance : Nat) : Nat :=
  if distance = 0 then Nat.pow 2 64 - 1 else distance - 1

/-- A method of the superclass, bound to the instance at hand.  The scope of
`this` lies just inside the one of `super`. -/
def superMethod (id : PlaceId) (line : Nat) (method : Ident) : Step Value := do
  match ← distance? id with
  | none => fail (.undefinedVariable "super") line
  | some distance =>
      let superclass ← orDefect =<< ask fun machine =>
        machine.store.readAt machine.current distance "super"
      let object ← orDefect =<< ask fun machine =>
        machine.store.readAt machine.current (innerDistance distance) "this"
      match superclass, object with
      | .classRef superclass, .object object =>
          match ← ask fun machine =>
              machine.store.method? superclass method.name with
          | some found => methodValue found object
          | none => fail (.undefinedProperty method.name) method.line
      | _, _ => throw (.defect (.superSlots line))

/-- The methods of a class declaration; of two with one name the later one
counts. -/
def methodTable (closure : FrameId) (methods : List FunctionDecl) :
    Bindings Function :=
  methods.foldl
    (fun table method =>
      table.put method.name.name
        ⟨method, closure, method.name.name = initializerName⟩)
    .empty

/-- The names of the parameters, bound to the arguments in order. -/
def bindParams (params : List Ident) (arguments : List Value) :
    Bindings Value :=
  (params.zip arguments).foldl
    (fun names (param, value) => names.put param.name value) .empty

def declareFunction (declaration : FunctionDecl) : Step Unit := do
  let closure ← ask Machine.current
  let id ← onStore fun store => store.addFunction ⟨declaration, closure, false⟩
  define declaration.name.name (.function id)

/-- With a superclass, the methods have a frame around them that binds `super`.
It is made the current one, and the frame to come back to is given. -/
def enterSuper : Option ClassId → Step (Option FrameId)
  | none => return none
  | some id => do
      let current ← ask Machine.current
      let frame ←
        addFrame (some current) (Bindings.empty.put "super" (.classRef id))
      let enclosing ← turnTo frame
      return some enclosing

def leaveSuper : Option FrameId → Step Unit
  | none => return ()
  | some enclosing => do
      let _ ← turnTo enclosing

/-- Makes a class and gives it its name in the current frame. -/
def declareClass (name : Ident) (superclass : Option ClassId)
    (methods : List FunctionDecl) : Step Unit := do
  let enclosing ← enterSuper superclass
  let closure ← ask Machine.current
  let id ← onStore fun store =>
    store.addClass ⟨name.name, superclass, methodTable closure methods⟩
  leaveSuper enclosing
  assignHere name (.classRef id)

mutual

def eval : Nat → Expr → Step Value
  | 0, _ => throw .outOfFuel
  | fuel + 1, expr =>
      match expr with
      | .literal value => return Value.ofLiteral value
      | .group inner => eval fuel inner
      | .unary op operand line => do
          let value ← eval fuel operand
          orMismatch line (Value.unary op value)
      | .binary left op right line => do
          let a ← eval fuel left
          let b ← eval fuel right
          orMismatch line (Value.binary a op b)
      | .logical left op right => do
          let value ← eval fuel left
          if Value.decides op value then return value else eval fuel right
      | .read id name => readName id name
      | .assign id name value => do
          let value ← eval fuel value
          writeName id name value
          return value
      | .call callee line arguments => do
          let callee ← eval fuel callee
          let values ← evalAll fuel arguments
          match ← ask fun machine => machine.store.arity? callee with
          | none => fail .notCallable line
          | some arity =>
              if values.length = arity then call fuel callee values line
              else fail (.arityMismatch arity values.length) line
      | .get object name => do
          match ← eval fuel object with
          | .object id => getProperty id name
          | _ => fail .notAnInstance name.line
      | .set object name value => do
          match ← eval fuel object with
          | .object id =>
              let value ← eval fuel value
              setProperty id name.name value
              return value
          | _ => fail .notAnInstance name.line
      | .this id line => readName id ⟨"this", line⟩
      | .super id line method => superMethod id line method

/-- The values of expressions, from left to right. -/
def evalAll : Nat → List Expr → Step (List Value)
  | 0, _ => throw .outOfFuel
  | _ + 1, [] => return []
  | fuel + 1, expr :: exprs => do
      let value ← eval fuel expr
      let values ← evalAll fuel exprs
      return value :: values

/-- Calls a value with as many arguments as it takes. -/
def call : Nat → Value → List Value → Nat → Step Value
  | 0, _, _, _ => throw .outOfFuel
  | fuel + 1, callee, arguments, line =>
      match callee with
      | .native native => callNative native arguments line
      | .function id => do
          match ← ask fun machine => machine.store.functions[id]? with
          | some function => invoke fuel function arguments
          | none => fail .notCallable line
      | .classRef id => do
          let object ← onStore fun store => store.addObject ⟨id, .empty⟩
          match ← ask fun machine =>
              machine.store.method? id initializerName with
          | some method =>
              let initializer ← bindMethod method object
              let _ ← invoke fuel initializer arguments
              return .object object
          | none => return .object object
      | _ => fail .notCallable line

/-- Carries out the body of a function in a new frame.  An initializer gives
back its instance. -/
def invoke : Nat → Function → List Value → Step Value
  | 0, _, _ => throw .outOfFuel
  | fuel + 1, function, arguments => do
      let frame ←
        addFrame (some function.closure)
          (bindParams function.declaration.params arguments)
      let completion ← inFrame frame (execAll fuel function.declaration.body)
      if function.initializer then
        orDefect =<< ask fun machine =>
          machine.store.readAt function.closure 0 "this"
      else
        match completion with
        | .normal => return .nil
        | .returned value => return value

def exec : Nat → Stmt → Step Completion
  | 0, _ => throw .outOfFuel
  | fuel + 1, stmt =>
      match stmt with
      | .expression expr => do
          let _ ← eval fuel expr
          return .normal
      | .print expr => do
          let value ← eval fuel expr
          print value
          return .normal
      | .var name none => do
          define name.name .nil
          return .normal
      | .var name (some initializer) => do
          let value ← eval fuel initializer
          define name.name value
          return .normal
      | .block body => do
          let current ← ask Machine.current
          let frame ← addFrame (some current) .empty
          inFrame frame (execAll fuel body)
      | .branch condition thenBranch elseBranch => do
          let value ← eval fuel condition
          if value.isTruthy then exec fuel thenBranch
          else match elseBranch with
            | some elseBranch => exec fuel elseBranch
            | none => return .normal
      | .loop condition body => repeatWhile fuel condition body
      | .function declaration => do
          declareFunction declaration
          return .normal
      | .ret _ none => return .returned .nil
      | .ret _ (some value) => do
          let value ← eval fuel value
          return .returned value
      | .classDecl name superclass methods => do
          define name.name .nil
          match superclass with
          | none => declareClass name none methods
          | some superclass =>
              match ← eval fuel superclass with
              | .classRef id => declareClass name (some id) methods
              | _ => fail (.typeMismatch .classAsSuperclass) name.line
          return .normal

/-- Carries out statements in order, up to a `return`. -/
def execAll : Nat → List Stmt → Step Completion
  | 0, _ => throw .outOfFuel
  | _ + 1, [] => return .normal
  | fuel + 1, stmt :: stmts => do
      match ← exec fuel stmt with
      | .normal => execAll fuel stmts
      | .returned value => return .returned value

def repeatWhile : Nat → Expr → Stmt → Step Completion
  | 0, _, _ => throw .outOfFuel
  | fuel + 1, condition, body => do
      let value ← eval fuel condition
      if value.isTruthy then
        match ← exec fuel body with
        | .normal => repeatWhile fuel condition body
        | .returned value => return .returned value
      else return .normal

end

/-- Runs a program.  What was written is flushed at the end, and before a
failure of the program is reported; a failed write is reported at once. -/
def runProgram (fuel : Nat) (program : Program) : Step Unit := fun machine =>
  match execAll fuel program machine with
  | .ok .normal machine => flush machine
  | .ok (.returned _) machine => .error (.defect .strayReturn) machine
  | .error (.fault e) machine =>
      match flush machine with
      | .ok _ machine => .error (.fault e) machine
      | .error halt machine => .error halt machine
  | .error halt machine => .error halt machine

end Step
end LoxLang
