import LoxLang.Session

/-!
# Names by locations

The state of a run without distances and without frames, and the steps that do
not depend on statements.  What the names around a place stand for is an
environment: a map from local names to locations, which is never changed, only
extended.  Each declaration that is carried out and each parameter that is
bound takes a new location.  A function keeps the environment of its
declaration, and a name that the environment does not have is looked up among
the globals when it is evaluated.

What a declaration of a function looks like is left open, but for its name and
its parameters.
-/

namespace LoxLang
namespace Lexical

abbrev Location := Nat

/-- What the names around a place stand for. -/
structure Env where
  locations : Bindings Location
  /-- A declaration at this place is a local one. -/
  isLocal : Bool

namespace Env

/-- Outside of all blocks and functions. -/
def top : Env :=
  ⟨.empty, false⟩

/-- At the start of a scope. -/
def inner (env : Env) : Env :=
  { env with isLocal := true }

/-- With one more local name. -/
def bind (env : Env) (name : String) (location : Location) : Env :=
  ⟨env.locations.put name location, true⟩

def find? (env : Env) (name : String) : Option Location :=
  env.locations.find? name

end Env

/-- What can be told of a declaration without its body. -/
class Headed (D : Type) where
  name : D → Ident
  params : D → List Ident

/-- A function together with the environment of its declaration. -/
structure FunctionOf (D : Type) where
  declaration : D
  env : Env
  initializer : Bool

structure ClassOf (D : Type) where
  name : String
  superclass : Option ClassId
  methods : Bindings (FunctionOf D)

structure StateOf (D : Type) where
  /-- The value at each location. -/
  cells : Array Value
  globals : Bindings Value
  functions : Array (FunctionOf D)
  classes : Array (ClassOf D)
  objects : Array Object
  sink : Sink
  clock : Nat → Float
  ticks : Nat
  host : Nat → HostFunction

variable {D : Type}

namespace StateOf

/-- Nothing but the clock among the globals. -/
def start (sink : Sink) (clock : Nat → Float) : StateOf D where
  cells := #[]
  globals := Bindings.empty.put Native.clock.name (.native .clock)
  functions := #[]
  classes := #[]
  objects := #[]
  sink := sink
  clock := clock
  ticks := 0
  host := fun _ => .idle

/-- The method of a name that a class declares or inherits. -/
def method? (state : StateOf D) (id : ClassId) (name : String) :
    Option (FunctionOf D) :=
  match state.classes[id]? with
  | none => none
  | some cls =>
      match cls.methods.find? name with
      | some method => some method
      | none =>
          match cls.superclass with
          | some superclass =>
              if _h : superclass < id then state.method? superclass name
              else none
          | none => none
termination_by id

def field? (state : StateOf D) (id : ObjectId) (name : String) :
    Option Value :=
  state.objects[id]?.bind fun object => object.fields.find? name

def className (state : StateOf D) (id : ClassId) : String :=
  (state.classes[id]?.map ClassOf.name).getD ""

variable [Headed D]

/-- The number of arguments of a value that can be called. -/
def arity? (state : StateOf D) : Value → Option Nat
  | .native function => some function.arity
  | .function id =>
      some ((state.functions[id]?.map
        fun function => (Headed.params function.declaration).length).getD 0)
  | .classRef id =>
      some (((state.method? id initializerName).map
        fun method => (Headed.params method.declaration).length).getD 0)
  | _ => none

/-- A value as `print` writes it. -/
def printed (state : StateOf D) : Value → String
  | .function id =>
      "<fn " ++ (state.functions[id]?.map
        fun function => (Headed.name function.declaration).name).getD "" ++ ">"
  | .classRef id => state.className id
  | .object id =>
      (state.objects[id]?.map
        fun object => state.className object.classId).getD "" ++ " instance"
  | value => Store.empty.printed value

def view (state : StateOf D) : View :=
  ⟨state.printed, state.arity?, state.field?⟩

/-- Reports an outcome after what was written has been flushed. -/
def flushed (state : StateOf D) (outcome : Outcome) : Outcome × StateOf D :=
  match state.sink.flush with
  | .ok _ => (outcome, state)
  | .error e => (.failed [.output e], state)

end StateOf

abbrev StepOf (D : Type) := EStateM Halt (StateOf D)

namespace Step

variable {α : Type}

def fail (cause : RuntimeError.Cause) (line : Nat) : StepOf D α :=
  throw (.fault ⟨cause, line⟩)

def orMismatch (line : Nat) : Except Mismatch Value → StepOf D Value
  | .ok value => pure value
  | .error mismatch => fail (.typeMismatch mismatch) line

def ask (question : StateOf D → α) : StepOf D α := fun state =>
  .ok (question state) state

/-! ## Names -/

/-- Gives a name a new location. -/
def allocate (env : Env) (name : String) (value : Value) : StepOf D Env :=
  fun state => .ok (env.bind name state.cells.size)
    { state with cells := state.cells.push value }

/-- Declares a name: at the top level it is a global. -/
def declare (env : Env) (name : String) (value : Value) : StepOf D Env :=
  if env.isLocal then allocate env name value
  else fun state =>
    .ok env { state with globals := state.globals.put name value }

/-- Declares the parameters of a function. -/
def bindParams (env : Env) : List (Ident × Value) → StepOf D Env
  | [] => return env.inner
  | (param, value) :: rest => do
      let env ← allocate env param.name value
      bindParams env rest

/-- The value of a name: at its location, or else among the globals. -/
def readName (env : Env) (name : Ident) : StepOf D Value := fun state =>
  match env.find? name.name with
  | some location => .ok (state.cells.getD location .nil) state
  | none =>
      match state.globals.find? name.name with
      | some value => .ok value state
      | none => .error (.fault ⟨.undefinedVariable name.name, name.line⟩) state

/-- Changes the value of a name. -/
def writeName (env : Env) (name : Ident) (value : Value) : StepOf D Unit :=
  fun state =>
    match env.find? name.name with
    | some location =>
        .ok () { state with cells := state.cells.setIfInBounds location value }
    | none =>
        if state.globals.has name.name then
          .ok () { state with globals := state.globals.put name.name value }
        else
          .error (.fault ⟨.undefinedVariable name.name, name.line⟩) state

/-! ## Functions, classes and instances -/

def addFunction (function : FunctionOf D) : StepOf D FunctionId :=
  fun state => .ok state.functions.size
    { state with functions := state.functions.push function }

def addClass (cls : ClassOf D) : StepOf D ClassId := fun state =>
  .ok state.classes.size { state with classes := state.classes.push cls }

def addObject (object : Object) : StepOf D ObjectId := fun state =>
  .ok state.objects.size { state with objects := state.objects.push object }

def setProperty (object : ObjectId) (name : String) (value : Value) :
    StepOf D Unit := fun state =>
  .ok () { state with
    objects := state.objects.modify object fun object =>
      { object with fields := object.fields.put name value } }

/-- The method with `this` for an instance. -/
def bindMethod (method : FunctionOf D) (object : ObjectId) :
    StepOf D (FunctionOf D) := do
  let env ← allocate method.env "this" (.object object)
  return { method with env := env }

def methodValue (method : FunctionOf D) (object : ObjectId) :
    StepOf D Value := do
  let bound ← bindMethod method object
  let id ← addFunction bound
  return .function id

def getProperty (object : ObjectId) (name : Ident) : StepOf D Value := do
  match ← ask fun state => state.field? object name.name with
  | some value => return value
  | none =>
      match ← ask fun state => state.objects[object]?.bind fun o =>
          state.method? o.classId name.name with
      | some method => methodValue method object
      | none => fail (.undefinedProperty name.name) name.line

/-- A method of the superclass, for the instance at hand. -/
def superMethod (env : Env) (line : Nat) (method : Ident) :
    StepOf D Value := do
  let superclass ← readName env ⟨"super", line⟩
  let object ← readName env ⟨"this", line⟩
  match superclass, object with
  | .classRef superclass, .object object =>
      match ← ask fun state => state.method? superclass method.name with
      | some found => methodValue found object
      | none => fail (.undefinedProperty method.name) method.line
  | _, _ => fail .notAnInstance line

/-! ## Declarations, output and the host -/

variable [Headed D]

def methodTable (env : Env) (methods : List D) : Bindings (FunctionOf D) :=
  methods.foldl
    (fun table method =>
      table.put (Headed.name method).name
        ⟨method, env, (Headed.name method).name = initializerName⟩)
    .empty

/-- Declares a function, whose body sees its own name: the name is bound to
the function that is made next. -/
def declareFunction (env : Env) (declaration : D) : StepOf D Env := do
  let id ← ask fun state => state.functions.size
  let env ← declare env (Headed.name declaration).name (.function id)
  let _ ← addFunction ⟨declaration, env, false⟩
  return env

/-- Makes a class whose name is already declared, and gives it its name. -/
def declareClass (env : Env) (name : Ident) (superclass : Option ClassId)
    (methods : List D) : StepOf D Unit := do
  let methodEnv ← match superclass with
    | none => pure env
    | some id => allocate env "super" (.classRef id)
  let id ← addClass ⟨name.name, superclass, methodTable methodEnv methods⟩
  writeName env name (.classRef id)

def print (value : Value) : StepOf D Unit := fun state =>
  let (result, sink) := state.sink.write (state.printed value ++ "\n")
  match result with
  | .ok _ => .ok () { state with sink := sink }
  | .error e => .error (.output e) { state with sink := sink }

def callNative (native : Native) (arguments : List Value) (line : Nat) :
    StepOf D Value :=
  match native with
  | .clock => fun state =>
      .ok (.number (state.clock state.ticks))
        { state with ticks := state.ticks + 1 }
  | .lent id _ _ => do
      match ← ask fun state => (state.host id).call state.view arguments with
      | .ok value => return value
      | .error message => fail (.native message) line

end Step
end Lexical
end LoxLang
