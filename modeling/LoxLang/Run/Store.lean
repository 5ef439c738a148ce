import LoxLang.Bindings
import LoxLang.Number.Written
import LoxLang.Run.Fault
import LoxLang.Run.Value
import LoxLang.Text.Quoted

/-!
# The store

All objects of a run: the frames of executed scopes, functions, classes and
instances.  An object is known by the order in which it was made, and refers to
its enclosing frame or its superclass, which is older.  Objects are never
removed.
-/

namespace LoxLang

/-- The names of one executed scope, and the frame around it. -/
structure Frame where
  parent : Option FrameId
  names : Bindings Value

/-- A function together with the frame in which it was declared. -/
structure Function where
  declaration : FunctionDecl
  closure : FrameId
  initializer : Bool

/-- A class: its methods are those of the declaration, and then those of its
superclass. -/
structure Class where
  name : String
  superclass : Option ClassId
  methods : Bindings Function

structure Object where
  classId : ClassId
  fields : Bindings Value

/-- All objects of a run, each list in the order of creation. -/
structure Store where
  frames : Array Frame
  functions : Array Function
  classes : Array Class
  objects : Array Object

namespace Store

def empty : Store :=
  ⟨#[], #[], #[], #[]⟩

def addFrame (store : Store) (frame : Frame) : FrameId × Store :=
  (store.frames.size, { store with frames := store.frames.push frame })

def addFunction (store : Store) (function : Function) : FunctionId × Store :=
  (store.functions.size,
    { store with functions := store.functions.push function })

def addClass (store : Store) (cls : Class) : ClassId × Store :=
  (store.classes.size, { store with classes := store.classes.push cls })

def addObject (store : Store) (object : Object) : ObjectId × Store :=
  (store.objects.size, { store with objects := store.objects.push object })

def define (store : Store) (id : FrameId) (name : String) (value : Value) :
    Store :=
  { store with frames := store.frames.modify id fun frame =>
      { frame with names := frame.names.put name value } }

def local? (store : Store) (id : FrameId) (name : String) : Option Value :=
  store.frames[id]?.bind fun frame => frame.names.find? name

def parent? (store : Store) (id : FrameId) : Option FrameId :=
  store.frames[id]?.bind Frame.parent

/-- The nearest frame, from `id` outwards, that binds a name. -/
def holder? (store : Store) (id : FrameId) (name : String) : Option FrameId :=
  if (store.local? id name).isSome then some id
  else match store.parent? id with
    | some parent =>
        if _h : parent < id then store.holder? parent name else none
    | none => none
termination_by id

/-- The nearest frame that binds a name, which has to be there. -/
def holder (store : Store) (id : FrameId) (name : Ident) :
    Except RuntimeError FrameId :=
  match store.holder? id name.name with
  | some holder => .ok holder
  | none => .error ⟨.undefinedVariable name.name, name.line⟩

def lookup (store : Store) (id : FrameId) (name : Ident) :
    Except RuntimeError Value :=
  match (store.holder? id name.name).bind fun holder =>
      store.local? holder name.name with
  | some value => .ok value
  | none => .error ⟨.undefinedVariable name.name, name.line⟩

def assign (store : Store) (id : FrameId) (name : Ident) (value : Value) :
    Except RuntimeError Store :=
  match store.holder id name with
  | .ok holder => .ok (store.define holder name.name value)
  | .error e => .error e

/-- The frame that is `distance` steps outwards, or the number of steps left at
the outermost frame. -/
def ancestor (store : Store) (id : FrameId) : Nat → Except Nat FrameId
  | 0 => .ok id
  | distance + 1 =>
      match store.parent? id with
      | some parent => store.ancestor parent distance
      | none => .error (distance + 1)

/-- The frame at a distance that has to bind a name. -/
def slot (store : Store) (id : FrameId) (distance : Nat) (name : String) :
    Except Defect FrameId :=
  match store.ancestor id distance with
  | .error left => .error (.chainTooShort name left)
  | .ok holder =>
      if (store.local? holder name).isSome then .ok holder
      else .error (.missing name)

def readAt (store : Store) (id : FrameId) (distance : Nat) (name : String) :
    Except Defect Value :=
  match store.slot id distance name with
  | .error defect => .error defect
  | .ok holder =>
      match store.local? holder name with
      | some value => .ok value
      | none => .error (.missing name)

def writeAt (store : Store) (id : FrameId) (distance : Nat) (name : String)
    (value : Value) : Except Defect Store :=
  match store.slot id distance name with
  | .error defect => .error defect
  | .ok holder => .ok (store.define holder name value)

/-- The method of a name that a class declares or inherits. -/
def method? (store : Store) (id : ClassId) (name : String) : Option Function :=
  match store.classes[id]? with
  | none => none
  | some cls =>
      match cls.methods.find? name with
      | some method => some method
      | none =>
          match cls.superclass with
          | some superclass =>
              if _h : superclass < id then store.method? superclass name
              else none
          | none => none
termination_by id

def field? (store : Store) (id : ObjectId) (name : String) : Option Value :=
  store.objects[id]?.bind fun object => object.fields.find? name

def setField (store : Store) (id : ObjectId) (name : String) (value : Value) :
    Store :=
  { store with objects := store.objects.modify id fun object =>
      { object with fields := object.fields.put name value } }

def className (store : Store) (id : ClassId) : String :=
  (store.classes[id]?.map Class.name).getD ""

def objectClassName (store : Store) (id : ObjectId) : String :=
  (store.objects[id]?.map fun object => store.className object.classId).getD ""

/-- The name under which a function was declared. -/
def functionName (store : Store) (id : FunctionId) : String :=
  (store.functions[id]?.map
    fun function => function.declaration.name.name).getD ""

def functionArity (store : Store) (id : FunctionId) : Nat :=
  (store.functions[id]?.map
    fun function => function.declaration.params.length).getD 0

/-- The number of arguments that a class takes: those of its initializer. -/
def classArity (store : Store) (id : ClassId) : Nat :=
  ((store.method? id initializerName).map
    fun method => method.declaration.params.length).getD 0

/-- The number of arguments of a value that can be called. -/
def arity? (store : Store) : Value → Option Nat
  | .native function => some function.arity
  | .function id => some (store.functionArity id)
  | .classRef id => some (store.classArity id)
  | _ => none

/-- A value as `print` writes it. -/
def printed (store : Store) : Value → String
  | .nil => "nil"
  | .bool true => "true"
  | .bool false => "false"
  | .number value => Number.printed value
  | .string value => value
  | .native function => "<native fn " ++ function.name ++ ">"
  | .function id => "<fn " ++ store.functionName id ++ ">"
  | .classRef id => store.className id
  | .object id => store.objectClassName id ++ " instance"

/-- The names of an instance's fields in alphabetical order. -/
def fieldNames (store : Store) (id : ObjectId) : List String :=
  match store.objects[id]? with
  | some object => object.fields.names.mergeSort fun a b => decide (a ≤ b)
  | none => []

/-- A value in a form that tells texts and instances apart from other values. -/
def inspected (store : Store) : Value → String
  | .string value => Text.quoted value
  | .object id =>
      "Instance \x7b class: " ++ Text.quoted (store.objectClassName id) ++
        ", fields: [" ++
        ", ".intercalate ((store.fieldNames id).map Text.quoted) ++ "] \x7d"
  | value => store.printed value

end Store

/-- What can be told of a value without running anything. -/
structure Description where
  printed : String
  inspected : String
  truthy : Bool
  arity : Option Nat
deriving DecidableEq, Repr

def Store.describe (store : Store) (value : Value) : Description :=
  ⟨store.printed value, store.inspected value, value.isTruthy,
    store.arity? value⟩

/-! ## Functions of a host -/

/-- What a function of the host can find out about the values given to it. -/
structure View where
  printed : Value → String
  arity? : Value → Option Nat
  field? : ObjectId → String → Option Value

def Store.view (store : Store) : View :=
  ⟨store.printed, store.arity?, store.field?⟩

/-- A function of the host gives a value or fails with a message.  It makes no
references: those that it gives were given to it, or stand in a field. -/
structure HostFunction where
  call : View → List Value → Except String Value
  gives : ∀ {view arguments value}, call view arguments = .ok value →
    value.refers = false ∨ value ∈ arguments ∨
      ∃ object name, view.field? object name = some value

/-- The function that gives nothing. -/
def HostFunction.idle : HostFunction where
  call _ _ := .ok .nil
  gives h := by
    cases h
    exact .inl rfl

end LoxLang
