import LoxLang.Run.Sink
import LoxLang.Run.Store
import LoxLang.Scope.Distance

/-!
# The machine

What a running program works on, and the steps it is made of.  A step gives a
value or halts, and in both cases leaves a machine behind.
-/

namespace LoxLang

structure Machine where
  store : Store
  /-- The outermost frame. -/
  globals : FrameId
  /-- The frame of the scope that is being executed. -/
  current : FrameId
  distances : Distances
  sink : Sink
  /-- The readings of the clock, in order. -/
  clock : Nat → Float
  ticks : Nat
  /-- What the functions of the host do, each known by its number. -/
  host : Nat → HostFunction

/-- Why a step does not give a value. -/
inductive Halt where
  | fault (e : RuntimeError)
  | output (e : OutputError)
  | defect (d : Defect)
  /-- The bound on the depth of the run was too low. -/
  | outOfFuel
deriving DecidableEq, Repr

/-- How a statement ends when nothing halts it. -/
inductive Completion where
  | normal
  | returned (value : Value)
deriving DecidableEq, Repr

abbrev Step := EStateM Halt Machine

namespace Machine

/-- A machine that prints to `sink`, with nothing but the clock in its
globals. -/
def start (sink : Sink) (clock : Nat → Float) : Machine :=
  let (globals, store) :=
    Store.empty.addFrame
      ⟨none, Bindings.empty.put Native.clock.name (.native .clock)⟩
  { store := store, globals := globals, current := globals,
    distances := .empty, sink := sink, clock := clock, ticks := 0,
    host := fun _ => .idle }

def extend (machine : Machine) (distances : Distances) : Machine :=
  { machine with distances := machine.distances.merge distances }

/-- The frame that binds the name at a place. -/
def holder (machine : Machine) (id : PlaceId) (name : Ident) :
    Except Halt FrameId :=
  match machine.distances.find? id with
  | some distance =>
      (machine.store.slot machine.current distance name.name).mapError .defect
  | none => (machine.store.holder machine.globals name).mapError .fault

end Machine

namespace Step

def fail (cause : RuntimeError.Cause) (line : Nat) : Step α :=
  throw (.fault ⟨cause, line⟩)

/-- The result of an operation that may show a defect. -/
def orDefect : Except Defect α → Step α
  | .ok a => pure a
  | .error d => throw (.defect d)

/-- Reads something off the machine. -/
def ask (question : Machine → α) : Step α := fun machine =>
  .ok (question machine) machine

/-- Changes the store and gives what the change gives. -/
def onStore (change : Store → α × Store) : Step α := fun machine =>
  let (a, store) := change machine.store
  .ok a { machine with store := store }

def define (name : String) (value : Value) : Step Unit := fun machine =>
  .ok ()
    { machine with store := machine.store.define machine.current name value }

def addFrame (parent : Option FrameId) (names : Bindings Value) :
    Step FrameId :=
  onStore fun store => store.addFrame ⟨parent, names⟩

/-- Makes another frame the current one, and gives the one that was. -/
def turnTo (frame : FrameId) : Step FrameId := fun machine =>
  .ok machine.current { machine with current := frame }

/-- Takes a step in another frame, and comes back to the current one however the
step ends. -/
def inFrame (frame : FrameId) (action : Step α) : Step α := fun machine =>
  let outer := machine.current
  match action { machine with current := frame } with
  | .ok a machine => .ok a { machine with current := outer }
  | .error halt machine => .error halt { machine with current := outer }

def distance? (id : PlaceId) : Step (Option Nat) :=
  ask fun machine => machine.distances.find? id

/-- The value of a name at a place: in the frame at its distance, or else among
the globals. -/
def readName (id : PlaceId) (name : Ident) : Step Value := fun machine =>
  match machine.distances.find? id with
  | some distance =>
      match machine.store.readAt machine.current distance name.name with
      | .ok value => .ok value machine
      | .error d => .error (.defect d) machine
  | none =>
      match machine.store.lookup machine.globals name with
      | .ok value => .ok value machine
      | .error e => .error (.fault e) machine

def writeName (id : PlaceId) (name : Ident) (value : Value) :
    Step Unit := fun machine =>
  match machine.holder id name with
  | .ok holder =>
      .ok ()
        { machine with store := machine.store.define holder name.name value }
  | .error halt => .error halt machine

/-- Changes the value of a name as seen from the current frame. -/
def assignHere (name : Ident) (value : Value) : Step Unit := fun machine =>
  match machine.store.holder machine.current name with
  | .ok holder =>
      .ok ()
        { machine with store := machine.store.define holder name.name value }
  | .error e => .error (.fault e) machine

def write (text : String) : Step Unit := fun machine =>
  let (result, sink) := machine.sink.write text
  match result with
  | .ok _ => .ok () { machine with sink := sink }
  | .error e => .error (.output e) { machine with sink := sink }

/-- Writes a value on a line of its own. -/
def print (value : Value) : Step Unit := do
  let text ← ask fun machine => machine.store.printed value
  write (text ++ "\n")

def flush : Step Unit := fun machine =>
  match machine.sink.flush with
  | .ok _ => .ok () machine
  | .error e => .error (.output e) machine

/-- Takes the next reading of the clock. -/
def readClock : Step Value := fun machine =>
  .ok (.number (machine.clock machine.ticks))
    { machine with ticks := machine.ticks + 1 }

/-- The function with `this` bound to an instance, in a new frame around the
body. -/
def bindMethod (method : Function) (object : ObjectId) : Step Function := do
  let frame ←
    addFrame (some method.closure) (Bindings.empty.put "this" (.object object))
  return { method with closure := frame }

def methodValue (method : Function) (object : ObjectId) : Step Value := do
  let bound ← bindMethod method object
  let id ← onStore fun store => store.addFunction bound
  return .function id

/-- A field or method of an instance. -/
def getProperty (object : ObjectId) (name : Ident) : Step Value := do
  match ← ask fun machine => machine.store.field? object name.name with
  | some value => return value
  | none =>
      match ← ask fun machine => machine.store.objects[object]?.bind fun o =>
          machine.store.method? o.classId name.name with
      | some method => methodValue method object
      | none => fail (.undefinedProperty name.name) name.line

def setProperty (object : ObjectId) (name : String) (value : Value) :
    Step Unit := fun machine =>
  .ok () { machine with store := machine.store.setField object name value }

end Step
end LoxLang
