import LoxLang.Proofs.Lexical.Simulation
import LoxLang.Proofs.Surface.Evaluation

/-!
# States of a program and of its expansion

When a program is run as it is written, and its expansion beside it, their
states differ only in the declarations that functions and classes keep.  The
two runs agree if they end in the same way and in such states.  All steps that
do not depend on statements agree, one by one.
-/

namespace LoxLang

namespace Bindings

variable {α β : Type}

/-- The same names with other values. -/
def map (f : α → β) (bindings : Bindings α) : Bindings β :=
  ⟨bindings.entries.map fun entry => (entry.1, f entry.2)⟩

theorem find?_map (f : α → β) (bindings : Bindings α) (name : String) :
    (bindings.map f).find? name = (bindings.find? name).map f := by
  obtain ⟨entries⟩ := bindings
  simp only [map, find?]
  induction entries with
  | nil => rfl
  | cons entry entries ih =>
      rw [List.map_cons, List.lookup_cons, List.lookup_cons, ih]
      by_cases hname : name == entry.1
      · simp [hname]
      · simp [hname]

theorem map_put
    (f : α → β) (bindings : Bindings α) (name : String) (value : α) :
    (bindings.put name value).map f = (bindings.map f).put name (f value) := by
  obtain ⟨entries⟩ := bindings
  simp only [map, put, mk.injEq]
  induction entries with
  | nil => rfl
  | cons entry entries ih =>
      rw [putEntry, List.map_cons, putEntry]
      by_cases hname : entry.1 = name
      · simp [hname]
      · simp [hname, ih]

end Bindings

namespace Surface

open Lexical (Env StateOf)

/-! ## States -/

theorem headed_name_expand (declaration : FunctionDecl) :
    Lexical.Headed.name declaration.expand = Lexical.Headed.name declaration :=
  declaration.name_expand

theorem headed_params_expand (declaration : FunctionDecl) :
    Lexical.Headed.params declaration.expand =
      Lexical.Headed.params declaration :=
  declaration.params_expand

def Function.expand (function : Function) : Lexical.Function :=
  ⟨function.declaration.expand, function.env, function.initializer⟩

def Class.expand (cls : Class) : Lexical.Class :=
  ⟨cls.name, cls.superclass, cls.methods.map Function.expand⟩

namespace State

/-- The state of the expansion. -/
def expand (state : State) : Lexical.State where
  cells := state.cells
  globals := state.globals
  functions := state.functions.map Function.expand
  classes := state.classes.map Class.expand
  objects := state.objects
  sink := state.sink
  clock := state.clock
  ticks := state.ticks
  host := state.host

variable (state : State)

theorem functions_expand (id : FunctionId) :
    state.expand.functions[id]? =
      state.functions[id]?.map Function.expand :=
  Array.getElem?_map

private theorem classes_expand (id : ClassId) :
    state.expand.classes[id]? = state.classes[id]?.map Class.expand :=
  Array.getElem?_map

theorem method?_expand (id : ClassId) (name : String) :
    state.expand.method? id name =
      (state.method? id name).map Function.expand := by
  induction id using Nat.strongRecOn with
  | ind id ih =>
      rw [StateOf.method?, StateOf.method?, classes_expand]
      cases state.classes[id]? with
      | none => rfl
      | some cls =>
          simp only [Option.map_some, Class.expand, Bindings.find?_map]
          cases cls.methods.find? name with
          | some method => rfl
          | none =>
              simp only [Option.map_none]
              cases cls.superclass with
              | none => rfl
              | some superclass =>
                  by_cases hlt : superclass < id
                  · simp only [hlt, dif_pos, ih superclass hlt]
                  · simp only [hlt, dif_neg, not_false_eq_true,
                      Option.map_none]

private theorem className_expand (id : ClassId) :
    state.expand.className id = state.className id := by
  rw [StateOf.className, StateOf.className, classes_expand, Option.map_map]
  rfl

theorem arity?_expand (value : Value) :
    state.expand.arity? value = state.arity? value := by
  cases value with
  | function id =>
      simp only [StateOf.arity?, functions_expand,
        Option.map_map, Function.comp_def, Function.expand,
        headed_params_expand]
  | classRef id =>
      simp only [StateOf.arity?, method?_expand,
        Option.map_map, Function.comp_def, Function.expand,
        headed_params_expand]
  | nil | bool | number | string | native | object => rfl

theorem printed_expand (value : Value) :
    state.expand.printed value = state.printed value := by
  cases value with
  | function id =>
      simp only [StateOf.printed, functions_expand,
        Option.map_map, Function.comp_def, Function.expand,
        headed_name_expand]
  | classRef id => exact className_expand state id
  | object id =>
      simp only [StateOf.printed, className_expand]
      rfl
  | nil | bool | number | string | native => rfl

theorem view_expand : state.expand.view = state.view := by
  rw [StateOf.view, StateOf.view, funext state.printed_expand,
    funext state.arity?_expand]
  rfl

end State

theorem methodTable_expand (env : Env) (methods : List FunctionDecl) :
    Lexical.Step.methodTable env (FunctionDecl.expandAll methods) =
      (Lexical.Step.methodTable env methods).map Function.expand := by
  rw [FunctionDecl.expandAll_eq, Lexical.Step.methodTable,
    Lexical.Step.methodTable, List.foldl_map]
  change List.foldl _ (Bindings.map Function.expand .empty) methods = _
  apply List.foldl_hom
  intro table method
  rw [Bindings.map_put, headed_name_expand]
  rfl

/-! ## Runs that agree -/

/-- One of the two runs. -/
inductive Side where
  | surface
  | expansion

section
variable {α α' β β' : Type} {side : Side}

/-- The run of a program and the run of its expansion end in the same way,
unless the one on the given side has run out of fuel. -/
inductive Tracks (side : Side) (values : α → α' → Prop) :
    EStateM.Result Halt State α → EStateM.Result Halt Lexical.State α' →
    Prop where
  | ok : values a a' → Tracks side values (.ok a s) (.ok a' (State.expand s))
  | error : Tracks side values (.error halt s) (.error halt (State.expand s))
  | surfaceOut :
      side = .surface → Tracks side values (.error .outOfFuel s) result'
  | expansionOut :
      side = .expansion → Tracks side values result (.error .outOfFuel s')

def Agrees (side : Side) (values : α → α' → Prop) (x : Step α)
    (y : Lexical.Step α') : Prop :=
  ∀ s, Tracks side values (x s) (y (State.expand s))

variable {values : α → α' → Prop} {more : β → β' → Prop}

theorem agrees_pure {a : α} {a' : α'} (h : values a a') :
    Agrees side values (pure a) (pure a') :=
  fun _ => .ok h

private theorem agrees_throw (halt : Halt) :
    Agrees side values (throw halt) (throw halt) :=
  fun _ => .error

theorem agrees_fail (cause : RuntimeError.Cause) (line : Nat) :
    Agrees side values (Lexical.Step.fail cause line)
      (Lexical.Step.fail cause line) :=
  agrees_throw _

theorem agrees_ask
    {question : State → α} {question' : Lexical.State → α'}
    (h : ∀ s : State, values (question s) (question' (State.expand s))) :
    Agrees side values (Lexical.Step.ask question)
      (Lexical.Step.ask question') :=
  fun s => .ok (h s)

theorem Agrees.bind
    {x : Step α} {y : Lexical.Step α'} {f : α → Step β}
    {g : α' → Lexical.Step β'} (h : Agrees side values x y)
    (hnext : ∀ a a', values a a' → Agrees side more (f a) (g a')) :
    Agrees side more (x >>= f) (y >>= g) := by
  intro s
  change Tracks side more (EStateM.bind x f s)
    (EStateM.bind y g (State.expand s))
  unfold EStateM.bind
  have htracks := h s
  generalize x s = result, y (State.expand s) = result' at htracks
  cases htracks with
  | ok hvalues => exact hnext _ _ hvalues _
  | error => exact .error
  | surfaceOut hside => exact .surfaceOut hside
  | expansionOut hside => exact .expansionOut hside

/-- The expansion makes something else of the value that it gives. -/
theorem Agrees.mapRight
    {x : Step α} {y : Lexical.Step α'} {other : α → β' → Prop} {g : α' → β'}
    (h : Agrees side values x y)
    (hother : ∀ a a', values a a' → other a (g a')) :
    Agrees side other x (y >>= fun a' => pure (g a')) := by
  intro s
  change Tracks side other (x s) (EStateM.bind y _ (State.expand s))
  unfold EStateM.bind
  have htracks := h s
  generalize x s = result, y (State.expand s) = result' at htracks
  cases htracks with
  | ok hvalues => exact .ok (hother _ _ hvalues)
  | error => exact .error
  | surfaceOut hside => exact .surfaceOut hside
  | expansionOut hside => exact .expansionOut hside

theorem Agrees.bindSame
    {x : Step α} {y : Lexical.Step α} {f : α → Step β}
    {g : α → Lexical.Step β'} (h : Agrees side Eq x y)
    (hnext : ∀ a, Agrees side more (f a) (g a)) :
    Agrees side more (x >>= f) (y >>= g) := by
  apply h.bind
  rintro a _ rfl
  exact hnext a

end

/-! ## Single steps -/

section
variable {side : Side} {env env' : Env}

theorem agrees_orMismatch (line : Nat) (result : Except Mismatch Value) :
    Agrees side Eq (Lexical.Step.orMismatch line result)
      (Lexical.Step.orMismatch line result) := by
  cases result with
  | ok value => exact agrees_pure rfl
  | error mismatch => exact agrees_fail _ line

theorem agrees_allocate (env : Env) (name : String) (value : Value) :
    Agrees side Eq (Lexical.Step.allocate env name value)
      (Lexical.Step.allocate env name value) :=
  fun _ => .ok rfl

theorem agrees_declare (env : Env) (name : String) (value : Value) :
    Agrees side Eq (Lexical.Step.declare env name value)
      (Lexical.Step.declare env name value) := by
  obtain ⟨locations, isLocal⟩ := env
  cases isLocal with
  | true => exact agrees_allocate _ name value
  | false => exact fun _ => .ok rfl

theorem agrees_bindParams (env : Env) (params : List (Ident × Value)) :
    Agrees side Eq (Lexical.Step.bindParams env params)
      (Lexical.Step.bindParams env params) := by
  induction params generalizing env with
  | nil => exact agrees_pure rfl
  | cons param params ih =>
      exact (agrees_allocate env param.1.name param.2).bindSame ih

theorem agrees_readName
    (henv : env'.locations = env.locations) (name : Ident) :
    Agrees side Eq (Lexical.Step.readName env name)
      (Lexical.Step.readName env' name) := by
  intro s
  have hglobals : (State.expand s).globals = s.globals := rfl
  simp only [Lexical.Step.readName, Lexical.Step.readName, Env.find?, henv,
    hglobals]
  cases env.locations.find? name.name with
  | some location => exact .ok rfl
  | none =>
      cases s.globals.find? name.name with
      | some value => exact .ok rfl
      | none => exact .error

theorem agrees_writeName
    (henv : env'.locations = env.locations) (name : Ident) (value : Value) :
    Agrees side Eq (Lexical.Step.writeName env name value)
      (Lexical.Step.writeName env' name value) := by
  intro s
  have hglobals : (State.expand s).globals = s.globals := rfl
  simp only [Lexical.Step.writeName, Lexical.Step.writeName, Env.find?, henv,
    hglobals]
  cases env.locations.find? name.name with
  | some location => exact .ok rfl
  | none =>
      cases s.globals.has name.name with
      | true => exact .ok rfl
      | false => exact .error

theorem agrees_print (value : Value) :
    Agrees side Eq (Lexical.Step.print value) (Lexical.Step.print value) := by
  intro s
  have hsink : (State.expand s).sink = s.sink := rfl
  simp only [Lexical.Step.print, Lexical.Step.print, State.printed_expand,
    hsink]
  cases (s.sink.write (s.printed value ++ "\n")).1 with
  | ok _ => exact .ok rfl
  | error e => exact .error

theorem agrees_callNative
    (native : Native) (arguments : List Value) (line : Nat) :
    Agrees side Eq (Lexical.Step.callNative native arguments line)
      (Lexical.Step.callNative native arguments line) := by
  cases native with
  | clock => exact fun _ => .ok rfl
  | lent id name arity =>
      have hask : Agrees side Eq
          (Lexical.Step.ask fun s => (s.host id).call s.view arguments)
          (Lexical.Step.ask fun s => (s.host id).call s.view arguments) :=
        agrees_ask fun s => by
          rw [State.view_expand]
          rfl
      refine hask.bindSame fun given => ?_
      cases given with
      | ok value => exact agrees_pure rfl
      | error message => exact agrees_fail _ line

/-! ## Functions, classes and instances -/

theorem agrees_addFunction (function : Function) :
    Agrees side Eq (Lexical.Step.addFunction function)
      (Lexical.Step.addFunction function.expand) := by
  intro s
  have hright : Lexical.Step.addFunction function.expand (State.expand s) =
      .ok s.functions.size (State.expand
        { s with functions := s.functions.push function }) := by
    simp only [Lexical.Step.addFunction, State.expand, Array.map_push,
      Array.size_map]
  rw [hright]
  exact .ok rfl

theorem agrees_addClass (cls : Class) :
    Agrees side Eq (Lexical.Step.addClass cls)
      (Lexical.Step.addClass cls.expand) := by
  intro s
  have hright : Lexical.Step.addClass cls.expand (State.expand s) =
      .ok s.classes.size (State.expand
        { s with classes := s.classes.push cls }) := by
    simp only [Lexical.Step.addClass, State.expand, Array.map_push,
      Array.size_map]
  rw [hright]
  exact .ok rfl

theorem agrees_addObject (object : Object) :
    Agrees side Eq (Lexical.Step.addObject object)
      (Lexical.Step.addObject object) :=
  fun _ => .ok rfl

theorem agrees_setProperty
    (object : ObjectId) (name : String) (value : Value) :
    Agrees side Eq (Lexical.Step.setProperty object name value)
      (Lexical.Step.setProperty object name value) :=
  fun _ => .ok rfl

/-- The function of the expansion. -/
def Expands (function : Function) (function' : Lexical.Function) : Prop :=
  function' = function.expand

theorem agrees_bindMethod (method : Function) (object : ObjectId) :
    Agrees side Expands (Lexical.Step.bindMethod method object)
      (Lexical.Step.bindMethod method.expand object) :=
  (agrees_allocate method.env "this" (.object object)).bindSame
    fun _ => agrees_pure rfl

private theorem agrees_methodValue (method : Function) (object : ObjectId) :
    Agrees side Eq (Lexical.Step.methodValue method object)
      (Lexical.Step.methodValue method.expand object) := by
  apply (agrees_bindMethod method object).bind
  rintro bound _ rfl
  exact (agrees_addFunction bound).bindSame fun _ => agrees_pure rfl

/-- Both actions look for a function and go on with what they find. -/
theorem Agrees.bindFound
    {β β' : Type} {more : β → β' → Prop} {question : State → Option Function}
    {question' : Lexical.State → Option Lexical.Function}
    {f : Option Function → Step β}
    {g : Option Lexical.Function → Lexical.Step β'}
    (hfound : ∀ s : State, question' (State.expand s) =
    (question s).map Function.expand)
    (hnone : Agrees side more (f none) (g none))
    (hsome : ∀ function,
      Agrees side more (f (some function)) (g (some function.expand))) :
    Agrees side more (Lexical.Step.ask question >>= f)
      (Lexical.Step.ask question' >>= g) := by
  have hask :
      Agrees side (fun found found' => found' = found.map Function.expand)
      (Lexical.Step.ask question) (Lexical.Step.ask question') :=
    agrees_ask hfound
  apply hask.bind
  rintro found _ rfl
  cases found with
  | none => exact hnone
  | some function => exact hsome function

theorem agrees_getProperty (object : ObjectId) (name : Ident) :
    Agrees side Eq (Lexical.Step.getProperty object name)
      (Lexical.Step.getProperty object name) := by
  have hfield : Agrees side Eq
      (Lexical.Step.ask fun s => s.field? object name.name)
      (Lexical.Step.ask fun s => s.field? object name.name) :=
    agrees_ask fun _ => rfl
  apply hfield.bindSame
  intro field
  cases field with
  | some value => exact agrees_pure rfl
  | none =>
      apply Agrees.bindFound
      · intro s
        change s.objects[object]?.bind _ = (s.objects[object]?.bind _).map _
        cases s.objects[object]? with
        | none => rfl
        | some record => exact State.method?_expand s record.classId name.name
      · exact agrees_fail _ name.line
      · exact fun method => agrees_methodValue method object

theorem agrees_superMethod
    (henv : env'.locations = env.locations) (line : Nat) (method : Ident) :
    Agrees side Eq (Lexical.Step.superMethod env line method)
      (Lexical.Step.superMethod env' line method) := by
  apply (agrees_readName henv ⟨"super", line⟩).bindSame
  intro superclass
  apply (agrees_readName henv ⟨"this", line⟩).bindSame
  intro object
  cases superclass with
  | classRef superclass =>
      cases object with
      | object object =>
          apply Agrees.bindFound
          · exact fun s => State.method?_expand s superclass method.name
          · exact agrees_fail _ method.line
          · exact fun found => agrees_methodValue found object
      | _ => exact agrees_fail _ line
  | _ => exact agrees_fail _ line

theorem agrees_declareFunction (env : Env) (declaration : FunctionDecl) :
    Agrees side Eq (Lexical.Step.declareFunction env declaration)
      (Lexical.Step.declareFunction env declaration.expand) := by
  have hask : Agrees side Eq (Lexical.Step.ask fun s => s.functions.size)
      (Lexical.Step.ask fun s => s.functions.size) :=
    agrees_ask fun _ => Array.size_map.symm
  apply hask.bindSame
  intro id
  rw [headed_name_expand]
  apply (agrees_declare env declaration.name.name (.function id)).bindSame
  intro env
  exact (agrees_addFunction ⟨declaration, env, false⟩).bindSame
    fun _ => agrees_pure rfl

theorem agrees_makeClass
    (env : Env) (name : Ident) (superclass : Option ClassId)
    (methods : List FunctionDecl) :
    Agrees side Eq (Lexical.Step.declareClass env name superclass methods)
      (Lexical.Step.declareClass env name superclass
        (FunctionDecl.expandAll methods)) := by
  have hfinish (methodEnv : Env) :
      Agrees side Eq
        (Lexical.Step.addClass ⟨name.name, superclass,
            Lexical.Step.methodTable methodEnv methods⟩ >>= fun id =>
          Lexical.Step.writeName env name (.classRef id))
        (Lexical.Step.addClass ⟨name.name, superclass,
            Lexical.Step.methodTable methodEnv
              (FunctionDecl.expandAll methods)⟩ >>= fun id =>
          Lexical.Step.writeName env name (.classRef id)) := by
    rw [methodTable_expand]
    exact (agrees_addClass _).bindSame fun id => agrees_writeName rfl name _
  cases superclass with
  | none => exact Agrees.bindSame (agrees_pure rfl) hfinish
  | some id =>
      exact (agrees_allocate env "super" (.classRef id)).bindSame hfinish

end

end Surface
end LoxLang
