import LoxLang.Proofs.Coupling
import LoxLang.Proofs.Lexical.Evaluation
import LoxLang.Proofs.Scope.Agreement

/-!
# Slots and locations

A machine keeps the value of a local name in a slot: a frame and a name in it.
Each location of the lexical evaluation stands for one slot, its owner.  An
environment mirrors the frames from some frame outwards if it has, for each
name, the location of the slot to which the distance of the name leads.  Later
declarations add slots to the same frames, but they leave the environment as
it is, and the distances that were taken in front of them.
-/

namespace LoxLang

open Scope (Stack Chart)

namespace Lexical

/-- A frame and a name in it. -/
abbrev Slot := FrameId × String

/-- The environment has the locations of the slots to which the scopes of a
stack lead, from a frame outwards.  The owner of each location is given. -/
structure Env.Mirrors
    (owners : List Slot) (store : Store) (globals frame : FrameId)
    (stack : Stack) (env : Env) : Prop where
  fits : store.Fits globals frame stack
  isLocal : env.isLocal = !stack.isEmpty
  absent : ∀ {name}, stack.distance? name = none → env.find? name = none
  present : ∀ {name distance}, stack.distance? name = some distance →
    ∃ holder location, store.ancestor frame distance = .ok holder ∧
      env.find? name = some location ∧
      owners[location]? = some (holder, name)

structure Function.Mirrors
    (chart : Chart) (owners : List Slot) (store : Store) (globals : FrameId)
    (function : LoxLang.Function) (mirror : Function) : Prop where
  declaration : mirror.declaration = function.declaration
  initializer : mirror.initializer = function.initializer
  scopes : ∃ stack, function.declaration.Bound chart stack ∧
    mirror.env.Mirrors owners store globals function.closure stack
  this : function.initializer = true →
    ∃ location, mirror.env.find? "this" = some location ∧
      owners[location]? = some (function.closure, "this")

/-- A method, whose body also sees `this`. -/
structure Function.MethodMirrors
    (chart : Chart) (owners : List Slot) (store : Store) (globals : FrameId)
    (method : LoxLang.Function) (mirror : Function) : Prop where
  declaration : mirror.declaration = method.declaration
  initializer : mirror.initializer = method.initializer
  scopes : ∃ stack, method.declaration.Bound chart (["this"] :: stack) ∧
    mirror.env.Mirrors owners store globals method.closure stack

structure Class.Mirrors
    (chart : Chart) (owners : List Slot) (store : Store) (globals : FrameId)
    (cls : LoxLang.Class) (mirror : Class) : Prop where
  name : cls.name = mirror.name
  superclass : cls.superclass = mirror.superclass
  methods : Bindings.Related
    (Function.MethodMirrors chart owners store globals) cls.methods
    mirror.methods

/-- The state holds what the machine holds. -/
structure Agree
    (chart : Chart) (owners : List Slot) (m : Machine) (s : State) :
    Prop where
  cells : s.cells.size = owners.length
  cell : ∀ {location : Location} {frame name},
    owners[location]? = some (frame, name) →
    ∃ value, m.store.local? frame name = some value ∧
      s.cells[location]? = some value
  nodup : owners.Nodup
  inner : ∀ {frame name}, (frame, name) ∈ owners → frame ≠ m.globals
  outermost : ∃ frame, m.store.frames[m.globals]? = some frame ∧
    frame.parent = none
  globals : ∀ name, m.store.local? m.globals name = s.globals.find? name
  functions : ArraysRelated
    (Function.Mirrors chart owners m.store m.globals) m.store.functions
    s.functions
  classes : ArraysRelated (Class.Mirrors chart owners m.store m.globals)
    m.store.classes s.classes
  objects : m.store.objects = s.objects
  sink : m.sink = s.sink
  clock : m.clock = s.clock
  ticks : m.ticks = s.ticks
  host : m.host = s.host

/-! ## More slots and more locations -/

section
variable {chart : Chart} {owners more : List Slot} {store after : Store}
variable {globals frame : FrameId} {stack : Stack} {env : Env}

theorem owner_of_begins
    {location : Location} {slot : Slot} (hbegins : owners <+: more)
    (h : owners[location]? = some slot) : more[location]? = some slot := by
  obtain ⟨added, rfl⟩ := hbegins
  have hlt : location < owners.length :=
    (List.getElem?_eq_some_iff.mp h).1
  rw [List.getElem?_append_left hlt, h]

theorem Env.Mirrors.grows
    (h : env.Mirrors owners store globals frame stack)
    (hbegins : owners <+: more) (hgrows : store.Grows after) :
    env.Mirrors more after globals frame stack where
  fits := h.fits.grows hgrows
  isLocal := h.isLocal
  absent := h.absent
  present hdistance := by
    obtain ⟨holder, location, hholder, hlocation, howner⟩ :=
      h.present hdistance
    exact ⟨holder, location, hgrows.ancestor hholder, hlocation,
      owner_of_begins hbegins howner⟩

theorem Function.Mirrors.grows
    {function : LoxLang.Function} {mirror : Function}
    (h : Function.Mirrors chart owners store globals function mirror)
    (hbegins : owners <+: more) (hgrows : store.Grows after) :
    Function.Mirrors chart more after globals function mirror where
  declaration := h.declaration
  initializer := h.initializer
  scopes := by
    obtain ⟨stack, hbound, hmirrors⟩ := h.scopes
    exact ⟨stack, hbound, hmirrors.grows hbegins hgrows⟩
  this hinitializer := by
    obtain ⟨location, hlocation, howner⟩ := h.this hinitializer
    exact ⟨location, hlocation, owner_of_begins hbegins howner⟩

theorem Function.MethodMirrors.grows
    {method : LoxLang.Function} {mirror : Function}
    (h : Function.MethodMirrors chart owners store globals method mirror)
    (hbegins : owners <+: more) (hgrows : store.Grows after) :
    Function.MethodMirrors chart more after globals method mirror where
  declaration := h.declaration
  initializer := h.initializer
  scopes := by
    obtain ⟨stack, hbound, hmirrors⟩ := h.scopes
    exact ⟨stack, hbound, hmirrors.grows hbegins hgrows⟩

theorem Class.Mirrors.grows
    {cls : LoxLang.Class} {mirror : Class}
    (h : Class.Mirrors chart owners store globals cls mirror)
    (hbegins : owners <+: more) (hgrows : store.Grows after) :
    Class.Mirrors chart more after globals cls mirror where
  name := h.name
  superclass := h.superclass
  methods := h.methods.mono fun _ _ hmethod => hmethod.grows hbegins hgrows

end

/-! ## Environments of scopes -/

namespace Env.Mirrors

variable {owners : List Slot} {store : Store} {globals frame : FrameId}
variable {stack other : Stack} {env : Env}

/-- The order of the names in a scope does not matter. -/
theorem congr
    (h : env.Mirrors owners store globals frame stack)
    (hfits : store.Fits globals frame other)
    (hempty : other.isEmpty = stack.isEmpty)
    (hdistance : ∀ name, other.distance? name = stack.distance? name) :
    env.Mirrors owners store globals frame other where
  fits := hfits
  isLocal := by rw [h.isLocal, hempty]
  absent hname := h.absent (hdistance _ ▸ hname)
  present hname := h.present (hdistance _ ▸ hname)

/-- At the start of a scope nothing is declared in it. -/
theorem enter
    {parent : FrameId} (h : env.Mirrors owners store globals parent stack)
    (hparent : store.parent? frame = some parent) :
    env.inner.Mirrors owners store globals frame ([] :: stack) where
  fits := ⟨fun _ hname => (List.not_mem_nil hname).elim, parent, hparent,
    h.fits⟩
  isLocal := rfl
  absent {name} hname := by
    rw [Stack.distance?_cons, if_neg List.not_mem_nil] at hname
    exact h.absent (Option.map_eq_none_iff.mp hname)
  present {name distance} hname := by
    rw [Stack.distance?_cons, if_neg List.not_mem_nil] at hname
    obtain ⟨outer, houter, rfl⟩ := Option.map_eq_some_iff.mp hname
    obtain ⟨holder, location, hholder, hlocation, howner⟩ := h.present houter
    refine ⟨holder, location, ?_, hlocation, howner⟩
    simpa only [Store.ancestor, hparent] using hholder

/-- A name that the innermost scope declares next. -/
theorem bind
    {scope : List String} {name : String} {location : Location}
    (h : env.Mirrors owners store globals frame (scope :: stack))
    (hlocal : (store.local? frame name).isSome)
    (howner : owners[location]? = some (frame, name)) :
    (env.bind name location).Mirrors owners store globals frame
      ((name :: scope) :: stack) := by
  have hfind (n : String) (hn : n ≠ name) :
      (env.bind name location).find? n = env.find? n :=
    Bindings.find?_put_of_ne env.locations location hn
  have hdistance (n : String) (hn : n ≠ name) :
      Stack.distance? ((name :: scope) :: stack) n =
        Stack.distance? (scope :: stack) n :=
    @Stack.distance?_declare [name] n (scope :: stack)
      (by simpa using hn)
  constructor
  · refine ⟨fun n hn => ?_, h.fits.2⟩
    cases hn with
    | head => exact hlocal
    | tail _ hn => exact h.fits.1 n hn
  · rfl
  · intro n hn
    by_cases hname : n = name
    · subst hname
      simp [Stack.distance?_cons] at hn
    · rw [hdistance n hname] at hn
      rw [hfind n hname]
      exact h.absent hn
  · intro n distance hn
    by_cases hname : n = name
    · subst hname
      have hzero : distance = 0 := by
        simpa [Stack.distance?_cons, eq_comm] using hn
      subst hzero
      exact ⟨frame, location, rfl, Bindings.find?_put_self .., howner⟩
    · rw [hdistance n hname] at hn
      rw [hfind n hname]
      exact h.present hn

end Env.Mirrors

/-! ## Single changes -/

namespace Agree

variable {chart : Chart} {owners : List Slot} {m : Machine} {s : State}

theorem owner_lt
    {location : Location} {slot : Slot} (h : Agree chart owners m s)
    (howner : owners[location]? = some slot) :
    slot.1 < m.store.frames.size := by
  obtain ⟨value, hvalue, -⟩ := h.cell howner
  cases hframe : m.store.frames[slot.1]? with
  | none => simp [Store.local?, hframe] at hvalue
  | some frame => exact (Array.getElem?_eq_some_iff.mp hframe).1

theorem globals_lt (h : Agree chart owners m s) :
    m.globals < m.store.frames.size := by
  obtain ⟨frame, hframe, -⟩ := h.outermost
  exact (Array.getElem?_eq_some_iff.mp hframe).1

section
variable {more : List Slot} {after : Store} (h : Agree chart owners m s)
variable (hbegins : owners <+: more) (hgrows : m.store.Grows after)
include h hgrows

theorem outermost_grows :
    ∃ frame, after.frames[m.globals]? = some frame ∧ frame.parent = none := by
  obtain ⟨frame, hframe, hparent⟩ := h.outermost
  obtain ⟨frame', hframe', hsame, -⟩ := hgrows.frames hframe
  exact ⟨frame', hframe', hsame.trans hparent⟩

include hbegins

theorem functions_grow :
    ArraysRelated (Function.Mirrors chart more after m.globals)
      m.store.functions s.functions :=
  h.functions.mono fun _ _ hfunction => hfunction.grows hbegins hgrows

theorem classes_grow :
    ArraysRelated (Class.Mirrors chart more after m.globals)
      m.store.classes s.classes :=
  h.classes.mono fun _ _ hcls => hcls.grows hbegins hgrows

end

/-- The store grows, but no slot with a location changes. -/
theorem withStore
    {after : Store} (h : Agree chart owners m s)
    (hgrows : m.store.Grows after)
    (hslots : ∀ {frame name}, (frame, name) ∈ owners →
      after.local? frame name = m.store.local? frame name)
    (hglobals : ∀ name,
      after.local? m.globals name = m.store.local? m.globals name)
    (hfunctions : after.functions = m.store.functions)
    (hclasses : after.classes = m.store.classes)
    (hobjects : after.objects = m.store.objects) :
    Agree chart owners { m with store := after } s where
  cells := h.cells
  cell howner := by
    obtain ⟨value, hvalue, hcell⟩ := h.cell howner
    refine ⟨value, ?_, hcell⟩
    rw [← hvalue]
    exact hslots (List.mem_of_getElem? howner)
  nodup := h.nodup
  inner := h.inner
  outermost := h.outermost_grows hgrows
  globals name := (hglobals name).trans (h.globals name)
  functions := hfunctions ▸ h.functions_grow (List.prefix_refl owners) hgrows
  classes := hclasses ▸ h.classes_grow (List.prefix_refl owners) hgrows
  objects := hobjects.trans h.objects
  sink := h.sink
  clock := h.clock
  ticks := h.ticks
  host := h.host

theorem addFrame (h : Agree chart owners m s) (frame : Frame) :
    Agree chart owners
      { m with store := (m.store.addFrame frame).2 } s := by
  have hold (id : FrameId) (hid : id < m.store.frames.size)
      (name : String) :
      (m.store.addFrame frame).2.local? id name = m.store.local? id name := by
    rw [Store.local?_addFrame, if_neg (Nat.ne_of_lt hid)]
  refine h.withStore (.addFrame ..) ?_ (hold _ h.globals_lt) rfl rfl rfl
  intro id name hslot
  obtain ⟨location, howner⟩ := List.getElem?_of_mem hslot
  exact hold id (h.owner_lt howner) name

/-- A name in a frame that did not hold it. -/
theorem define
    {frame : FrameId} {name : String} (h : Agree chart owners m s)
    (value : Value) (hframe : frame ≠ m.globals)
    (hnew : m.store.local? frame name = none) :
    Agree chart owners
      { m with store := m.store.define frame name value } s := by
  refine h.withStore (.define ..) ?_ ?_ rfl rfl rfl
  · intro id n hslot
    rw [Store.local?_define, if_neg]
    rintro ⟨rfl, rfl, -⟩
    obtain ⟨location, howner⟩ := List.getElem?_of_mem hslot
    obtain ⟨old, hold, -⟩ := h.cell howner
    rw [hnew] at hold
    cases hold
  · intro n
    rw [Store.local?_define, if_neg]
    exact fun hsame => hframe hsame.1

/-- A new location for a slot that has none. -/
theorem allocate
    {frame : FrameId} {name : String} {value : Value}
    (h : Agree chart owners m s) (hframe : frame ≠ m.globals)
    (hvalue : m.store.local? frame name = some value)
    (hnew : (frame, name) ∉ owners) :
    Agree chart (owners ++ [(frame, name)]) m
      { s with cells := s.cells.push value } := by
  have hbegins : owners <+: owners ++ [(frame, name)] :=
    List.prefix_append ..
  constructor
  · simp [h.cells]
  · intro location id n howner
    rw [Array.getElem?_push, h.cells]
    by_cases hlast : location = owners.length
    · subst hlast
      simp only [List.getElem?_concat_length, Option.some.injEq,
        Prod.mk.injEq] at howner
      obtain ⟨rfl, rfl⟩ := howner
      exact ⟨value, hvalue, if_pos rfl⟩
    · have hlt : location < owners.length := by
        have hle := (List.getElem?_eq_some_iff.mp howner).1
        rw [List.length_append] at hle
        exact Nat.lt_of_le_of_ne (Nat.le_of_lt_succ hle) hlast
      rw [List.getElem?_append_left hlt] at howner
      rw [if_neg hlast]
      exact h.cell howner
  · rw [List.nodup_append]
    refine ⟨h.nodup, by simp, ?_⟩
    intro slot hslot other hother heq
    rw [List.mem_singleton.mp hother] at heq
    exact hnew (heq ▸ hslot)
  · intro id n hslot
    cases List.mem_append.mp hslot with
    | inl hold => exact h.inner hold
    | inr hlast =>
        cases List.mem_singleton.mp hlast
        exact hframe
  · exact h.outermost
  · exact h.globals
  · exact h.functions_grow hbegins .refl
  · exact h.classes_grow hbegins .refl
  · exact h.objects
  · exact h.sink
  · exact h.clock
  · exact h.ticks
  · exact h.host

/-- The value of a slot changes together with that of its location. -/
theorem overwrite
    {location : Location} {frame : FrameId} {name : String}
    (h : Agree chart owners m s) (value : Value)
    (howner : owners[location]? = some (frame, name)) :
    Agree chart owners
      { m with store := m.store.define frame name value }
      { s with cells := s.cells.setIfInBounds location value } := by
  have hgrows := Store.Grows.define m.store frame name value
  have hinner : frame ≠ m.globals := h.inner (List.mem_of_getElem? howner)
  constructor
  · simpa using h.cells
  · intro other id n hother
    obtain ⟨old, hold, hcell⟩ := h.cell hother
    have hsize : other < s.cells.size :=
      (Array.getElem?_eq_some_iff.mp hcell).1
    by_cases hsame : location = other
    · subst hsame
      cases howner.symm.trans hother
      have hlt : frame < m.store.frames.size := h.owner_lt howner
      refine ⟨value, ?_, ?_⟩
      · simp [Store.local?_define, hlt]
      · simp [hsize]
    · refine ⟨old, ?_, ?_⟩
      · rw [← hold]
        simp only [Store.local?_define]
        rw [if_neg]
        rintro ⟨rfl, rfl, -⟩
        -- Two locations of one slot would be the same location.
        have hlt := (List.getElem?_eq_some_iff.mp howner).1
        exact hsame ((List.getElem?_inj hlt h.nodup).mp
          (howner.trans hother.symm))
      · rw [← hcell]
        exact Array.getElem?_setIfInBounds_ne hsame
  · exact h.nodup
  · exact h.inner
  · exact h.outermost_grows hgrows
  · intro n
    rw [← h.globals n]
    simp only [Store.local?_define]
    rw [if_neg]
    exact fun hsame => hinner hsame.1
  · exact h.functions_grow (List.prefix_refl owners) hgrows
  · exact h.classes_grow (List.prefix_refl owners) hgrows
  · exact h.objects
  · exact h.sink
  · exact h.clock
  · exact h.ticks
  · exact h.host

/-- A global gets a value. -/
theorem putGlobal
    (h : Agree chart owners m s) (name : String) (value : Value) :
    Agree chart owners
      { m with store := m.store.define m.globals name value }
      { s with globals := s.globals.put name value } := by
  have hgrows := Store.Grows.define m.store m.globals name value
  constructor
  · exact h.cells
  · intro location id n howner
    obtain ⟨old, hold, hcell⟩ := h.cell howner
    refine ⟨old, ?_, hcell⟩
    rw [← hold]
    simp only [Store.local?_define]
    rw [if_neg]
    exact fun hsame =>
      h.inner (List.mem_of_getElem? howner) hsame.1.symm
  · exact h.nodup
  · exact h.inner
  · exact h.outermost_grows hgrows
  · intro n
    have hlt := h.globals_lt
    simp only [Store.local?_define, Bindings.find?_put, hlt, and_true,
      true_and, h.globals n]
  · exact h.functions_grow (List.prefix_refl owners) hgrows
  · exact h.classes_grow (List.prefix_refl owners) hgrows
  · exact h.objects
  · exact h.sink
  · exact h.clock
  · exact h.ticks
  · exact h.host

theorem addFunction
    {function : LoxLang.Function} {mirror : Function}
    (h : Agree chart owners m s)
    (hnew : Function.Mirrors chart owners m.store m.globals function
      mirror) :
    Agree chart owners
      { m with store := (m.store.addFunction function).2 }
      { s with functions := s.functions.push mirror } := by
  have hgrows := Store.Grows.addFunction m.store function
  have hfunctions := (h.functions.push hnew).mono fun _ _ hfunction =>
    hfunction.grows (List.prefix_refl owners) hgrows
  have hclasses := h.classes_grow (List.prefix_refl owners) hgrows
  exact ⟨h.cells, h.cell, h.nodup, h.inner, h.outermost, h.globals,
    hfunctions, hclasses, h.objects, h.sink, h.clock, h.ticks, h.host⟩

theorem addClass
    {cls : LoxLang.Class} {mirror : Class} (h : Agree chart owners m s)
    (hnew : Class.Mirrors chart owners m.store m.globals cls mirror) :
    Agree chart owners
      { m with store := (m.store.addClass cls).2 }
      { s with classes := s.classes.push mirror } := by
  have hgrows := Store.Grows.addClass m.store cls
  have hfunctions := h.functions_grow (List.prefix_refl owners) hgrows
  have hclasses := (h.classes.push hnew).mono fun _ _ hcls =>
    hcls.grows (List.prefix_refl owners) hgrows
  exact ⟨h.cells, h.cell, h.nodup, h.inner, h.outermost, h.globals,
    hfunctions, hclasses, h.objects, h.sink, h.clock, h.ticks, h.host⟩

/-- The instances of both are the same ones. -/
theorem withObjects
    {objects : Array Object} (h : Agree chart owners m s)
    (hgrows : m.store.Grows { m.store with objects := objects }) :
    Agree chart owners
      { m with store := { m.store with objects := objects } }
      { s with objects := objects } := by
  have hfunctions := h.functions_grow (List.prefix_refl owners) hgrows
  have hclasses := h.classes_grow (List.prefix_refl owners) hgrows
  exact ⟨h.cells, h.cell, h.nodup, h.inner, h.outermost, h.globals,
    hfunctions, hclasses, rfl, h.sink, h.clock, h.ticks, h.host⟩

theorem addObject (h : Agree chart owners m s) (object : Object) :
    Agree chart owners { m with store := (m.store.addObject object).2 }
      { s with objects := s.objects.push object } := by
  rw [← h.objects]
  exact h.withObjects (.addObject ..)

theorem setField
    (h : Agree chart owners m s) (id : ObjectId) (name : String)
    (value : Value) :
    Agree chart owners { m with store := m.store.setField id name value }
      { s with objects := s.objects.modify id fun object =>
        { object with fields := object.fields.put name value } } := by
  rw [← h.objects]
  exact h.withObjects (.setField ..)

theorem withSink (h : Agree chart owners m s) (sink : Sink) :
    Agree chart owners { m with sink := sink } { s with sink := sink } :=
  ⟨h.cells, h.cell, h.nodup, h.inner, h.outermost, h.globals, h.functions,
    h.classes, h.objects, rfl, h.clock, h.ticks, h.host⟩

theorem tick (h : Agree chart owners m s) :
    Agree chart owners { m with ticks := m.ticks + 1 }
      { s with ticks := s.ticks + 1 } :=
  ⟨h.cells, h.cell, h.nodup, h.inner, h.outermost, h.globals, h.functions,
    h.classes, h.objects, h.sink, h.clock, congrArg (· + 1) h.ticks,
    h.host⟩

/-- The frame that is being executed does not matter. -/
theorem withCurrent (h : Agree chart owners m s) (frame : FrameId) :
    Agree chart owners { m with current := frame } s :=
  ⟨h.cells, h.cell, h.nodup, h.inner, h.outermost, h.globals, h.functions,
    h.classes, h.objects, h.sink, h.clock, h.ticks, h.host⟩

/-! ## The same answers -/

theorem method?
    (h : Agree chart owners m s) (id : ClassId) (name : String) :
    Paired (Function.MethodMirrors chart owners m.store m.globals)
      (m.store.method? id name) (s.method? id name) := by
  induction id using Nat.strongRecOn with
  | ind id ih =>
      rw [Store.method?, StateOf.method?]
      have hclass := h.classes id
      generalize m.store.classes[id]? = found at hclass ⊢
      generalize s.classes[id]? = found' at hclass ⊢
      cases hclass with
      | none => exact .none
      | some hcls =>
          rename_i cls mirror
          dsimp only
          rw [← hcls.superclass]
          have hmethod := hcls.methods name
          generalize cls.methods.find? name = found at hmethod ⊢
          generalize mirror.methods.find? name = found' at hmethod ⊢
          cases hmethod with
          | some hmethod => exact .some hmethod
          | none =>
              cases cls.superclass with
              | none => exact .none
              | some superclass =>
                  dsimp only
                  split
                  · rename_i hlt
                    exact ih superclass hlt
                  · exact .none

theorem field?
    (h : Agree chart owners m s) (id : ObjectId) (name : String) :
    m.store.field? id name = s.field? id name := by
  rw [Store.field?, StateOf.field?, h.objects]

private theorem className (h : Agree chart owners m s) (id : ClassId) :
    m.store.className id = s.className id := by
  have hname := (h.classes id).map_eq fun _ _ hcls => hcls.name
  rw [Store.className, hname, StateOf.className]

theorem arity? (h : Agree chart owners m s) (value : Value) :
    m.store.arity? value = s.arity? value := by
  cases value with
  | function id =>
      have harity := (h.functions id).map_eq fun function mirror hmirrors =>
        congrArg (fun declaration => declaration.params.length)
          hmirrors.declaration.symm
      rw [Store.arity?, Store.functionArity, harity, StateOf.arity?]
      rfl
  | classRef id =>
      have harity := (h.method? id initializerName).map_eq
        fun method mirror hmirrors =>
          congrArg (fun declaration => declaration.params.length)
            hmirrors.declaration.symm
      rw [Store.arity?, Store.classArity, harity, StateOf.arity?]
      rfl
  | _ => rfl

theorem printed (h : Agree chart owners m s) (value : Value) :
    m.store.printed value = s.printed value := by
  cases value with
  | function id =>
      have hname := (h.functions id).map_eq fun function mirror hmirrors =>
        congrArg (fun declaration => declaration.name.name)
          hmirrors.declaration.symm
      rw [Store.printed, Store.functionName, hname, StateOf.printed]
      rfl
  | classRef id => exact h.className id
  | object id =>
      rw [StateOf.printed, Store.printed, Store.objectClassName, h.objects]
      cases s.objects[id]? with
      | none => rfl
      | some object => simp [h.className object.classId]
  | bool value => cases value <;> rfl
  | _ => rfl

theorem view (h : Agree chart owners m s) : m.store.view = s.view := by
  rw [Store.view, StateOf.view, funext h.printed, funext h.arity?]
  exact congrArg _ (funext fun id => funext fun name => h.field? id name)

end Agree

end Lexical
end LoxLang
