import LoxLang.Proofs.Run.Growth
import LoxLang.Proofs.Scope.Binding

/-!
# Scopes and frames agree

The frames of a machine stand for the scopes around the place that is being
executed: walking outwards, each frame holds the names that its scope declares
in front of that place.  The same is true of the frames that a function or a
method keeps from its declaration.  Every step of a run preserves this, so a
distance that was taken from the scopes always leads to a frame that holds the
name.  The one exception is an assignment to a pending name.
-/

namespace LoxLang

open Scope (Stack Chart)

/-! ## Frames that stand for scopes -/

/-- The frames from one frame outwards hold the names of a stack. -/
def Store.Fits (store : Store) (globals : FrameId) : FrameId → Stack → Prop
  | frame, [] => frame = globals
  | frame, names :: stack =>
      (∀ name ∈ names, (store.local? frame name).isSome) ∧
        ∃ parent, store.parent? frame = some parent ∧
          store.Fits globals parent stack

namespace Store.Fits

variable {store after : Store} {globals frame : FrameId} {stack : Stack}

theorem grows
    (h : store.Fits globals frame stack) (hgrows : store.Grows after) :
    after.Fits globals frame stack := by
  induction stack generalizing frame with
  | nil => exact h
  | cons names stack ih =>
      obtain ⟨hnames, parent, hparent, hstack⟩ := h
      exact ⟨fun name hname => hgrows.local?_isSome (hnames name hname),
        parent, hgrows.parent? hparent, ih hstack⟩

/-- The distance that a stack gives a name leads to a frame that holds it. -/
theorem slot
    {name : String} {distance : Nat}
    (h : store.Fits globals frame stack)
    (hdistance : stack.distance? name = some distance) :
    ∃ holder, store.slot frame distance name = .ok holder := by
  induction stack generalizing frame distance with
  | nil => cases hdistance
  | cons names stack ih =>
      obtain ⟨hnames, parent, hparent, hstack⟩ := h
      rw [Stack.distance?_cons] at hdistance
      by_cases hname : name ∈ names
      · rw [if_pos hname] at hdistance
        cases hdistance
        refine ⟨frame, ?_⟩
        simp only [Store.slot, Store.ancestor]
        rw [if_pos (hnames name hname)]
      · rw [if_neg hname] at hdistance
        obtain ⟨outer, houter, rfl⟩ := Option.map_eq_some_iff.mp hdistance
        obtain ⟨holder, hholder⟩ := ih hstack houter
        refine ⟨holder, ?_⟩
        simpa only [Store.slot, Store.ancestor, hparent] using hholder

end Store.Fits

/-- The machine executes a place in the scopes of a stack.  The current frame
holds no other names than its scope. -/
structure Machine.Situated (m : Machine) (stack : Stack) : Prop where
  fits : m.store.Fits m.globals m.current stack
  exact : ∀ {names outer name}, stack = names :: outer →
    (m.store.local? m.current name).isSome → name ∈ names

namespace Machine.Situated

variable {m after : Machine} {stack : Stack}

theorem current_lt
    {names : List String} (h : m.Situated (names :: stack)) :
    m.current < m.store.frames.size := by
  obtain ⟨-, parent, hparent, -⟩ := h.fits
  cases hframe : m.store.frames[m.current]? with
  | none => simp [Store.parent?, hframe] at hparent
  | some frame => exact (Array.getElem?_eq_some_iff.mp hframe).1

/-- After a task that declares some names and comes to its end. -/
theorem declared
    {names : List String} (h : m.Situated stack)
    (hlater : m.Later names after)
    (hnames : ∀ name ∈ names, (after.store.local? after.current name).isSome) :
    after.Situated (stack.declare names) := by
  have hfits : after.store.Fits after.globals after.current stack := by
    rw [hlater.globals, hlater.current]
    exact h.fits.grows hlater.grows
  cases stack with
  | nil => exact ⟨hfits, fun hstack => by cases hstack⟩
  | cons scope outer =>
      refine ⟨⟨fun name hname => ?_, hfits.2⟩, ?_⟩
      · cases List.mem_append.mp hname with
        | inl hnew => exact hnames name hnew
        | inr hold => exact hfits.1 name hold
      · intro scope' outer' name hstack hlocal
        obtain ⟨rfl, rfl⟩ := List.cons.inj hstack
        rw [hlater.current] at hlocal
        cases hlater.gains h.current_lt hlocal with
        | inl hold => exact List.mem_append_right _ (h.exact rfl hold)
        | inr hnew => exact List.mem_append_left _ hnew.2

/-- After a task that declares nothing. -/
theorem later (h : m.Situated stack) (hlater : m.Later [] after) :
    after.Situated stack := by
  simpa using h.declared hlater (by simp)

/-- In a new frame for a scope around which a stack lies. -/
theorem within
    {frame : FrameId} {bindings : Bindings Value} {names : List String}
    (h : m.store.Fits m.globals frame stack)
    (hnames : ∀ name, bindings.has name = true ↔ name ∈ names) :
    (m.within (some frame) bindings).Situated (names :: stack) := by
  have hlocal (name : String) :
      (m.within (some frame) bindings).store.local?
        (m.within (some frame) bindings).current name =
        bindings.find? name := by
    simp [Machine.within, Store.local?_addFrame]
  refine ⟨⟨fun name hname => ?_, frame, ?_, h.grows (.addFrame ..)⟩, ?_⟩
  · rw [hlocal]
    exact (hnames name).mpr hname
  · simp [Machine.within, Store.parent?, Store.frames_addFrame]
  · intro scope outer name hstack hname
    obtain ⟨rfl, rfl⟩ := List.cons.inj hstack
    rw [hlocal] at hname
    exact (hnames name).mp hname

end Machine.Situated

/-! ## What the store holds -/

/-- A method that is found belongs to some class. -/
theorem Store.exists_class_of_method?
    {store : Store} {id : ClassId} {name : String} {method : Function}
    (hmethod : store.method? id name = some method) :
    ∃ (owner : ClassId) (cls : Class), store.classes[owner]? = some cls ∧
      cls.methods.find? name = some method := by
  induction id using Nat.strongRecOn with
  | ind id ih =>
      rw [Store.method?] at hmethod
      split at hmethod
      · cases hmethod
      · rename_i cls hcls
        split at hmethod
        · rename_i found hfound
          cases hmethod
          exact ⟨id, cls, hcls, hfound⟩
        · split at hmethod
          · rename_i superclass _
            split at hmethod
            · rename_i hlt
              exact ih superclass hlt hmethod
            · cases hmethod
          · cases hmethod

/-- A function whose body is bound in the scopes that its frames stand for. -/
structure Function.Sound
    (chart : Chart) (globals : FrameId) (store : Store)
    (function : Function) : Prop where
  bound : ∃ stack, function.declaration.Bound chart stack ∧
    store.Fits globals function.closure stack
  this : function.initializer = true →
    (store.local? function.closure "this").isSome

/-- A method: once it is bound to an instance, the frame of `this` lies around
its body. -/
def Function.MethodSound
    (chart : Chart) (globals : FrameId) (store : Store)
    (method : Function) : Prop :=
  ∃ stack, method.declaration.Bound chart (["this"] :: stack) ∧
    store.Fits globals method.closure stack

/-- All functions and methods are sound, and the words of the language have
the values that they promise. -/
structure Store.Sound
    (chart : Chart) (globals : FrameId) (store : Store) : Prop where
  outermost : globals < store.frames.size
  functions : ∀ {id : FunctionId} {function},
    store.functions[id]? = some function →
    function.Sound chart globals store
  methods : ∀ {id : ClassId} {cls name method},
    store.classes[id]? = some cls → cls.methods.find? name = some method →
    method.MethodSound chart globals store
  this : ∀ {frame value}, store.local? frame "this" = some value →
    ∃ object, value = .object object
  super : ∀ {frame value}, store.local? frame "super" = some value →
    ∃ cls, value = .classRef cls

/-- A machine whose store is sound, and whose distances are those of the
chart. -/
structure Machine.Sound (chart : Chart) (m : Machine) : Prop where
  store : m.store.Sound chart m.globals
  distances : ∀ {id distance}, chart.distance id distance →
    m.distances.find? id = distance

section
variable {chart : Chart} {globals : FrameId} {store after : Store}

theorem Function.Sound.grows
    {function : Function} (h : function.Sound chart globals store)
    (hgrows : store.Grows after) : function.Sound chart globals after where
  bound := by
    obtain ⟨stack, hbound, hfits⟩ := h.bound
    exact ⟨stack, hbound, hfits.grows hgrows⟩
  this hinitializer := hgrows.local?_isSome (h.this hinitializer)

theorem Function.MethodSound.grows
    {method : Function} (h : method.MethodSound chart globals store)
    (hgrows : store.Grows after) :
    method.MethodSound chart globals after := by
  obtain ⟨stack, hbound, hfits⟩ := h
  exact ⟨stack, hbound, hfits.grows hgrows⟩

namespace Store.Sound

/-- A store that has grown is sound if what is new in it is. -/
theorem grows
    (h : store.Sound chart globals) (hgrows : store.Grows after)
    (hfunctions : ∀ {id : FunctionId} {function},
      after.functions[id]? = some function →
      store.functions[id]? = some function ∨
        function.Sound chart globals after)
    (hclasses : ∀ {id : ClassId} {cls}, after.classes[id]? = some cls →
      store.classes[id]? = some cls ∨
        ∀ {name method}, cls.methods.find? name = some method →
          method.MethodSound chart globals after)
    (hthis : ∀ {frame value}, after.local? frame "this" = some value →
      store.local? frame "this" = some value ∨
        ∃ object, value = .object object)
    (hsuper : ∀ {frame value}, after.local? frame "super" = some value →
      store.local? frame "super" = some value ∨
        ∃ cls, value = .classRef cls) :
    after.Sound chart globals where
  outermost := Nat.lt_of_lt_of_le h.outermost hgrows.size_le
  functions hfunction := by
    cases hfunctions hfunction with
    | inl hold => exact (h.functions hold).grows hgrows
    | inr hnew => exact hnew
  methods hcls hmethod := by
    cases hclasses hcls with
    | inl hold => exact (h.methods hold hmethod).grows hgrows
    | inr hnew => exact hnew hmethod
  this hlocal := (hthis hlocal).elim h.this id
  super hlocal := (hsuper hlocal).elim h.super id

theorem define
    {name : String} (h : store.Sound chart globals) (hname : Ordinary name)
    (frame : FrameId) (value : Value) :
    (store.define frame name value).Sound chart globals := by
  refine h.grows (.define ..) .inl .inl ?_ ?_
  · intro other found hlocal
    rw [Store.local?_define] at hlocal
    rw [if_neg (fun hnew => hname.1 hnew.2.1.symm)] at hlocal
    exact .inl hlocal
  · intro other found hlocal
    rw [Store.local?_define] at hlocal
    rw [if_neg (fun hnew => hname.2 hnew.2.1.symm)] at hlocal
    exact .inl hlocal

theorem addFrame
    {frame : Frame} (h : store.Sound chart globals)
    (hthis : ∀ {value}, frame.names.find? "this" = some value →
      ∃ object, value = .object object)
    (hsuper : ∀ {value}, frame.names.find? "super" = some value →
      ∃ cls, value = .classRef cls) :
    (store.addFrame frame).2.Sound chart globals := by
  refine h.grows (.addFrame ..) .inl .inl ?_ ?_
  · intro other found hlocal
    rw [Store.local?_addFrame] at hlocal
    split at hlocal
    · exact .inr (hthis hlocal)
    · exact .inl hlocal
  · intro other found hlocal
    rw [Store.local?_addFrame] at hlocal
    split at hlocal
    · exact .inr (hsuper hlocal)
    · exact .inl hlocal

theorem addFunction
    {function : Function} (h : store.Sound chart globals)
    (hfunction : function.Sound chart globals store) :
    (store.addFunction function).2.Sound chart globals := by
  have hgrows := Store.Grows.addFunction store function
  refine h.grows hgrows ?_ .inl .inl .inl
  intro id found hfound
  simp only [Store.addFunction, Array.getElem?_push] at hfound
  split at hfound
  · cases hfound
    exact .inr (hfunction.grows hgrows)
  · exact .inl hfound

theorem addClass
    {cls : Class} (h : store.Sound chart globals)
    (hmethods : ∀ {name method}, cls.methods.find? name = some method →
      method.MethodSound chart globals store) :
    (store.addClass cls).2.Sound chart globals := by
  have hgrows := Store.Grows.addClass store cls
  refine h.grows hgrows .inl ?_ .inl .inl
  intro id found hfound
  simp only [Store.addClass, Array.getElem?_push] at hfound
  split at hfound
  · cases hfound
    exact .inr fun hmethod => (hmethods hmethod).grows hgrows
  · exact .inl hfound

theorem addObject
    (h : store.Sound chart globals) (object : Object) :
    (store.addObject object).2.Sound chart globals :=
  h.grows (.addObject ..) .inl .inl .inl .inl

theorem setField
    (h : store.Sound chart globals) (id : ObjectId) (name : String)
    (value : Value) : (store.setField id name value).Sound chart globals :=
  h.grows (.setField ..) .inl .inl .inl .inl

theorem method?
    {id : ClassId} {name : String} {method : Function}
    (h : store.Sound chart globals)
    (hmethod : store.method? id name = some method) :
    method.MethodSound chart globals store := by
  obtain ⟨owner, cls, hcls, hfound⟩ := Store.exists_class_of_method? hmethod
  exact h.methods hcls hfound

end Store.Sound

/-- The current frame is one of the store. -/
theorem Machine.Sound.current_lt
    {m : Machine} {stack : Stack} (h : m.Sound chart)
    (hsituated : m.Situated stack) : m.current < m.store.frames.size := by
  cases stack with
  | nil =>
      have hglobals : m.current = m.globals := hsituated.fits
      exact hglobals ▸ h.store.outermost
  | cons names stack => exact hsituated.current_lt

/-- Nothing but the store changes. -/
theorem Machine.Sound.withStore
    {m : Machine} (h : m.Sound chart) (hstore : after.Sound chart m.globals) :
    Machine.Sound chart { m with store := after } :=
  ⟨hstore, h.distances⟩

theorem Machine.Sound.within
    {m : Machine} {parent : Option FrameId} {names : Bindings Value}
    (h : m.Sound chart)
    (hthis : ∀ {value}, names.find? "this" = some value →
      ∃ object, value = .object object)
    (hsuper : ∀ {value}, names.find? "super" = some value →
      ∃ cls, value = .classRef cls) :
    (m.within parent names).Sound chart :=
  ⟨h.store.addFrame hthis hsuper, h.distances⟩

end

end LoxLang
