import LoxLang.Run.Evaluation
import LoxLang.Proofs.Likeness.Scope

/-!
# Machines that keep alike trees

Two machines are alike when they hold the same values in the same frames and
instances, and the functions that they keep come from alike trees.  Places
that stand for each other have the same distance.  Alike machines cannot be
told apart by what they print, and every step keeps them alike.
-/

namespace LoxLang

structure Function.Alike (like : Likeness) (f f' : Function) : Prop where
  declaration : f.declaration.Alike like f'.declaration
  closure : f.closure = f'.closure
  initializer : f.initializer = f'.initializer

structure Class.Alike (like : Likeness) (c c' : Class) : Prop where
  name : c.name = c'.name
  superclass : c.superclass = c'.superclass
  methods : c.methods.Related (Function.Alike like) c'.methods

structure Store.Alike (like : Likeness) (s s' : Store) : Prop where
  frames : s.frames = s'.frames
  functions : ArraysRelated (Function.Alike like) s.functions s'.functions
  classes : ArraysRelated (Class.Alike like) s.classes s'.classes
  objects : s.objects = s'.objects

structure Machine.Alike (like : Likeness) (m m' : Machine) : Prop where
  store : m.store.Alike like m'.store
  globals : m.globals = m'.globals
  current : m.current = m'.current
  distances : m.distances.Alike like m'.distances
  sink : m.sink = m'.sink
  clock : m.clock = m'.clock
  ticks : m.ticks = m'.ticks
  host : m.host = m'.host

structure RuntimeError.Alike (like : Likeness) (e e' : RuntimeError) :
    Prop where
  cause : e.cause = e'.cause
  line : like.line e.line e'.line

inductive Defect.Alike (like : Likeness) : Defect → Defect → Prop where
  | same : Defect.Alike like d d
  | superSlots :
      like.line line line' →
      Defect.Alike like (.superSlots line) (.superSlots line')

inductive Halt.Alike (like : Likeness) : Halt → Halt → Prop where
  | fault : e.Alike like e' → Halt.Alike like (.fault e) (.fault e')
  | output : Halt.Alike like (.output e) (.output e)
  | defect : d.Alike like d' → Halt.Alike like (.defect d) (.defect d')
  | outOfFuel : Halt.Alike like .outOfFuel .outOfFuel

/-! ## Another likeness -/

section
variable {like other : Likeness}

theorem Function.Alike.mono
    {f f' : Function} (h : f.Alike like f') (hbelow : like.Below other) :
    f.Alike other f' where
  declaration :=
    h.declaration.imp hbelow.line fun _ _ _ hplace => hbelow.place hplace
  closure := h.closure
  initializer := h.initializer

theorem Class.Alike.mono
    {c c' : Class} (h : c.Alike like c') (hbelow : like.Below other) :
    c.Alike other c' where
  name := h.name
  superclass := h.superclass
  methods := Bindings.Related.mono h.methods fun _ _ hf => hf.mono hbelow

theorem Store.Alike.mono
    {s s' : Store} (h : s.Alike like s') (hbelow : like.Below other) :
    s.Alike other s' where
  frames := h.frames
  functions := h.functions.mono fun _ _ hf => hf.mono hbelow
  classes := h.classes.mono fun _ _ hc => hc.mono hbelow
  objects := h.objects

end

/-! ## Stores with the same frames -/

namespace Store

section
variable {store other : Store}

theorem local?_congr
    (hframes : store.frames = other.frames) (id : FrameId) (name : String) :
    store.local? id name = other.local? id name := by
  simp only [local?, hframes]

private theorem parent?_congr
    (hframes : store.frames = other.frames) (id : FrameId) :
    store.parent? id = other.parent? id := by
  simp only [parent?, hframes]

theorem holder?_congr
    (hframes : store.frames = other.frames) (id : FrameId) (name : String) :
    store.holder? id name = other.holder? id name := by
  induction id using Nat.strongRecOn with
  | ind id ih =>
      rw [holder?, holder?, local?_congr hframes, parent?_congr hframes]
      split
      · rfl
      · cases other.parent? id with
        | none => rfl
        | some parent =>
            dsimp only
            split
            · rename_i hlt
              exact ih parent hlt
            · rfl

private theorem ancestor_congr
    (hframes : store.frames = other.frames) (id : FrameId) (distance : Nat) :
    store.ancestor id distance = other.ancestor id distance := by
  induction distance generalizing id with
  | zero => rfl
  | succ distance ih =>
      unfold ancestor
      rw [parent?_congr hframes]
      cases other.parent? id with
      | none => rfl
      | some parent => exact ih parent

theorem slot_congr
    (hframes : store.frames = other.frames) (id : FrameId) (distance : Nat)
    (name : String) :
    store.slot id distance name = other.slot id distance name := by
  simp only [slot, ancestor_congr hframes, local?_congr hframes]

theorem readAt_congr
    (hframes : store.frames = other.frames) (id : FrameId) (distance : Nat)
    (name : String) :
    store.readAt id distance name = other.readAt id distance name := by
  simp only [readAt, slot_congr hframes, local?_congr hframes]

end

/-! ## Views of alike stores -/

namespace Alike

variable {like : Likeness} {s s' : Store}

theorem holder
    {id id' : FrameId} {name name' : Ident} (h : s.Alike like s')
    (hid : id = id') (hname : name.Alike like name') :
    ExceptRelated (RuntimeError.Alike like) Eq (s.holder id name)
      (s'.holder id' name') := by
  subst hid
  unfold Store.holder
  rw [← hname.name, ← holder?_congr h.frames]
  cases s.holder? id name.name with
  | none => exact .error ⟨rfl, hname.line⟩
  | some holder => exact .ok rfl

theorem lookup
    {id id' : FrameId} {name name' : Ident} (h : s.Alike like s')
    (hid : id = id') (hname : name.Alike like name') :
    ExceptRelated (RuntimeError.Alike like) Eq (s.lookup id name)
      (s'.lookup id' name') := by
  subst hid
  unfold Store.lookup
  rw [← hname.name, ← holder?_congr h.frames,
    ← funext fun holder => local?_congr h.frames holder name.name]
  cases (s.holder? id name.name).bind fun holder =>
      s.local? holder name.name with
  | none => exact .error ⟨rfl, hname.line⟩
  | some value => exact .ok rfl

theorem method?
    (h : s.Alike like s') (id : ClassId) (name : String) :
    Paired (Function.Alike like) (s.method? id name) (s'.method? id name) := by
  induction id using Nat.strongRecOn with
  | ind id ih =>
      rw [Store.method?, Store.method?]
      have hclass := h.classes id
      generalize s.classes[id]? = found at hclass ⊢
      generalize s'.classes[id]? = found' at hclass ⊢
      cases hclass with
      | none => exact .none
      | @some cls cls' hcls =>
          have hmethod := hcls.methods name
          dsimp only
          rw [← hcls.superclass]
          generalize cls.methods.find? name = own at hmethod ⊢
          generalize cls'.methods.find? name = own' at hmethod ⊢
          cases hmethod with
          | some hmethod => exact .some hmethod
          | none =>
              dsimp only
              cases cls.superclass with
              | none => exact .none
              | some superclass =>
                  dsimp only
                  split
                  · rename_i hlt
                    exact ih superclass hlt
                  · exact .none

theorem className (h : s.Alike like s') (id : ClassId) :
    s.className id = s'.className id := by
  have hname := (h.classes id).map_eq fun _ _ hcls => hcls.name
  rw [Store.className, Store.className, hname]

private theorem functionName (h : s.Alike like s') (id : FunctionId) :
    s.functionName id = s'.functionName id := by
  have hname := (h.functions id).map_eq fun _ _ hfunction =>
    hfunction.declaration.name.name
  rw [Store.functionName, Store.functionName, hname]

theorem arity? (h : s.Alike like s') (value : Value) :
    s.arity? value = s'.arity? value := by
  cases value with
  | function id =>
      have harity := (h.functions id).map_eq fun _ _ hfunction =>
        hfunction.declaration.params.length_eq
      rw [Store.arity?, Store.arity?, Store.functionArity,
        Store.functionArity, harity]
  | classRef id =>
      have harity := (h.method? id initializerName).map_eq
        fun _ _ hmethod => hmethod.declaration.params.length_eq
      rw [Store.arity?, Store.arity?, Store.classArity, Store.classArity,
        harity]
  | _ => rfl

private theorem objectClassName (h : s.Alike like s') (id : ObjectId) :
    s.objectClassName id = s'.objectClassName id := by
  unfold Store.objectClassName
  rw [h.objects]
  cases s'.objects[id]? with
  | none => rfl
  | some object => exact h.className object.classId

theorem printed (h : s.Alike like s') (value : Value) :
    s.printed value = s'.printed value := by
  cases value with
  | function id => simp only [Store.printed, h.functionName]
  | classRef id => exact h.className id
  | object id => simp only [Store.printed, h.objectClassName]
  | bool value => cases value <;> rfl
  | _ => rfl

theorem field? (h : s.Alike like s') (id : ObjectId) (name : String) :
    s.field? id name = s'.field? id name := by
  simp only [Store.field?, h.objects]

theorem view (h : s.Alike like s') : s.view = s'.view := by
  simp only [Store.view, funext h.printed, funext h.arity?,
    funext fun id => funext (h.field? id)]

/-! ## Changes of alike stores -/

theorem addFrame (h : s.Alike like s') (frame : Frame) :
    (s.addFrame frame).1 = (s'.addFrame frame).1 ∧
      (s.addFrame frame).2.Alike like (s'.addFrame frame).2 :=
  ⟨congrArg Array.size h.frames,
    congrArg (·.push frame) h.frames, h.functions, h.classes, h.objects⟩

theorem addFunction
    {f f' : Function} (h : s.Alike like s') (hfunction : f.Alike like f') :
    (s.addFunction f).1 = (s'.addFunction f').1 ∧
      (s.addFunction f).2.Alike like (s'.addFunction f').2 :=
  ⟨h.functions.size_eq, h.frames, h.functions.push hfunction, h.classes,
    h.objects⟩

theorem addClass
    {c c' : Class} (h : s.Alike like s') (hclass : c.Alike like c') :
    (s.addClass c).1 = (s'.addClass c').1 ∧
      (s.addClass c).2.Alike like (s'.addClass c').2 :=
  ⟨h.classes.size_eq, h.frames, h.functions, h.classes.push hclass,
    h.objects⟩

theorem addObject (h : s.Alike like s') (object : Object) :
    (s.addObject object).1 = (s'.addObject object).1 ∧
      (s.addObject object).2.Alike like (s'.addObject object).2 :=
  ⟨congrArg Array.size h.objects, h.frames, h.functions, h.classes,
    congrArg (·.push object) h.objects⟩

theorem define
    {id id' : FrameId} (h : s.Alike like s') (hid : id = id')
    (name : String) (value : Value) :
    (s.define id name value).Alike like (s'.define id' name value) := by
  subst hid
  refine ⟨?_, h.functions, h.classes, h.objects⟩
  simp only [Store.define, h.frames]

theorem setField
    (h : s.Alike like s') (id : ObjectId) (name : String) (value : Value) :
    (s.setField id name value).Alike like (s'.setField id name value) := by
  refine ⟨h.frames, h.functions, h.classes, ?_⟩
  simp only [Store.setField, h.objects]

end Alike

end Store

namespace Machine.Alike

variable {like : Likeness} {m m' : Machine}

theorem withStore
    {s s' : Store} (h : m.Alike like m') (hstore : s.Alike like s') :
    Machine.Alike like { m with store := s } { m' with store := s' } :=
  ⟨hstore, h.globals, h.current, h.distances, h.sink, h.clock, h.ticks,
    h.host⟩

theorem withCurrent
    {frame frame' : FrameId} (h : m.Alike like m') (hframe : frame = frame') :
    Machine.Alike like { m with current := frame }
      { m' with current := frame' } :=
  ⟨h.store, h.globals, hframe, h.distances, h.sink, h.clock, h.ticks,
    h.host⟩

theorem withSink
    {sink sink' : Sink} (h : m.Alike like m') (hsink : sink = sink') :
    Machine.Alike like { m with sink := sink } { m' with sink := sink' } :=
  ⟨h.store, h.globals, h.current, h.distances, hsink, h.clock, h.ticks,
    h.host⟩

/-- Names at places that stand for each other are bound by the same frame. -/
theorem holder
    {id id' : PlaceId} {name name' : Ident} (h : m.Alike like m')
    (hplace : like.place id id') (hname : name.Alike like name') :
    ExceptRelated (Halt.Alike like) Eq (m.holder id name)
      (m'.holder id' name') := by
  unfold Machine.holder
  rw [← h.distances hplace, ← hname.name]
  cases m.distances.find? id with
  | some distance =>
      dsimp only
      rw [← h.current, ← Store.slot_congr h.store.frames]
      cases m.store.slot m.current distance name.name with
      | ok frame => exact .ok rfl
      | error d => exact .error (.defect .same)
  | none =>
      dsimp only
      have hholder := h.store.holder h.globals hname
      generalize m.store.holder m.globals name = found at hholder ⊢
      generalize m'.store.holder m'.globals name' = found' at hholder ⊢
      cases hholder with
      | ok hframe => exact .ok hframe
      | error he => exact .error (.fault he)

end Machine.Alike

/-! ## Steps -/

/-- Alike machines stay alike, and the steps end in the same way. -/
abbrev RunsAlike
    (like : Likeness) {α α' : Type} (values : α → α' → Prop) (x : Step α)
    (y : Step α') : Prop :=
  Coupled (Halt.Alike like) (Machine.Alike like) values x y

namespace Step

section
variable {like : Likeness} {α α' : Type} {values : α → α' → Prop}

theorem fail_alike
    {line line' : Nat} (cause : RuntimeError.Cause)
    (hline : like.line line line') :
    RunsAlike like values (fail cause line) (fail cause line') :=
  coupled_throw (.fault ⟨rfl, hline⟩)

theorem orDefect_alike (result : Except Defect α) :
    RunsAlike like Eq (orDefect result) (orDefect result) := by
  cases result with
  | ok a => exact coupled_pure rfl
  | error d => exact coupled_throw (.defect .same)

theorem ask_alike
    {question : Machine → α} {question' : Machine → α'}
    (h : ∀ m m', m.Alike like m' → values (question m) (question' m')) :
    RunsAlike like values (ask question) (ask question') :=
  fun m m' hm => .ok (h m m' hm) hm

theorem askCurrent_alike :
    RunsAlike like Eq (ask Machine.current) (ask Machine.current) :=
  ask_alike fun _ _ hm => hm.current

theorem askPrinted_alike (value : Value) :
    RunsAlike like Eq (ask fun machine => machine.store.printed value)
      (ask fun machine => machine.store.printed value) :=
  ask_alike fun _ _ hm => hm.store.printed value

theorem askHost_alike (id : Nat) (arguments : List Value) :
    RunsAlike like Eq
      (ask fun machine =>
        (machine.host id).call machine.store.view arguments)
      (ask fun machine =>
        (machine.host id).call machine.store.view arguments) :=
  ask_alike fun _ _ hm => by rw [hm.host, hm.store.view]

theorem askMethod_alike
    {name name' : String} (id : ClassId) (hname : name = name') :
    RunsAlike like (Paired (Function.Alike like))
      (ask fun machine => machine.store.method? id name)
      (ask fun machine => machine.store.method? id name') := by
  subst hname
  exact ask_alike fun _ _ hm => hm.store.method? id name

theorem askDefect_alike
    {question question' : Machine → Except Defect α}
    (h : ∀ m m', m.Alike like m' → question m = question' m') :
    RunsAlike like Eq (orDefect =<< ask question)
      (orDefect =<< ask question') :=
  (ask_alike h).bindSame orDefect_alike

theorem onStore_alike
    {change change' : Store → α × Store}
    (h : ∀ s s', s.Alike like s' →
      (change s).1 = (change' s').1 ∧ (change s).2.Alike like (change' s').2) :
    RunsAlike like Eq (onStore change) (onStore change') := by
  intro m m' hm
  obtain ⟨hsame, hstore⟩ := h m.store m'.store hm.store
  exact .ok hsame (hm.withStore hstore)

theorem define_alike
    {name name' : String} (hname : name = name') (value : Value) :
    RunsAlike like Eq (define name value) (define name' value) := by
  subst hname
  intro m m' hm
  exact .ok rfl (hm.withStore (hm.store.define hm.current name value))

theorem addFrame_alike (parent : Option FrameId) (names : Bindings Value) :
    RunsAlike like Eq (addFrame parent names) (addFrame parent names) :=
  onStore_alike fun _ _ h => h.addFrame _

theorem inFrame_alike
    {action : Step α} {action' : Step α'} (frame : FrameId)
    (h : RunsAlike like values action action') :
    RunsAlike like values (inFrame frame action) (inFrame frame action') := by
  intro m m' hm
  have haction := h _ _ (hm.withCurrent (@rfl _ frame))
  unfold inFrame
  dsimp only
  generalize action { m with current := frame } = result at haction ⊢
  generalize action' { m' with current := frame } = result' at haction ⊢
  cases haction with
  | ok hvalue hafter => exact .ok hvalue (hafter.withCurrent hm.current)
  | error hhalt hafter => exact .error hhalt (hafter.withCurrent hm.current)

theorem readName_alike
    {id id' : PlaceId} {name name' : Ident} (hplace : like.place id id')
    (hname : name.Alike like name') :
    RunsAlike like Eq (readName id name) (readName id' name') := by
  intro m m' hm
  unfold readName
  rw [← hm.distances hplace, ← hname.name]
  cases m.distances.find? id with
  | some distance =>
      dsimp only
      rw [← hm.current, ← Store.readAt_congr hm.store.frames]
      cases m.store.readAt m.current distance name.name with
      | ok value => exact .ok rfl hm
      | error d => exact .error (.defect .same) hm
  | none =>
      dsimp only
      have hlookup := hm.store.lookup hm.globals hname
      generalize m.store.lookup m.globals name = found at hlookup ⊢
      generalize m'.store.lookup m'.globals name' = found' at hlookup ⊢
      cases hlookup with
      | ok hvalue => exact .ok hvalue hm
      | error he => exact .error (.fault he) hm

theorem writeName_alike
    {id id' : PlaceId} {name name' : Ident} (hplace : like.place id id')
    (hname : name.Alike like name') (value : Value) :
    RunsAlike like Eq (writeName id name value)
      (writeName id' name' value) := by
  intro m m' hm
  have hholder := hm.holder hplace hname
  unfold writeName
  rw [← hname.name]
  generalize m.holder id name = found at hholder ⊢
  generalize m'.holder id' name' = found' at hholder ⊢
  cases hholder with
  | ok hframe =>
      exact .ok rfl (hm.withStore (hm.store.define hframe name.name value))
  | error hhalt => exact .error hhalt hm

theorem assignHere_alike
    {name name' : Ident} (hname : name.Alike like name') (value : Value) :
    RunsAlike like Eq (assignHere name value) (assignHere name' value) := by
  intro m m' hm
  have hholder := hm.store.holder hm.current hname
  unfold assignHere
  rw [← hname.name]
  generalize m.store.holder m.current name = found at hholder ⊢
  generalize m'.store.holder m'.current name' = found' at hholder ⊢
  cases hholder with
  | ok hframe =>
      exact .ok rfl (hm.withStore (hm.store.define hframe name.name value))
  | error he => exact .error (.fault he) hm

theorem print_alike (value : Value) :
    RunsAlike like Eq (print value) (print value) := by
  refine (askPrinted_alike value).bindSame fun text m m' hm => ?_
  unfold write
  rw [← hm.sink]
  generalize m.sink.write (text ++ "\n") = result
  obtain ⟨result, sink⟩ := result
  cases result with
  | ok _ => exact .ok rfl (hm.withSink rfl)
  | error e => exact .error .output (hm.withSink rfl)

theorem flush_alike : RunsAlike like Eq flush flush := by
  intro m m' hm
  unfold flush
  rw [← hm.sink]
  cases m.sink.flush with
  | ok _ => exact .ok rfl hm
  | error e => exact .error .output hm

theorem readClock_alike : RunsAlike like Eq readClock readClock := by
  intro m m' hm
  have hreading : m.clock m.ticks = m'.clock m'.ticks := by
    rw [hm.clock, hm.ticks]
  exact .ok (congrArg Value.number hreading)
    ⟨hm.store, hm.globals, hm.current, hm.distances, hm.sink, hm.clock,
      congrArg (· + 1) hm.ticks, hm.host⟩

end

end Step
end LoxLang
