import LoxLang.Proofs.Run.Task
import LoxLang.Proofs.Tree.Shape

/-!
# What a run leaves in place

Whatever is run, objects are only added: a frame keeps its parent and its
names, a function and a class stay as they are, an instance keeps its class
and its fields.  `Later` is what is left in place by a step that comes back to
the frame in which it started, and declares no names in it but the given ones.
-/

namespace LoxLang

@[simp]
theorem Bindings.has_empty {α : Type} (name : String) :
    (Bindings.empty : Bindings α).has name = false :=
  rfl

theorem Bindings.has_put
    {α : Type} (bindings : Bindings α) (name other : String) (value : α) :
    (bindings.put name value).has other =
      (decide (other = name) || bindings.has other) := by
  by_cases h : other = name <;> simp [has, find?_put, h]

namespace Store

/-! ## Views of a changed store -/

theorem frames_define
    (store : Store) (id other : FrameId) (name : String) (value : Value) :
    (store.define id name value).frames[other]? =
      if id = other then
        store.frames[other]?.map fun frame =>
          { frame with names := frame.names.put name value }
      else store.frames[other]? := by
  simp only [define, Array.getElem?_modify]

theorem local?_define
    (store : Store) (id other : FrameId) (name n : String) (value : Value) :
    (store.define id name value).local? other n =
      if id = other ∧ n = name ∧ id < store.frames.size then some value
      else store.local? other n := by
  simp only [local?, frames_define]
  by_cases hid : id = other
  · subst hid
    cases hframe : store.frames[id]? with
    | none =>
        have hsize : ¬ id < store.frames.size := by
          simpa using hframe
        simp [hsize]
    | some frame =>
        have hsize : id < store.frames.size :=
          (Array.getElem?_eq_some_iff.mp hframe).1
        simp [hsize, Bindings.find?_put]
  · simp [hid]

theorem frames_addFrame
    (store : Store) (frame : Frame) (id : FrameId) :
    (store.addFrame frame).2.frames[id]? =
      if id = store.frames.size then some frame else store.frames[id]? := by
  simp [addFrame, Array.getElem?_push]

theorem frames_addFrame_of_some
    {store : Store} {id : FrameId} {old : Frame} (frame : Frame)
    (h : store.frames[id]? = some old) :
    (store.addFrame frame).2.frames[id]? = some old := by
  have hsize : id < store.frames.size :=
    (Array.getElem?_eq_some_iff.mp h).1
  rw [frames_addFrame, if_neg (Nat.ne_of_lt hsize), h]

theorem local?_addFrame
    (store : Store) (frame : Frame) (id : FrameId) (name : String) :
    (store.addFrame frame).2.local? id name =
      if id = store.frames.size then frame.names.find? name
      else store.local? id name := by
  simp only [local?, frames_addFrame]
  split <;> rfl

/-! ## Growth -/

/-- Nothing that the store holds is taken away or exchanged. -/
structure Grows (before after : Store) : Prop where
  frames : ∀ {id : FrameId} {frame}, before.frames[id]? = some frame →
    ∃ frame', after.frames[id]? = some frame' ∧
      frame'.parent = frame.parent ∧
      ∀ name, frame.names.has name → frame'.names.has name
  functions : ∀ {id : FunctionId} {function},
    before.functions[id]? = some function →
    after.functions[id]? = some function
  classes : ∀ {id : ClassId} {cls},
    before.classes[id]? = some cls → after.classes[id]? = some cls
  objects : ∀ {id : ObjectId} {object},
    before.objects[id]? = some object →
    ∃ object', after.objects[id]? = some object' ∧
      object'.classId = object.classId ∧
      ∀ name, object.fields.has name → object'.fields.has name

namespace Grows

variable {store before middle after : Store}

protected theorem refl : store.Grows store where
  frames h := ⟨_, h, rfl, fun _ hname => hname⟩
  functions h := h
  classes h := h
  objects h := ⟨_, h, rfl, fun _ hname => hname⟩

protected theorem trans
    (hfirst : before.Grows middle) (hsecond : middle.Grows after) :
    before.Grows after where
  frames h := by
    obtain ⟨frame₁, h₁, hparent₁, hnames₁⟩ := hfirst.frames h
    obtain ⟨frame₂, h₂, hparent₂, hnames₂⟩ := hsecond.frames h₁
    exact ⟨frame₂, h₂, hparent₂.trans hparent₁,
      fun name hname => hnames₂ name (hnames₁ name hname)⟩
  functions h := hsecond.functions (hfirst.functions h)
  classes h := hsecond.classes (hfirst.classes h)
  objects h := by
    obtain ⟨object₁, h₁, hclass₁, hfields₁⟩ := hfirst.objects h
    obtain ⟨object₂, h₂, hclass₂, hfields₂⟩ := hsecond.objects h₁
    exact ⟨object₂, h₂, hclass₂.trans hclass₁,
      fun name hname => hfields₂ name (hfields₁ name hname)⟩

theorem size_le (h : before.Grows after) :
    before.frames.size ≤ after.frames.size := by
  apply Nat.le_of_not_lt
  intro hlt
  obtain ⟨frame, hframe, -⟩ := h.frames (Array.getElem?_eq_getElem hlt)
  exact Nat.lt_irrefl _ (Array.getElem?_eq_some_iff.mp hframe).1

theorem local?_isSome
    {id : FrameId} {name : String} (h : before.Grows after)
    (hlocal : (before.local? id name).isSome) :
    (after.local? id name).isSome := by
  cases hframe : before.frames[id]? with
  | none => simp [local?, hframe] at hlocal
  | some frame =>
      obtain ⟨frame', hframe', -, hnames⟩ := h.frames hframe
      have hname : frame.names.has name := by
        simpa [local?, hframe, Bindings.has] using hlocal
      simpa [local?, hframe', Bindings.has] using hnames name hname

theorem parent?
    {id parent : FrameId} (h : before.Grows after)
    (hparent : before.parent? id = some parent) :
    after.parent? id = some parent := by
  cases hframe : before.frames[id]? with
  | none => simp [Store.parent?, hframe] at hparent
  | some frame =>
      obtain ⟨frame', hframe', hsame, -⟩ := h.frames hframe
      have hold : frame.parent = some parent := by
        simpa [Store.parent?, hframe] using hparent
      simp [Store.parent?, hframe', hsame, hold]

theorem ancestor
    {distance : Nat} {id holder : FrameId} (h : before.Grows after)
    (hfound : before.ancestor id distance = .ok holder) :
    after.ancestor id distance = .ok holder := by
  induction distance generalizing id with
  | zero => exact hfound
  | succ distance ih =>
      cases hparent : before.parent? id with
      | none => simp [Store.ancestor, hparent] at hfound
      | some parent =>
          simp only [Store.ancestor, hparent] at hfound
          simp only [Store.ancestor, h.parent? hparent]
          exact ih hfound

theorem define
    (store : Store) (id : FrameId) (name : String) (value : Value) :
    store.Grows (store.define id name value) where
  frames {other frame} h := by
    rw [frames_define, h]
    by_cases hid : id = other
    · refine ⟨_, if_pos hid, rfl, fun n hn => ?_⟩
      simp [Bindings.has_put, hn]
    · exact ⟨frame, if_neg hid, rfl, fun _ hn => hn⟩
  functions h := h
  classes h := h
  objects h := ⟨_, h, rfl, fun _ hname => hname⟩

theorem addFrame (store : Store) (frame : Frame) :
    store.Grows (store.addFrame frame).2 where
  frames h :=
    ⟨_, frames_addFrame_of_some frame h, rfl, fun _ hname => hname⟩
  functions h := h
  classes h := h
  objects h := ⟨_, h, rfl, fun _ hname => hname⟩

/-- An element of an array is still there behind a new one. -/
theorem getElem?_push_of_some
    {α : Type} {items : Array α} {i : Nat} {item : α} (new : α)
    (h : items[i]? = some item) : (items.push new)[i]? = some item := by
  have hsize : i < items.size := (Array.getElem?_eq_some_iff.mp h).1
  rw [Array.getElem?_push, if_neg (Nat.ne_of_lt hsize), h]

theorem addFunction (store : Store) (function : Function) :
    store.Grows (store.addFunction function).2 where
  frames h := ⟨_, h, rfl, fun _ hname => hname⟩
  functions h := getElem?_push_of_some function h
  classes h := h
  objects h := ⟨_, h, rfl, fun _ hname => hname⟩

theorem addClass (store : Store) (cls : Class) :
    store.Grows (store.addClass cls).2 where
  frames h := ⟨_, h, rfl, fun _ hname => hname⟩
  functions h := h
  classes h := getElem?_push_of_some cls h
  objects h := ⟨_, h, rfl, fun _ hname => hname⟩

theorem addObject (store : Store) (object : Object) :
    store.Grows (store.addObject object).2 where
  frames h := ⟨_, h, rfl, fun _ hname => hname⟩
  functions h := h
  classes h := h
  objects h := ⟨_, getElem?_push_of_some object h, rfl, fun _ hname => hname⟩

theorem setField
    (store : Store) (id : ObjectId) (name : String) (value : Value) :
    store.Grows (store.setField id name value) where
  frames h := ⟨_, h, rfl, fun _ hname => hname⟩
  functions h := h
  classes h := h
  objects {other object} h := by
    simp only [Store.setField, Array.getElem?_modify, h]
    by_cases hid : id = other
    · refine ⟨_, if_pos hid, rfl, fun n hn => ?_⟩
      simp [Bindings.has_put, hn]
    · exact ⟨object, if_neg hid, rfl, fun _ hn => hn⟩

end Grows
end Store

/-- The names that a task may declare in the frame in which it starts. -/
def Task.declares : Task → List String
  | .exec stmt => stmt.declares
  | .execAll stmts => stmts.flatMap Stmt.declares
  | .rounds _ body => body.declares
  | .eval _ | .evalAll _ | .call .. | .invoke .. => []

/-! ## What holds later -/

/-- The machine after a task that may declare some names in the current
frame. -/
structure Machine.Later
    (declared : List String) (before after : Machine) : Prop where
  grows : before.store.Grows after.store
  gains : ∀ {id name}, id < before.store.frames.size →
    (after.store.local? id name).isSome →
    (before.store.local? id name).isSome ∨
      id = before.current ∧ name ∈ declared
  current : after.current = before.current
  globals : after.globals = before.globals
  distances : after.distances = before.distances
  clock : after.clock = before.clock
  host : after.host = before.host

namespace Machine.Later

variable {m before middle after : Machine} {declared more : List String}

protected theorem refl : m.Later declared m where
  grows := .refl
  gains _ h := .inl h
  current := rfl
  globals := rfl
  distances := rfl
  clock := rfl
  host := rfl

protected theorem trans
    (hfirst : before.Later declared middle)
    (hsecond : middle.Later declared after) : before.Later declared after where
  grows := hfirst.grows.trans hsecond.grows
  gains {id name} hid hafter := by
    have hmiddle : id < middle.store.frames.size :=
      Nat.lt_of_lt_of_le hid hfirst.grows.size_le
    cases hsecond.gains hmiddle hafter with
    | inl hold => exact hfirst.gains hid hold
    | inr hnew => exact .inr ⟨hnew.1.trans hfirst.current, hnew.2⟩
  current := hsecond.current.trans hfirst.current
  globals := hsecond.globals.trans hfirst.globals
  distances := hsecond.distances.trans hfirst.distances
  clock := hsecond.clock.trans hfirst.clock
  host := hsecond.host.trans hfirst.host

theorem mono
    (h : before.Later declared after) (hsub : declared ⊆ more) :
    before.Later more after where
  grows := h.grows
  gains hid hafter := (h.gains hid hafter).imp_right (.imp_right (hsub ·))
  current := h.current
  globals := h.globals
  distances := h.distances
  clock := h.clock
  host := h.host

/-- A store that grows without a new name in an older frame. -/
theorem of_store
    {store : Store} (hgrows : m.store.Grows store)
    (hnames : ∀ {id name}, id < m.store.frames.size →
      (store.local? id name).isSome → (m.store.local? id name).isSome) :
    m.Later declared { m with store := store } where
  grows := hgrows
  gains hid hafter := .inl (hnames hid hafter)
  current := rfl
  globals := rfl
  distances := rfl
  clock := rfl
  host := rfl

theorem define
    {name : String} (value : Value) (hname : name ∈ declared) :
    m.Later declared
      { m with store := m.store.define m.current name value } where
  grows := .define ..
  gains {id n} hid hafter := by
    rw [Store.local?_define] at hafter
    split at hafter
    · rename_i h
      exact .inr ⟨h.1.symm, h.2.1 ▸ hname⟩
    · exact .inl hafter
  current := rfl
  globals := rfl
  distances := rfl
  clock := rfl
  host := rfl

/-- A name that a frame has can be given another value. -/
theorem overwrite
    {id : FrameId} {name : String} (value : Value)
    (hname : (m.store.local? id name).isSome) :
    m.Later declared { m with store := m.store.define id name value } :=
  of_store (.define ..) fun {other n} _ hafter => by
    rw [Store.local?_define] at hafter
    split at hafter
    · rename_i h
      rw [← h.1, h.2.1]
      exact hname
    · exact hafter

theorem addFrame (frame : Frame) :
    m.Later declared { m with store := (m.store.addFrame frame).2 } :=
  of_store (.addFrame ..) fun hid hafter => by
    rw [Store.local?_addFrame, if_neg (Nat.ne_of_lt hid)] at hafter
    exact hafter

/-- What a new frame gains is of no concern to the frames before it. -/
theorem within
    {parent : Option FrameId} {names : Bindings Value}
    (h : (m.within parent names).Later declared after) :
    m.Later more { after with current := m.current } where
  grows := (Store.Grows.addFrame ..).trans h.grows
  gains {id name} hid hafter := by
    have hnew : id < (m.within parent names).store.frames.size :=
      Nat.lt_of_lt_of_le hid (Store.Grows.addFrame ..).size_le
    cases h.gains hnew hafter with
    | inl hold =>
        rw [Machine.within, Store.local?_addFrame,
          if_neg (Nat.ne_of_lt hid)] at hold
        exact .inl hold
    | inr hcurrent => exact absurd hcurrent.1 (Nat.ne_of_lt hid)
  current := rfl
  globals := h.globals
  distances := h.distances
  clock := h.clock
  host := h.host

end Machine.Later

/-! ## Where a name is held -/

theorem Store.local?_of_holder?
    {store : Store} {id holder : FrameId} {name : String}
    (h : store.holder? id name = some holder) :
    (store.local? holder name).isSome := by
  induction id using Nat.strongRecOn with
  | ind id ih =>
      rw [Store.holder?] at h
      split at h
      · rename_i hlocal
        cases h
        exact hlocal
      · split at h
        · rename_i parent _
          split at h
          · rename_i hlt
            exact ih parent hlt h
          · cases h
        · cases h

theorem Store.local?_of_holder
    {store : Store} {id holder : FrameId} {name : Ident}
    (h : store.holder id name = .ok holder) :
    (store.local? holder name.name).isSome := by
  cases hholder : store.holder? id name.name with
  | none => simp [Store.holder, hholder] at h
  | some found =>
      simp only [Store.holder, hholder, Except.ok.injEq] at h
      exact h ▸ Store.local?_of_holder? hholder

theorem Store.slot_eq_ok
    {store : Store} {id holder : FrameId} {distance : Nat} {name : String}
    (h : store.slot id distance name = .ok holder) :
    store.ancestor id distance = .ok holder ∧
      (store.local? holder name).isSome := by
  cases hancestor : store.ancestor id distance with
  | error left => simp [Store.slot, hancestor] at h
  | ok found =>
      simp only [Store.slot, hancestor] at h
      split at h
      · rename_i hlocal
        cases h
        exact ⟨rfl, hlocal⟩
      · cases h

theorem Machine.local?_of_holder
    {m : Machine} {id : PlaceId} {name : Ident} {holder : FrameId}
    (h : m.holder id name = .ok holder) :
    (m.store.local? holder name.name).isSome := by
  cases hdistance : m.distances.find? id with
  | none =>
      cases hholder : m.store.holder m.globals name with
      | error e =>
          simp only [Machine.holder, hdistance, hholder] at h
          cases h
      | ok found =>
          simp only [Machine.holder, hdistance, hholder] at h
          cases h
          exact Store.local?_of_holder hholder
  | some distance =>
      cases hslot : m.store.slot m.current distance name.name with
      | error d =>
          simp only [Machine.holder, hdistance, hslot] at h
          cases h
      | ok found =>
          simp only [Machine.holder, hdistance, hslot] at h
          cases h
          exact (Store.slot_eq_ok hslot).2

namespace Step

/-! ## Steps on their own -/

/-- However the step ends, it has declared no more than the given names. -/
def Keeps (declared : List String) (step : Step α) : Prop :=
  ∀ m : Machine,
    step.Ends m (fun _ m₁ => m.Later declared m₁) fun _ m₁ =>
      m.Later declared m₁

variable {α β : Type} {declared more : List String}

theorem Keeps.bind
    {step : Step α} {next : α → Step β}
    (hstep : step.Keeps declared) (hnext : ∀ a, (next a).Keeps declared) :
    (step >>= next).Keeps declared := by
  intro m
  refine Ends.bind (hstep m) fun a m₁ _ hlater => ?_
  exact (hnext a m₁).mono (fun _ _ _ h => hlater.trans h)
    fun _ _ h => hlater.trans h

theorem keeps_ask (question : Machine → α) :
    (ask question).Keeps declared :=
  fun _ => .refl

theorem keeps_nested
    {action : Step α} (parent : Option FrameId) (names : Bindings Value)
    (haction : action.Keeps declared) :
    (nested parent names action).Keeps more := by
  intro m
  refine ends_nested ?_
  exact (haction _).mono (fun _ _ _ h => h.within) fun _ _ h => h.within

theorem keeps_print (value : Value) : (print value).Keeps declared := by
  refine Keeps.bind (keeps_ask _) fun text m => ?_
  simp only [Ends, write]
  cases (m.sink.write (text ++ "\n")).1 <;>
    exact ⟨.refl, fun _ h => .inl h, rfl, rfl, rfl, rfl, rfl⟩

private theorem keeps_finishClass (name : Ident) (cls : Class) :
    (onStore (fun store => store.addClass cls) >>= fun id =>
      assignHere name (.classRef id)).Keeps declared := by
  refine Keeps.bind (fun _ => .of_store (.addClass ..) fun _ h => h) ?_
  intro id m
  simp only [Ends, assignHere]
  cases hholder : m.store.holder m.current name with
  | error e => exact .refl
  | ok holder => exact .overwrite _ (Store.local?_of_holder hholder)

theorem keeps_declareClass
    (name : Ident) (superclass : Option ClassId)
    (methods : List FunctionDecl) :
    (declareClass name superclass methods).Keeps declared := by
  rw [declareClass_eq]
  refine (keeps_ask _).bind fun current => ?_
  cases superclass with
  | none => exact keeps_finishClass name _
  | some id =>
      exact Keeps.bind (fun _ => .addFrame _) fun _ =>
        keeps_finishClass name _

end Step
end LoxLang
