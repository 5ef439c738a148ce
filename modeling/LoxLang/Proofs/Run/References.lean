import LoxLang.Proofs.Run.Makeup

/-!
# Every reference leads somewhere

A reference to a function, a class or an instance is made together with what it
refers to, and nothing is ever removed from the store.  So whatever a frame or
a field holds, and whatever a task gives, is no reference into the void.  The
methods that are found from a class are therefore the same ones ever after.
-/

namespace LoxLang

namespace Store

variable {store before after : Store}

/-- A reference refers to something in the store. -/
def Knows (store : Store) : Value → Prop
  | .function id => id < store.functions.size
  | .classRef id => id < store.classes.size
  | .object id => id < store.objects.size
  | .nil | .bool _ | .number _ | .string _ | .native _ => True

theorem Grows.knows
    {value : Value} (h : before.Grows after) (hvalue : before.Knows value) :
    after.Knows value := by
  cases value with
  | function id =>
      have hold := h.functions (Array.getElem?_eq_getElem hvalue)
      exact (Array.getElem?_eq_some_iff.mp hold).1
  | classRef id =>
      have hold := h.classes (Array.getElem?_eq_getElem hvalue)
      exact (Array.getElem?_eq_some_iff.mp hold).1
  | object id =>
      obtain ⟨object, hold, -⟩ :=
        h.objects (Array.getElem?_eq_getElem hvalue)
      exact (Array.getElem?_eq_some_iff.mp hold).1
  | nil | bool | number | string | native => trivial

theorem Grows.knows_all
    {values : List Value} (h : before.Grows after)
    (hvalues : ∀ value ∈ values, before.Knows value) :
    ∀ value ∈ values, after.Knows value :=
  fun value hmem => h.knows (hvalues value hmem)

/-- The methods that a class declares or inherits stay the same. -/
theorem Grows.method?
    {id : ClassId} (h : before.Grows after) (hid : id < before.classes.size)
    (name : String) : after.method? id name = before.method? id name := by
  induction id using Nat.strongRecOn with
  | ind id ih =>
      have hcls := Array.getElem?_eq_getElem hid
      rw [Store.method?, Store.method?, h.classes hcls, hcls]
      dsimp only
      cases before.classes[id].methods.find? name with
      | some method => rfl
      | none =>
          dsimp only
          cases before.classes[id].superclass with
          | none => rfl
          | some superclass =>
              dsimp only
              split
              · rename_i hlt
                exact ih superclass hlt (Nat.lt_trans hlt hid)
              · rfl

/-- All references that the store itself holds lead somewhere. -/
structure Closed (store : Store) : Prop where
  frames : ∀ {frame name value}, store.local? frame name = some value →
    store.Knows value
  fields : ∀ {object name value}, store.field? object name = some value →
    store.Knows value

namespace Closed

/-- Neither a frame nor an instance changes what it holds. -/
theorem grows
    (h : store.Closed) (hgrows : store.Grows after)
    (hframes : ∀ {frame name}, after.local? frame name =
      store.local? frame name)
    (hfields : ∀ {object name}, after.field? object name =
      store.field? object name) : after.Closed where
  frames hlocal := hgrows.knows (h.frames (hframes ▸ hlocal))
  fields hfield := hgrows.knows (h.fields (hfields ▸ hfield))

theorem define
    {value : Value} (h : store.Closed) (hvalue : store.Knows value)
    (frame : FrameId) (name : String) :
    (store.define frame name value).Closed where
  frames {other n found} hlocal := by
    apply (Grows.define store frame name value).knows
    rw [local?_define] at hlocal
    split at hlocal
    · cases hlocal
      exact hvalue
    · exact h.frames hlocal
  fields hfield := h.fields hfield

theorem addFrame
    {names : Bindings Value} (h : store.Closed)
    (hnames : ∀ {name value}, names.find? name = some value →
      store.Knows value)
    (parent : Option FrameId) :
    (store.addFrame ⟨parent, names⟩).2.Closed where
  frames {other n found} hlocal := by
    apply (Grows.addFrame store ⟨parent, names⟩).knows
    rw [local?_addFrame] at hlocal
    split at hlocal
    · exact hnames hlocal
    · exact h.frames hlocal
  fields hfield := h.fields hfield

theorem addFunction (h : store.Closed) (function : Function) :
    (store.addFunction function).2.Closed :=
  h.grows (.addFunction ..) rfl rfl

theorem addClass (h : store.Closed) (cls : Class) :
    (store.addClass cls).2.Closed :=
  h.grows (.addClass ..) rfl rfl

theorem addObject (h : store.Closed) (id : ClassId) :
    (store.addObject ⟨id, .empty⟩).2.Closed := by
  apply h.grows (.addObject ..) rfl
  intro object name
  simp only [field?, Store.addObject, Array.getElem?_push]
  split
  · rename_i hobject
    subst hobject
    simp
  · rfl

theorem setField
    {value : Value} (h : store.Closed) (hvalue : store.Knows value)
    (object : ObjectId) (name : String) :
    (store.setField object name value).Closed where
  frames hlocal :=
    (Grows.setField store object name value).knows (h.frames hlocal)
  fields {other n found} hfield := by
    apply (Grows.setField store object name value).knows
    simp only [field?, Store.setField, Array.getElem?_modify] at hfield
    split at hfield
    · cases hobject : store.objects[other]? with
      | none => simp [hobject] at hfield
      | some record =>
          simp only [hobject, Option.map_some, Option.bind_some,
            Bindings.find?_put] at hfield
          split at hfield
          · cases hfield
            exact hvalue
          · refine h.fields (show store.field? other n = some found from ?_)
            simpa [field?, hobject] using hfield
    · exact h.fields hfield

end Closed
end Store

theorem Step.knows_bindParams
    {store : Store} {params : List Ident} {arguments : List Value}
    (harguments : ∀ value ∈ arguments, store.Knows value)
    {name : String} {value : Value}
    (hfind : (bindParams params arguments).find? name = some value) :
    store.Knows value := by
  revert name value
  refine List.foldlRecOn (motive := fun names : Bindings Value =>
    ∀ {name value}, names.find? name = some value → store.Knows value) _ _ ?_ ?_
  · intro name value hfind
    cases hfind
  · rintro names hnames ⟨param, argument⟩ hpair name value hfind
    dsimp only at hfind
    rw [Bindings.find?_put] at hfind
    split at hfind
    · cases hfind
      exact harguments _ (List.of_mem_zip hpair).2
    · exact hnames hfind

/-! ## Tasks -/

namespace Task

/-- What a task is given are no references into the void. -/
def Takes (store : Store) (task : Task) : Prop :=
  ∀ value ∈ task.arguments, store.Knows value

/-- Neither is what a task gives. -/
def Gives (store : Store) (task : Task) (result : task.Result) : Prop :=
  ∀ value ∈ task.values result, store.Knows value

end Task

section
variable {fuel : Nat} {task task' : Task} {start m m₁ : Machine}
variable {hand gained : List Value}

/-- A value that can be had leads somewhere. -/
theorem Machine.Offers.knows
    {value : Value} (h : m.Offers hand value) (hm : m.store.Closed)
    (hhand : ∀ value ∈ hand, m.store.Knows value) : m.store.Knows value := by
  cases h with
  | hand hmem => exact hhand value hmem
  | plain hplain =>
      cases value with
      | function | classRef | object => cases hplain
      | nil | bool | number | string | native => trivial
  | name hlocal => exact hm.frames hlocal
  | field hfield => exact hm.fields hfield

/-- A frame that binds one name. -/
theorem Store.Closed.addFrame_one
    {store : Store} {value : Value} (h : store.Closed)
    (hvalue : store.Knows value) (parent : Option FrameId) (name : String) :
    (store.addFrame ⟨parent, Bindings.empty.put name value⟩).2.Closed := by
  apply h.addFrame
  intro other found hfound
  rw [Bindings.find?_put] at hfound
  split at hfound
  · cases hfound
    exact hvalue
  · cases hfound

/-- No part of a task makes a reference that leads nowhere. -/
theorem Part.closed
    (h : Part fuel task start hand m gained m₁) (hm : m.store.Closed)
    (hhand : ∀ value ∈ hand, m.store.Knows value) :
    m₁.store.Closed ∧ ∀ value ∈ gained, m₁.store.Knows value := by
  have hknows {value : Value} (hvalue : m.Offers hand value) :
      m.store.Knows value :=
    hvalue.knows hm hhand
  cases h with
  | idle hgained =>
      exact ⟨hm, fun value hvalue => hknows (hgained value hvalue)⟩
  | tick hplain =>
      exact ⟨hm, List.forall_mem_singleton.mpr (hknows (.plain hplain))⟩
  | declare _ _ hvalue =>
      exact ⟨hm.define (hknows hvalue) _ _, List.forall_mem_nil _⟩
  | assign _ _ hvalue =>
      exact ⟨hm.define (hknows hvalue) _ _, List.forall_mem_nil _⟩
  | setField hvalue =>
      exact ⟨hm.setField (hknows hvalue) _ _, List.forall_mem_nil _⟩
  | function | method =>
      refine ⟨hm.addFunction _, List.forall_mem_singleton.mpr ?_⟩
      simp [Store.Knows, Store.addFunction]
  | this _ hobject =>
      exact ⟨hm.addFrame_one (hknows hobject) _ _, List.forall_mem_nil _⟩
  | super hclass =>
      exact ⟨hm.addFrame_one (hknows hclass) _ _, List.forall_mem_nil _⟩
  | addClass =>
      refine ⟨hm.addClass _, List.forall_mem_singleton.mpr ?_⟩
      simp [Store.Knows, Store.addClass]
  | addObject =>
      refine ⟨hm.addObject _, List.forall_mem_singleton.mpr ?_⟩
      simp [Store.Knows, Machine.withObject, Store.addObject]

/-- The store is closed, and what is at hand leads somewhere. -/
structure Machine.Closed (hand : List Value) (m : Machine) : Prop where
  store : m.store.Closed
  hand : ∀ value ∈ hand, m.store.Knows value

end

/-! ## Whole runs -/

open Step

/-- Every task, started in a closed store, leaves one behind. -/
def Closing (fuel : Nat) : Prop :=
  ∀ (task : Task) (m : Machine), m.store.Closed → task.Takes m.store →
    (task.run fuel).Ends m
      (fun result m₁ => m₁.store.Closed ∧ task.Gives m₁.store result)
      fun _ m₁ => m₁.store.Closed

section
variable {fuel : Nat} {task task' : Task} {m m' : Machine}

/-- A new frame holds nothing but what the task is given. -/
theorem Opens.knows
    {parent : Option FrameId} {names : Bindings Value} {store : Store}
    (hopens : Opens m task parent names task') (htask : task.Takes store)
    {name : String} {value : Value} (hvalue : names.find? name = some value) :
    store.Knows value := by
  cases hopens with
  | body => exact knows_bindParams htask hvalue
  | block => cases hvalue

theorem Opens.takes
    {parent : Option FrameId} {names : Bindings Value}
    (hopens : Opens m task parent names task') (store : Store) :
    task'.Takes store := by
  cases hopens <;> exact List.forall_mem_nil _

theorem Opens.closed
    {parent : Option FrameId} {names : Bindings Value}
    (hopens : Opens m task parent names task')
    (h : m.Closed task.arguments) : (m.within parent names).Closed [] :=
  ⟨h.store.addFrame (hopens.knows h.hand) parent, List.forall_mem_nil _⟩

theorem Closing.invariant
    (hclosing : Closing fuel) (task : Task) (m : Machine) :
    Invariant fuel task m fun hand m₁ => m₁.Closed hand := by
  constructor
  · exact fun hfewer h =>
      ⟨h.store, fun value hvalue => h.hand value (hfewer hvalue)⟩
  · intro hand m₁ gained m₂ hpart h
    obtain ⟨hclosed, hgained⟩ := hpart.closed h.store h.hand
    have hhand := hpart.later.grows.knows_all h.hand
    exact ⟨hclosed, List.forall_mem_append.mpr ⟨hgained, hhand⟩⟩
  · exact fun h => ⟨h.store, h.hand⟩
  · intro hand m₁ task' hhanded h
    have htakes : task'.Takes m₁.store :=
      fun value hvalue => h.hand value (hhanded.values hvalue)
    refine (hclosing task' m₁ h.store htakes).mono (fun a m₂ hrun h' => ?_)
      fun _ m₂ h' => ⟨h', List.forall_mem_nil _⟩
    have hgrows := ((run_keeps fuel task' m₁).of_ok hrun).grows
    exact ⟨h'.1, List.forall_mem_append.mpr ⟨h'.2, hgrows.knows_all h.hand⟩⟩
  · intro task' parent names hopens h
    refine (hclosing task' _ (hopens.closed h).store (hopens.takes _)).mono
      (fun a m₂ hrun h' => ?_) fun _ m₂ h' => ⟨h', List.forall_mem_nil _⟩
    have hgrows := (Store.Grows.addFrame ..).trans
      ((run_keeps fuel task' _).of_ok hrun).grows
    exact ⟨h'.1, List.forall_mem_append.mpr ⟨h'.2, hgrows.knows_all h.hand⟩⟩

/-- No run makes a reference that leads nowhere. -/
theorem closing (fuel : Nat) : Closing fuel := by
  induction fuel with
  | zero =>
      intro task m hm _
      cases task <;> exact hm
  | succ fuel hclosing =>
      intro task m hm htask
      have hends := (shape fuel task m).composed.ends
        (hclosing.invariant task m) ⟨hm, htask⟩
      refine hends.mono (fun a m₁ _ h => ?_) fun _ m₁ h => h.store
      exact ⟨h.store, fun value hvalue =>
        h.hand value (List.mem_append_left _ hvalue)⟩

/-- A task that is taken up by another one starts in a closed store too. -/
theorem Enters.closed
    (henters : Enters fuel task m task' m') (hm : m.store.Closed)
    (htask : task.Takes m.store) :
    m'.store.Closed ∧ task'.Takes m'.store := by
  have h := ((shape fuel task m).hands henters).reach
    ((closing fuel).invariant task m) (fun hopens h => hopens.closed h)
    ⟨hm, htask⟩
  exact ⟨h.store, h.hand⟩

end
end LoxLang
