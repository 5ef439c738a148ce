import Mathlib.Logic.Relation
import LoxLang.Proofs.Run.Chains

/-!
# Ancestors are older

Frames and classes are made after what they refer to: the frame around a frame
and the superclass of a class are older than the frame and the class
themselves.  From each of them, a chain of ever older ones therefore leads to
one that has no ancestor, and all searches follow that chain.

A store changes in six ways, and each of them keeps the ancestors older and
leaves in place what was there.
-/

namespace LoxLang

/-! ## Chains -/

/-- The steps from `next` to `next`, up to where there is none. -/
inductive Chain (next : Nat → Option Nat) : Nat → List Nat → Prop where
  | last : next first = none → Chain next first [first]
  | link : next first = some outer → Chain next outer rest →
      Chain next first (first :: rest)

namespace Chain

variable {next : Nat → Option Nat} {id : Nat} {ids : List Nat}

theorem exists_of_lt
    (hnext : ∀ ⦃id outer⦄, next id = some outer → outer < id) (id : Nat) :
    ∃ ids, Chain next id ids := by
  induction id using Nat.strongRecOn with
  | ind id ih =>
      cases houter : next id with
      | none => exact ⟨[id], .last houter⟩
      | some outer =>
          obtain ⟨ids, hids⟩ := ih outer (hnext houter)
          exact ⟨id :: ids, .link houter hids⟩

/-- There is one chain from everywhere. -/
theorem eq_of_chain
    {others : List Nat} (h : Chain next id ids)
    (hothers : Chain next id others) : others = ids := by
  induction h generalizing others with
  | last hnone =>
      cases hothers with
      | last _ => rfl
      | link hsome _ =>
          rw [hnone] at hsome
          cases hsome
  | link houter _ ih =>
      cases hothers with
      | last hnone =>
          rw [houter] at hnone
          cases hnone
      | link hsame hrest =>
          rw [houter] at hsame
          cases hsame
          rw [ih hrest]

private theorem le_of_mem
    (hnext : ∀ ⦃id outer⦄, next id = some outer → outer < id)
    (h : Chain next id ids) : ∀ other ∈ ids, other ≤ id := by
  induction h with
  | last _ =>
      intro other hother
      exact Nat.le_of_eq (List.mem_singleton.mp hother)
  | link houter _ ih =>
      intro other hother
      cases List.mem_cons.mp hother with
      | inl hsame => exact Nat.le_of_eq hsame
      | inr hmem =>
          exact Nat.le_trans (ih other hmem) (Nat.le_of_lt (hnext houter))

theorem descending
    (hnext : ∀ ⦃id outer⦄, next id = some outer → outer < id)
    (h : Chain next id ids) : ids.Pairwise (· > ·) := by
  induction h with
  | last _ => exact List.pairwise_singleton _ _
  | link houter hrest ih =>
      rw [List.pairwise_cons]
      constructor
      · intro other hother
        exact Nat.lt_of_le_of_lt (hrest.le_of_mem hnext other hother)
          (hnext houter)
      · exact ih

end Chain

namespace Store

variable {store before after : Store}

/-! ## Searches along chains -/

/-- The superclass of a class. -/
def superclass? (store : Store) (id : ClassId) : Option ClassId :=
  store.classes[id]?.bind Class.superclass

/-- The method of a name that a class declares itself. -/
def ownMethod? (store : Store) (id : ClassId) (name : String) :
    Option Function :=
  store.classes[id]?.bind fun cls => cls.methods.find? name

/-- A search for a name goes along the frames up to the first that binds it. -/
theorem holder?_eq_find?
    {id : FrameId} {ids : List FrameId} (hordered : store.Ordered)
    (h : Chain store.parent? id ids) (name : String) :
    store.holder? id name =
      ids.find? fun frame => (store.local? frame name).isSome := by
  induction h with
  | @last id hnone =>
      rw [holder?]
      by_cases hlocal : (store.local? id name).isSome = true
      · simp [hlocal]
      · simp [hlocal, hnone]
  | @link id outer ids houter _ ih =>
      rw [holder?]
      by_cases hlocal : (store.local? id name).isSome = true
      · simp [hlocal]
      · simp [hlocal, houter, hordered houter, ih]

/-- A counted walk goes along the frames as far as they reach. -/
theorem ancestor_eq_getElem?
    {id : FrameId} {ids : List FrameId} (h : Chain store.parent? id ids)
    (distance : Nat) :
    store.ancestor id distance =
      ids[distance]?.elim (.error (distance + 1 - ids.length)) .ok := by
  induction h generalizing distance with
  | last hnone =>
      cases distance with
      | zero => rfl
      | succ distance => simp [ancestor, hnone]
  | link houter _ ih =>
      cases distance with
      | zero => rfl
      | succ distance =>
          rw [ancestor, houter]
          simp [ih distance]

private theorem method?_eq_or (store : Store) (id : ClassId) (name : String) :
    store.method? id name =
      (store.ownMethod? id name).or
        ((store.superclass? id).bind fun superclass =>
          if superclass < id then store.method? superclass name else none) := by
  rw [method?, ownMethod?, superclass?]
  cases store.classes[id]? with
  | none => rfl
  | some cls =>
      dsimp only [Option.bind_some]
      cases cls.methods.find? name with
      | some method => rfl
      | none =>
          cases cls.superclass with
          | none => rfl
          | some superclass => rfl

/-- A search for a method goes along the superclasses up to the first class that
declares it. -/
theorem method?_eq_findSome?
    {id : ClassId} {ids : List ClassId}
    (hsuperclass : ∀ ⦃id superclass⦄, store.superclass? id = some superclass →
      superclass < id)
    (h : Chain store.superclass? id ids) (name : String) :
    store.method? id name =
      ids.findSome? fun cls => store.ownMethod? cls name := by
  induction h with
  | last hnone =>
      rw [method?_eq_or, hnone, Option.bind_none, Option.or_none,
        List.findSome?_singleton]
  | link houter _ ih =>
      rw [method?_eq_or, houter, Option.bind_some,
        if_pos (hsuperclass houter), ih, List.findSome?_cons]
      cases store.ownMethod? _ name <;> rfl

/-! ## Founded stores -/

/-- Whatever a frame, a class, a function or an instance refers to as its
ancestor, its closure or its class is there, and an ancestor is older. -/
structure Founded (store : Store) : Prop where
  frames : store.Ordered
  classes : ∀ ⦃id superclass⦄, store.superclass? id = some superclass →
    superclass < id
  functions : ∀ {id : FunctionId} {function},
    store.functions[id]? = some function →
    function.closure < store.frames.size
  methods : ∀ {id name method}, store.ownMethod? id name = some method →
    method.closure < store.frames.size
  objects : ∀ {id : ObjectId} {object}, store.objects[id]? = some object →
    object.classId < store.classes.size

/-- A method that is found has its closure in the store. -/
theorem Founded.method?
    {id : ClassId} {name : String} {method : Function} (h : store.Founded)
    (hmethod : store.method? id name = some method) :
    method.closure < store.frames.size := by
  obtain ⟨ids, hids⟩ := Chain.exists_of_lt h.classes id
  rw [method?_eq_findSome? h.classes hids] at hmethod
  obtain ⟨owner, -, hown⟩ := List.exists_of_findSome?_eq_some hmethod
  exact h.methods hown

/-- One change of a store.  All that is new in it refers to what is there. -/
inductive Change : Store → Store → Prop where
  | define {store : Store} {frame : FrameId} {name : String} {value : Value} :
      Change store (store.define frame name value)
  | addFrame {store : Store} {frame : Frame} :
      (∀ parent, frame.parent = some parent → parent < store.frames.size) →
      Change store (store.addFrame frame).2
  | addFunction {store : Store} {function : Function} :
      function.closure < store.frames.size →
      Change store (store.addFunction function).2
  | addClass {store : Store} {cls : Class} :
      (∀ superclass, cls.superclass = some superclass →
        superclass < store.classes.size) →
      (∀ name method, cls.methods.find? name = some method →
        method.closure < store.frames.size) →
      Change store (store.addClass cls).2
  | addObject {store : Store} {object : Object} :
      object.classId < store.classes.size →
      Change store (store.addObject object).2
  | setField {store : Store} {object : ObjectId} {name : String}
    {value : Value} :
      Change store (store.setField object name value)

/-- A frame is made inside of another one. -/
theorem Change.inside
    {parent : FrameId} (hparent : parent < store.frames.size)
    (names : Bindings Value) :
    Change store (store.addFrame ⟨some parent, names⟩).2 := by
  apply Change.addFrame
  intro id hid
  cases hid
  exact hparent

/-- Any number of changes. -/
abbrev Becomes : Store → Store → Prop :=
  Relation.ReflTransGen Change

private theorem classes_addClass (cls : Class) (id : ClassId) :
    (store.addClass cls).2.classes[id]? =
      if id = store.classes.size then some cls else store.classes[id]? := by
  simp [addClass, Array.getElem?_push]

theorem Change.grows (h : Change before after) : before.Grows after := by
  cases h with
  | define => exact .define ..
  | addFrame => exact .addFrame ..
  | addFunction => exact .addFunction ..
  | addClass => exact .addClass ..
  | addObject => exact .addObject ..
  | setField => exact .setField ..

/-- Frames are changed or added, and nothing else is. -/
theorem Founded.of_frames
    (h : before.Founded) (hordered : after.Ordered)
    (hsize : before.frames.size ≤ after.frames.size)
    (hfunctions : after.functions = before.functions)
    (hclasses : after.classes = before.classes)
    (hobjects : after.objects = before.objects) : after.Founded := by
  constructor
  · exact hordered
  · intro id superclass hfound
    rw [superclass?, hclasses] at hfound
    exact h.classes hfound
  · intro id function hfunction
    rw [hfunctions] at hfunction
    exact Nat.lt_of_lt_of_le (h.functions hfunction) hsize
  · intro id name method hfound
    rw [ownMethod?, hclasses] at hfound
    exact Nat.lt_of_lt_of_le (h.methods hfound) hsize
  · intro id object hobject
    rw [hobjects] at hobject
    rw [hclasses]
    exact h.objects hobject

theorem Founded.change (h : before.Founded) (hchange : Change before after) :
    after.Founded := by
  have hsize := hchange.grows.size_le
  cases hchange with
  | define => exact h.of_frames h.frames.define hsize rfl rfl rfl
  | addFrame hparent =>
      exact h.of_frames (h.frames.addFrame hparent) hsize rfl rfl rfl
  | addFunction hclosure =>
      constructor
      · exact h.frames
      · exact h.classes
      · intro id function hfunction
        simp only [addFunction, Array.getElem?_push] at hfunction
        split at hfunction
        · cases hfunction
          exact hclosure
        · exact h.functions hfunction
      · exact h.methods
      · exact h.objects
  | addClass hsuperclass hmethods =>
      constructor
      · exact h.frames
      · intro id superclass hfound
        rw [superclass?, classes_addClass] at hfound
        split at hfound
        · rename_i hid
          rw [hid]
          exact hsuperclass superclass hfound
        · exact h.classes hfound
      · exact h.functions
      · intro id name method hfound
        rw [ownMethod?, classes_addClass] at hfound
        split at hfound
        · exact hmethods name method hfound
        · exact h.methods hfound
      · intro id object hobject
        simp only [addClass, Array.size_push]
        exact Nat.lt_succ_of_lt (h.objects hobject)
  | addObject hclass =>
      constructor
      · exact h.frames
      · exact h.classes
      · exact h.functions
      · exact h.methods
      · intro id object hobject
        simp only [addObject, Array.getElem?_push] at hobject
        split at hobject
        · cases hobject
          exact hclass
        · exact h.objects hobject
  | setField =>
      constructor
      · exact h.frames
      · exact h.classes
      · exact h.functions
      · exact h.methods
      · intro id object hobject
        simp only [setField, Array.getElem?_modify] at hobject
        split at hobject
        · obtain ⟨old, hold, rfl⟩ := Option.map_eq_some_iff.mp hobject
          have hclass := h.objects hold
          exact hclass
        · exact h.objects hobject

theorem Becomes.grows (h : before.Becomes after) : before.Grows after := by
  induction h with
  | refl => exact .refl
  | tail _ hchange ih => exact ih.trans hchange.grows

theorem Founded.becomes (h : before.Founded) (hbecomes : before.Becomes after) :
    after.Founded := by
  induction hbecomes with
  | refl => exact h
  | tail _ hchange ih => exact ih.change hchange

/-- Up to the last one, each change leaves a founded store behind, and in it all
that was there. -/
theorem Founded.path (h : before.Founded) (hbecomes : before.Becomes after) :
    Relation.ReflTransGen
      (fun older newer => older.Change newer ∧ older.Grows newer ∧
        newer.Founded)
      before after := by
  induction hbecomes with
  | refl => exact .refl
  | tail hbefore hchange ih =>
      exact ih.tail
        ⟨hchange, hchange.grows, (h.becomes hbefore).change hchange⟩

theorem founded_empty : empty.Founded := by
  constructor
  · exact ordered_empty
  all_goals
    intros
    simp_all [superclass?, ownMethod?, empty]

end Store
end LoxLang
