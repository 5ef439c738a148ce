import LoxLang.Proofs.Run.Ancestry
import LoxLang.Proofs.Run.Endurance
import LoxLang.Proofs.Run.References

/-!
# How a run builds its store

Whatever tree is carried out and whatever distances it is given, a run takes
its store from one change to the next, and each of these changes refers only to
what is there.  This holds up to the end of every task, however it ends, and up
to the start of every task that it hands over to.
-/

namespace LoxLang

/-- The store is founded, all references lead somewhere, and the scope that is
being executed has its frame. -/
structure Machine.Founded (m : Machine) : Prop where
  store : m.store.Founded
  closed : m.store.Closed
  current : m.current < m.store.frames.size

/-- What the task is given is there. -/
def Task.Ready (store : Store) : Task → Prop
  | .call callee arguments _ =>
      store.Knows callee ∧ ∀ value ∈ arguments, store.Knows value
  | .invoke function arguments =>
      function.closure < store.frames.size ∧
        ∀ value ∈ arguments, store.Knows value
  | .eval _ | .evalAll _ | .exec _ | .execAll _ | .rounds .. => True

theorem Task.Ready.takes
    {store : Store} {task : Task} (h : task.Ready store) :
    task.Takes store := by
  cases task with
  | call => exact List.forall_mem_cons.mpr h
  | invoke => exact h.2
  | eval | evalAll | exec | execAll | rounds => exact List.forall_mem_nil _

section
variable {m : Machine}

/-- A run that comes back to its frame. -/
theorem Machine.Founded.later
    {declared : List String} {after : Machine} (hm : m.Founded)
    (hlater : m.Later declared after) (hclosed : after.store.Closed)
    (hbecomes : m.store.Becomes after.store) : after.Founded := by
  constructor
  · exact hm.store.becomes hbecomes
  · exact hclosed
  · rw [hlater.current]
    exact Nat.lt_of_lt_of_le hm.current hlater.grows.size_le

theorem Machine.Founded.within
    {parent : Option FrameId} {names : Bindings Value} (hm : m.Founded)
    (hparent : ∀ id, parent = some id → id < m.store.frames.size)
    (hnames : ∀ {name value}, names.find? name = some value →
      m.store.Knows value) : (m.within parent names).Founded := by
  constructor
  · exact hm.store.change (.addFrame hparent)
  · exact hm.closed.addFrame hnames parent
  · simp [Machine.within, Store.addFrame]

end

/-! ## Parts and hand-overs -/

section
variable {fuel : Nat} {task task' : Task} {start m m₁ m' : Machine}
variable {hand gained : List Value}

/-- A part of a task makes one change at the most, which refers to what is
there. -/
theorem Part.becomes
    (h : Part fuel task start hand m gained m₁) (hm : m.Founded)
    (hhand : ∀ value ∈ hand, m.store.Knows value) :
    m.store.Becomes m₁.store := by
  have hknows {value : Value} (hvalue : m.Offers hand value) :
      m.store.Knows value :=
    hvalue.knows hm.closed hhand
  cases h with
  | idle | tick => exact .refl
  | declare | assign => exact .single .define
  | setField => exact .single .setField
  | function => exact .single (.addFunction hm.current)
  | method _ hclosure => exact .single (.addFunction hclosure)
  | this hmethod => exact .single (.inside (hm.store.method? hmethod) _)
  | super => exact .single (.inside hm.current _)
  | addClass _ hsuperclass hmethods =>
      refine .single (.addClass (fun id hid => hknows (hsuperclass id hid)) ?_)
      intro name method hmethod
      rcases hmethods name method hmethod with hcurrent | hclosure
      · rw [hcurrent]
        exact hm.current
      · exact hclosure
  | addObject hclass => exact .single (.addObject (hknows hclass))

/-- A task that is handed over to finds what it needs. -/
theorem Enters.ready
    (henters : Enters fuel task m task' m') (hm' : m'.Founded)
    (htakes : task'.Takes m'.store) : task'.Ready m'.store := by
  cases task' with
  | call callee arguments line => exact List.forall_mem_cons.mp htakes
  | invoke function arguments =>
      refine ⟨?_, htakes⟩
      cases henters with
      | callFunction hfunction => exact hm'.store.functions hfunction
      | construct _ hbind =>
          cases hbind
          simp
  | eval | evalAll | exec | execAll | rounds => trivial

end

/-! ## Whole runs -/

open Step

/-- The machine is founded, its store has come about from `origin`, and what is
at hand leads somewhere. -/
structure Machine.Built (origin : Store) (hand : List Value) (m : Machine) :
    Prop where
  founded : m.Founded
  becomes : origin.Becomes m.store
  hand : ∀ value ∈ hand, m.store.Knows value

namespace Machine.Built

variable {m m₁ : Machine} {origin : Store} {hand gained : List Value}

protected theorem trans
    (h : m.Built origin hand) (h' : m₁.Built m.store gained) :
    m₁.Built origin (gained ++ hand) :=
  ⟨h'.founded, h.becomes.trans h'.becomes,
    List.forall_mem_append.mpr
      ⟨h'.hand, h'.becomes.grows.knows_all h.hand⟩⟩

theorem fewer
    {fewer : List Value} (h : m.Built origin hand) (hfewer : fewer ⊆ hand) :
    m.Built origin fewer :=
  ⟨h.founded, h.becomes, fun value hvalue => h.hand value (hfewer hvalue)⟩

theorem part
    {fuel : Nat} {task : Task} {start : Machine} (h : m.Built origin hand)
    (hpart : Part fuel task start hand m gained m₁) :
    m₁.Built m.store gained := by
  have hbecomes := hpart.becomes h.founded h.hand
  obtain ⟨hclosed, hgained⟩ := hpart.closed h.founded.closed h.hand
  exact ⟨h.founded.later hpart.later hclosed hbecomes, hbecomes, hgained⟩

theorem within
    {task task' : Task} {parent : Option FrameId} {names : Bindings Value}
    (h : m.Built origin task.arguments) (htask : task.Ready m.store)
    (hopens : Opens m task parent names task') :
    (m.within parent names).Built m.store [] := by
  have hparent : ∀ id, parent = some id → id < m.store.frames.size := by
    intro id hid
    cases hopens with
    | body =>
        cases hid
        exact htask.1
    | block =>
        cases hid
        exact h.founded.current
  exact ⟨h.founded.within hparent (hopens.knows h.hand),
    .single (.addFrame hparent), List.forall_mem_nil _⟩

/-- The frame to come back to was there before. -/
theorem back
    (h : m.Founded) (h' : m₁.Built m.store gained) :
    { m₁ with current := m.current }.Built m.store gained :=
  ⟨⟨h'.founded.store, h'.founded.closed,
    Nat.lt_of_lt_of_le h.current h'.becomes.grows.size_le⟩, h'.becomes, h'.hand⟩

end Machine.Built

/-- Every task takes the store of its machine from change to change, and leaves
a founded machine behind. -/
def Building (fuel : Nat) : Prop :=
  ∀ (task : Task) (m : Machine), m.Founded → task.Ready m.store →
    (task.run fuel).Ends m
      (fun result m₁ => m₁.Built m.store (task.values result))
      fun _ m₁ => m₁.Built m.store []

section
variable {fuel fuel' : Nat} {task task' : Task} {m m' : Machine}
variable {origin : Store}

theorem Building.invariant
    (hbuilding : Building fuel) (htask : task.Ready m.store) :
    Invariant fuel task m fun hand m₁ => m₁.Built origin hand := by
  constructor
  · exact fun hfewer h => h.fewer hfewer
  · exact fun hpart h => h.trans (h.part hpart)
  · exact fun h => ⟨⟨h.founded.store, h.founded.closed, h.founded.current⟩,
      h.becomes, h.hand⟩
  · intro hand m₁ task' hhanded h
    have hready := hhanded.enters.ready h.founded
      fun value hvalue => h.hand value (hhanded.values hvalue)
    refine (hbuilding task' m₁ h.founded hready).mono
      (fun _ _ _ h' => h.trans h') fun _ _ h' => ?_
    exact (h.trans h').fewer (List.nil_subset _)
  · intro task' parent names hopens h
    have hwithin := h.within htask hopens
    have hready := (hopens.enters fuel).ready hwithin.founded (hopens.takes _)
    refine (hbuilding task' _ hwithin.founded hready).mono
      (fun a m₂ _ h' => ?_) fun halt m₂ h' => ?_
    · have hback := Machine.Built.back h.founded (hwithin.trans h')
      exact h.trans (hback.fewer (List.subset_append_left _ _))
    · have hback := Machine.Built.back h.founded (hwithin.trans h')
      exact (h.trans hback).fewer (List.nil_subset _)

/-- Whatever is carried out, the store goes from change to change. -/
theorem building (fuel : Nat) : Building fuel := by
  induction fuel with
  | zero =>
      intro task m hm _
      cases task <;> exact ⟨hm, .refl, List.forall_mem_nil _⟩
  | succ fuel hbuilding =>
      intro task m hm htask
      have hends := (shape fuel task m).composed.ends
        (hbuilding.invariant htask) ⟨hm, .refl, htask.takes⟩
      exact hends.mono
        (fun _ _ _ h => h.fewer (List.subset_append_left _ _)) fun _ _ h => h

/-- A task that is handed over to starts on a founded machine. -/
theorem Enters.founded
    (henters : Enters fuel task m task' m') (hm : m.Founded)
    (htask : task.Ready m.store) :
    m'.Founded ∧ task'.Ready m'.store ∧ m.store.Becomes m'.store := by
  have h := ((shape fuel task m).hands henters).reach
    ((building fuel).invariant htask)
    (fun hopens h => (h.trans (h.within htask hopens)).fewer
      (List.nil_subset _))
    ⟨hm, .refl, htask.takes⟩
  exact ⟨h.founded, henters.ready h.founded h.hand, h.becomes⟩

/-- The machine that a task leaves behind, however it ends. -/
theorem Task.founded_left
    (task : Task) (fuel : Nat) (hm : m.Founded) (htask : task.Ready m.store) :
    ((task.run fuel).left m).Founded ∧
      m.store.Becomes ((task.run fuel).left m).store := by
  have hends := (building fuel task m hm htask).mono
    (fun _ _ _ h => And.intro h.founded h.becomes)
    fun _ _ h => And.intro h.founded h.becomes
  exact hends.left

/-- The machines that a task comes through. -/
theorem Reaches.founded
    (h : Reaches fuel task m fuel' task' m') (hm : m.Founded)
    (htask : task.Ready m.store) :
    m'.Founded ∧ task'.Ready m'.store ∧ m.store.Becomes m'.store := by
  induction h with
  | refl => exact ⟨hm, htask, .refl⟩
  | step henters _ ih =>
      obtain ⟨hm₁, htask₁, hfirst⟩ := henters.founded hm htask
      obtain ⟨hm', htask', hrest⟩ := ih hm₁ htask₁
      exact ⟨hm', htask', hfirst.trans hrest⟩

end
end LoxLang
