import LoxLang.Proofs.Scope.Safety
import LoxLang.Proofs.Scope.Words

/-!
# What a run cannot touch

No frame ever changes what it holds for `this` and for `super`: names are
declared and assigned to by their spelling in the text, where these two words
are none.  So from any machine that a run comes through up to the one that it
leaves behind, however it ends, the two words keep their meaning in all frames
that were there.
-/

namespace LoxLang

open Scope (Stack Chart)

/-- The machine that a step leaves behind, however it ends. -/
def Step.left {α : Type} (step : Step α) (m : Machine) : Machine :=
  match step m with
  | .ok _ m₁ => m₁
  | .error _ m₁ => m₁

/-- Nothing is lost on the way from one machine to another, and the frames keep
what they hold for the words of the language. -/
structure Machine.Endures (before after : Machine) : Prop where
  grows : before.store.Grows after.store
  words : ∀ {frame word}, frame < before.store.frames.size →
    ¬ Ordinary word →
    after.store.local? frame word = before.store.local? frame word
  distances : ∀ {id distance}, before.distances.find? id = some distance →
    after.distances.find? id = some distance

namespace Machine.Endures

variable {m before middle after : Machine}

protected theorem refl : m.Endures m :=
  ⟨.refl, fun _ _ => rfl, fun h => h⟩

protected theorem trans
    (hfirst : before.Endures middle) (hsecond : middle.Endures after) :
    before.Endures after where
  grows := hfirst.grows.trans hsecond.grows
  words hframe hword := by
    rw [hsecond.words (Nat.lt_of_lt_of_le hframe hfirst.grows.size_le) hword,
      hfirst.words hframe hword]
  distances h := hsecond.distances (hfirst.distances h)

/-- Frames are added at the most. -/
theorem of_store
    {store : Store} (hgrows : m.store.Grows store)
    (hlocal : ∀ {frame word}, frame < m.store.frames.size →
      store.local? frame word = m.store.local? frame word) :
    m.Endures { m with store := store } :=
  ⟨hgrows, fun hframe _ => hlocal hframe, fun h => h⟩

theorem define
    {name : String} (hname : Ordinary name) (frame : FrameId) (value : Value) :
    m.Endures { m with store := m.store.define frame name value } := by
  refine ⟨.define .., ?_, fun h => h⟩
  intro other word _ hword
  rw [Store.local?_define, if_neg]
  rintro ⟨-, rfl, -⟩
  exact hword hname

theorem addFrame (frame : Frame) :
    m.Endures { m with store := (m.store.addFrame frame).2 } := by
  apply of_store (.addFrame ..)
  intro other word hother
  rw [Store.local?_addFrame, if_neg (Nat.ne_of_lt hother)]

theorem within (parent : Option FrameId) (names : Bindings Value) :
    m.Endures (m.within parent names) :=
  ⟨(addFrame ⟨parent, names⟩).grows, (addFrame ⟨parent, names⟩).words,
    fun h => h⟩

/-- A value that one of the words has in a frame. -/
theorem local?_eq
    {frame : FrameId} {word : String} {value : Value}
    (h : before.Endures after) (hword : ¬ Ordinary word)
    (hlocal : before.store.local? frame word = some value) :
    after.store.local? frame word = some value := by
  have hframe : frame < before.store.frames.size := by
    cases hfound : before.store.frames[frame]? with
    | none => simp [Store.local?, hfound] at hlocal
    | some found => exact (Array.getElem?_eq_some_iff.mp hfound).1
  rw [h.words hframe hword, hlocal]

end Machine.Endures

namespace Step

variable {α β : Type} {step : Step α} {next : α → Step β}
variable {m m₀ m₁ : Machine}

/-! ## Steps that touch no word -/

theorem left_of_ok {a : α} (hrun : step m = .ok a m₁) : step.left m = m₁ := by
  rw [left, hrun]

theorem left_of_error
    {halt : Halt} (hrun : step m = .error halt m₁) : step.left m = m₁ := by
  rw [left, hrun]

theorem left_bind_of_ok {a : α} (hrun : step m = .ok a m₁) :
    (step >>= next).left m = (next a).left m₁ := by
  simp only [left, Bind.bind, EStateM.bind, hrun]

private theorem left_bind_of_error {halt : Halt}
    (hrun : step m = .error halt m₁) :
    (step >>= next).left m = m₁ := by
  simp only [left, Bind.bind, EStateM.bind, hrun]

/-- What holds of the machine however the step ends. -/
theorem Ends.left
    {holds : Machine → Prop}
    (h : step.Ends m (fun _ m₁ => holds m₁) fun _ m₁ => holds m₁) :
    holds (step.left m) := by
  cases hrun : step m with
  | ok a m₁ =>
      rw [left_of_ok hrun]
      exact h.of_ok hrun
  | error halt m₁ =>
      rw [left_of_error hrun]
      exact h.of_error hrun

/-- The machine endures the step. -/
def Steady (step : Step α) (m : Machine) : Prop :=
  m.Endures (step.left m)

/-- What follows on a step does no harm to what the step leaves behind. -/
theorem endures_bind
    (hnext : ∀ a m₁, step m = .ok a m₁ → (next a).Steady m₁) :
    (step.left m).Endures ((step >>= next).left m) := by
  cases hrun : step m with
  | ok a m₁ =>
      rw [left_of_ok hrun, left_bind_of_ok hrun]
      exact hnext a m₁ hrun
  | error halt m₁ =>
      rw [left_of_error hrun, left_bind_of_error hrun]
      exact .refl

/-- Up to the end of two steps, of which the first one is done. -/
theorem endures_after
    {a : α} (hrun : step m = .ok a m₁)
    (hnext : m₀.Endures ((next a).left m₁)) :
    m₀.Endures ((step >>= next).left m) := by
  rw [left_bind_of_ok hrun]
  exact hnext

theorem Steady.bind
    (hstep : step.Steady m)
    (hnext : ∀ a m₁, step m = .ok a m₁ → (next a).Steady m₁) :
    (step >>= next).Steady m :=
  Machine.Endures.trans hstep (endures_bind hnext)

theorem endures_ask
    {question : Machine → α} {a : α} (hanswer : question m = a)
    (hnext : m₀.Endures ((next a).left m)) :
    m₀.Endures ((ask question >>= next).left m) :=
  endures_after (show ask question m = .ok a m by rw [ask, hanswer]) hnext

theorem steady_pure (a : α) : (pure a : Step α).Steady m :=
  .refl

private theorem steady_assignHere
    {name : Ident} (hname : Ordinary name.name) (value : Value) :
    (assignHere name value).Steady m := by
  simp only [Steady, left, assignHere]
  cases m.store.holder m.current name with
  | error e => exact .refl
  | ok holder => exact .define hname holder value

theorem steady_addFunction (function : Function) :
    (onStore fun store => store.addFunction function).Steady m :=
  .of_store (.addFunction ..) fun _ => rfl

private theorem steady_addClass (cls : Class) :
    (onStore fun store => store.addClass cls).Steady m :=
  .of_store (.addClass ..) fun _ => rfl

theorem steady_finishClass
    {name : Ident} (hname : Ordinary name.name) (cls : Class) :
    (onStore (fun store => store.addClass cls) >>= fun id =>
      assignHere name (.classRef id)).Steady m :=
  (steady_addClass cls).bind fun _ _ _ => steady_assignHere hname _

/-- Coming back to another frame changes nothing of what a step in a new frame
leaves behind. -/
theorem endures_nested (parent : Option FrameId) (names : Bindings Value) :
    (step.left (m.within parent names)).Endures
      ((nested parent names step).left m) := by
  cases hstep : step (m.within parent names) <;>
    simp only [left, nested_eq, hstep] <;>
    exact ⟨.refl, fun _ _ => rfl, fun h => h⟩

end Step

/-! ## Whole runs -/

open Step

/-- Every task that is bound in its scopes is steady. -/
def Lasts (chart : Chart) (fuel : Nat) : Prop :=
  ∀ (task : Task) (m : Machine), m.Sound chart → task.Sound chart m →
    (task.run fuel).Steady m

/-- The tasks that a task hands over to leave machines behind that endure up to
the end of the task. -/
def Followed (fuel : Nat) (task : Task) (m : Machine) : Prop :=
  ∀ task' m', Enters fuel task m task' m' →
    ((task'.run fuel).left m').Endures ((task.run (fuel + 1)).left m)

section
variable {chart : Chart} {fuel : Nat} {task task' : Task}
variable {start m m₁ m' : Machine} {hand gained : List Value}

theorem Task.Sound.ordinary (h : task.Sound chart m) :
    ∀ name ∈ task.writes, Ordinary name := by
  cases task with
  | eval expr =>
      cases expr with
      | assign place name value =>
          obtain ⟨stack, pending, -, hbound⟩ := h
          exact List.forall_mem_singleton.mpr hbound.2.1
      | _ => exact List.forall_mem_nil _
  | exec stmt =>
      obtain ⟨inFunction, stack, -, hbound⟩ := h
      exact Stmt.Bound.ordinary stmt hbound
  | _ => exact List.forall_mem_nil _

/-- No part of a task changes what a frame holds for a word. -/
theorem Part.endures
    (h : Part fuel task start hand m gained m₁)
    (hordinary : ∀ name ∈ task.writes, Ordinary name) : m.Endures m₁ := by
  cases h with
  | idle => exact .refl
  | tick => exact ⟨.refl, fun _ _ => rfl, fun h => h⟩
  | declare htask hname =>
      subst htask
      exact .define (hordinary _ hname) _ _
  | assign hname => exact .define (hordinary _ hname) _ _
  | setField => exact .of_store (.setField ..) fun _ => rfl
  | function | method => exact .of_store (.addFunction ..) fun _ => rfl
  | this | super => exact .addFrame _
  | addClass => exact .of_store (.addClass ..) fun _ => rfl
  | addObject => exact .of_store (.addObject ..) fun _ => rfl

theorem Step.Ends.endures
    {α : Type} {step : Step α} (h : m.Endures (step.left m₁)) :
    step.Ends m₁ (fun _ m₂ => m.Endures m₂) fun _ m₂ => m.Endures m₂ :=
  ends_of (fun _ _ hrun => left_of_ok hrun ▸ h)
    fun _ _ hrun => left_of_error hrun ▸ h

theorem Lasts.invariant
    {m₀ : Machine} (hlasts : Lasts chart fuel) (hm : m.Sound chart)
    (htask : task.Sound chart m) :
    Invariant fuel task m fun _ m₁ => m₀.Endures m₁ := by
  have hinner {task' : Task} {m' : Machine}
      (henters : Enters fuel task m task' m') : (task'.run fuel).Steady m' :=
    have hsound := henters.sound (safe chart fuel) hm htask
    hlasts task' m' hsound.1 hsound.2
  constructor
  · exact fun _ h => h
  · exact fun hpart h => h.trans (hpart.endures htask.ordinary)
  · exact fun h => ⟨h.grows, h.words, h.distances⟩
  · exact fun hhanded h => .endures (h.trans (hinner hhanded.enters))
  · intro task' parent names hopens h
    have hends := Ends.endures
      ((h.trans (.within parent names)).trans (hinner (hopens.enters fuel)))
    exact hends.mono (fun _ _ _ h' => ⟨h'.grows, h'.words, h'.distances⟩)
      fun _ _ h' => ⟨h'.grows, h'.words, h'.distances⟩

theorem Lasts.composed
    {α : Type} {step : Step α} {has : α → List Value}
    (hlasts : Lasts chart fuel) (hm : m.Sound chart)
    (htask : task.Sound chart m)
    (h : Composed fuel task m hand step m₁ has) : step.Steady m₁ :=
  (h.ends (hlasts.invariant hm htask) .refl).left

/-- What a task that is handed over to leaves behind is still there at the end
of every step that hands over to it. -/
theorem Lasts.hands
    {α : Type} {step : Step α} (hlasts : Lasts chart fuel)
    (hm : m.Sound chart) (htask : task.Sound chart m)
    (h : Hands fuel task m task' m' hand step m₁) :
    ((task'.run fuel).left m').Endures (step.left m₁) := by
  induction h with
  | here => exact .refl
  | nest _ hm' =>
      subst hm'
      exact endures_nested _ _
  | first _ hnext ih =>
      refine ih.trans (endures_bind fun a m₂ hrun => ?_)
      exact hlasts.composed hm htask (hnext a m₂ hrun)
  | second _ hrun _ ih => exact endures_after hrun ih

theorem Lasts.succ
    (hlasts : Lasts chart fuel) (hm : m.Sound chart)
    (htask : task.Sound chart m) :
    (task.run (fuel + 1)).Steady m ∧ Followed fuel task m :=
  ⟨hlasts.composed hm htask (shape fuel task m).composed,
    fun _ _ henters =>
      hlasts.hands hm htask ((shape fuel task m).hands henters)⟩

theorem lasts (chart : Chart) (fuel : Nat) : Lasts chart fuel := by
  induction fuel with
  | zero =>
      intro task m _ _
      cases task <;> exact Machine.Endures.refl
  | succ fuel hlasts =>
      intro task m hm htask
      exact (hlasts.succ hm htask).1

end

end LoxLang
