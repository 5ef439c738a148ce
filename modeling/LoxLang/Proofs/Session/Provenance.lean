import LoxLang.Proofs.Session.Course

/-!
# Where functions and classes come from

A function of the store was declared by a statement that was carried out, or it
is a method that was fetched from an instance: by its name, through `super`, or
as the initializer of a new instance.  A class was made by its declaration.
-/

namespace LoxLang

/-- The function comes from a task of the course. -/
inductive Stems (course : Nat → Task → Machine → Prop) : Function → Prop where
  | declared :
      course f (.exec (.function declaration)) m →
      Stems course ⟨declaration, m.current, false⟩
  | fetched :
      course f task m → Fetches f task m method object bound →
      Stems course bound

/-- All functions and classes of the store come from tasks of the course. -/
structure Store.Stems (course : Nat → Task → Machine → Prop) (store : Store) :
    Prop where
  functions : ∀ {id : FunctionId} {function},
    store.functions[id]? = some function → LoxLang.Stems course function
  classes : ∀ {id : ClassId} {cls}, store.classes[id]? = some cls →
    ∃ f task m made, course f task m ∧ Makes f task m cls made

section
variable {course : Nat → Task → Machine → Prop}

namespace Store.Stems

variable {store : Store}

/-- It depends on nothing but the functions and the classes. -/
protected theorem congr
    {other : Store} (h : store.Stems course)
    (hfunctions : other.functions = store.functions)
    (hclasses : other.classes = store.classes) : other.Stems course :=
  ⟨fun hfound => h.functions (hfunctions ▸ hfound),
    fun hfound => h.classes (hclasses ▸ hfound)⟩

private theorem addFunction
    {function : Function} (h : store.Stems course)
    (hfunction : LoxLang.Stems course function) :
    (store.addFunction function).2.Stems course where
  functions hfound := by
    simp only [Store.addFunction, Array.getElem?_push] at hfound
    split at hfound
    · cases hfound
      exact hfunction
    · exact h.functions hfound
  classes hfound := h.classes hfound

private theorem addClass
    {f : Nat} {task : Task} {m made : Machine} {cls : Class}
    (h : store.Stems course) (htask : course f task m)
    (hmakes : Makes f task m cls made) :
    (store.addClass cls).2.Stems course where
  functions hfound := h.functions hfound
  classes hfound := by
    simp only [Store.addClass, Array.getElem?_push] at hfound
    split at hfound
    · cases hfound
      exact ⟨f, task, m, made, htask, hmakes⟩
    · exact h.classes hfound

end Store.Stems

/-- A part of a task makes no function and no class but those of the task. -/
theorem Part.stems
    {fuel : Nat} {task : Task} {start m m₁ : Machine}
    {hand gained : List Value} (h : Part fuel task start hand m gained m₁)
    (htask : course (fuel + 1) task start) (hm : m.store.Stems course) :
    m₁.store.Stems course := by
  cases h with
  | idle | tick | declare | assign | setField | this | super | addObject =>
      exact hm.congr rfl rfl
  | function hdeclares hstart =>
      subst hdeclares hstart
      exact hm.addFunction (.declared htask)
  | method hfetches _ => exact hm.addFunction (.fetched htask hfetches)
  | addClass hmakes _ _ => exact hm.addClass htask hmakes

/-! ## Whole runs -/

open Step

/-- Every task of the course leaves a store behind in which all comes from the
course. -/
def Tracing (course : Nat → Task → Machine → Prop) (fuel : Nat) : Prop :=
  ∀ (task : Task) (m : Machine), course fuel task m → m.store.Stems course →
    (task.run fuel).Ends m (fun _ m₁ => m₁.store.Stems course)
      fun _ m₁ => m₁.store.Stems course

/-- With a task, the course also has the tasks that it hands over to. -/
def Progressive (course : Nat → Task → Machine → Prop) : Prop :=
  ∀ {f task m task' m'}, course (f + 1) task m → Enters f task m task' m' →
    course f task' m'

/-- Whatever a task of the course leaves behind comes from the course. -/
theorem tracing (hprogressive : Progressive course) (fuel : Nat) :
    Tracing course fuel := by
  induction fuel with
  | zero =>
      intro task m _ hm
      cases task <;> exact hm
  | succ fuel htracing =>
      intro task m htask hm
      have hinv : Invariant fuel task m
          fun _ m₁ => m₁.store.Stems course := by
        constructor
        · exact fun _ h => h
        · exact fun hpart h => hpart.stems htask h
        · exact fun h => h
        · intro hand m₁ task' hhanded h
          exact htracing task' m₁ (hprogressive htask hhanded.enters) h
        · intro task' parent names hopens h
          exact htracing task' _ (hprogressive htask (hopens.enters fuel))
            (h.congr rfl rfl)
      exact (shape fuel task m).composed.ends hinv hm

end

namespace Session

/-- In the end, all functions and classes come from tasks of the course. -/
theorem stems_after
    {course : Nat → Task → Machine → Prop} (hprogressive : Progressive course)
    (fuel : Nat) (session : Session) (inputs : List String)
    (hcourse : ∀ {f task m}, Occurs fuel session inputs f task m →
      course f task m)
    (hsession : session.machine.store.Stems course) :
    (session.after fuel inputs).machine.store.Stems course := by
  induction inputs generalizing session with
  | nil => exact hsession
  | cons source inputs ih =>
      apply ih (session.run fuel source).2 fun h => hcourse (.later h)
      cases hverdict : (Analysis.ofSource source session.nextId).verdict with
      | error errors =>
          rw [run_of_error fuel hverdict]
          exact hsession
      | ok checked =>
          rw [run_of_ok fuel hverdict, session.machine.run_left]
          exact (tracing hprogressive fuel (.execAll checked.program) _
            (hcourse (.program hverdict)) hsession).left

end Session
end LoxLang
