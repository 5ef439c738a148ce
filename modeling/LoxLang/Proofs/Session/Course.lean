import LoxLang.Proofs.Run.Endurance
import LoxLang.Proofs.Run.References
import LoxLang.Proofs.Session.Inputs

/-!
# The course of a session

A task occurs in the course of some inputs when the run of one of them comes to
it.  Every such task is bound in the scopes of its machine, and what it leaves
behind endures up to the end of the last input, whatever the inputs in between
do and however they end.  A task can be looked up by the turns that lead to it.
-/

namespace LoxLang

open Scope (Stack Chart)

/-- The scope that is being executed binds no superclass: this is done in a
frame of its own around the methods. -/
structure Machine.Bare (m : Machine) : Prop where
  inside : m.current < m.store.frames.size
  unbound : m.store.local? m.current "super" = none

namespace Machine.Bare

variable {m after : Machine}

theorem endures
    (h : m.Bare) (hendures : m.Endures after)
    (hcurrent : after.current = m.current) : after.Bare where
  inside := by
    rw [hcurrent]
    exact Nat.lt_of_lt_of_le h.inside hendures.grows.size_le
  unbound := by
    rw [hcurrent, hendures.words h.inside (by decide)]
    exact h.unbound

private theorem within
    {parent : Option FrameId} {names : Bindings Value}
    (hnames : names.find? "super" = none) : (m.within parent names).Bare where
  inside := by simp [Machine.within, Store.addFrame]
  unbound := by simp [Machine.within, Store.local?_addFrame, hnames]

end Machine.Bare

section
variable {chart : Chart} {fuel : Nat} {task task' : Task}
variable {m m' : Machine}

/-- A task that comes back to its frame. -/
theorem Task.ends_back
    (fuel : Nat) (task : Task) (hm : m.Sound chart)
    (htask : task.Sound chart m) :
    (task.run fuel).Ends m
      (fun _ m₁ => m.Endures m₁ ∧ m₁.current = m.current)
      fun _ m₁ => m.Endures m₁ ∧ m₁.current = m.current := by
  have hendures := Step.Ends.endures (lasts chart fuel task m hm htask)
  have hlater := Step.run_keeps fuel task m
  exact Step.ends_of
    (fun _ _ hrun => ⟨hendures.of_ok hrun, (hlater.of_ok hrun).current⟩)
    fun _ _ hrun => ⟨hendures.of_error hrun, (hlater.of_error hrun).current⟩

theorem Enters.bare
    (henters : Enters fuel task m task' m') (hm : m.Sound chart)
    (htask : task.Sound chart m) (hbare : m.Bare) : m'.Bare := by
  have hinner {task' : Task} {m' : Machine}
      (henters : Enters fuel task m task' m') :=
    have hsound := henters.sound (safe chart fuel) hm htask
    Task.ends_back fuel task' hsound.1 hsound.2
  have hinv : Step.Invariant fuel task m fun _ m₁ => m₁.Bare := by
    constructor
    · exact fun _ h => h
    · exact fun hpart h =>
        h.endures (hpart.endures htask.ordinary) hpart.later.current
    · exact fun h => ⟨h.inside, h.unbound⟩
    · intro hand m₁ task' hhanded h
      exact (hinner hhanded.enters).mono (fun _ _ _ h' => h.endures h'.1 h'.2)
        fun _ _ h' => h.endures h'.1 h'.2
    · intro task' parent names hopens h
      have hback {m₂ : Machine}
          (h' : (m.within parent names).Endures m₂) :
          Machine.Bare { m₂ with current := m.current } := by
        have hendures := (Machine.Endures.within parent names).trans h'
        exact h.endures
          ⟨hendures.grows, hendures.words, hendures.distances⟩ rfl
      exact (hinner (hopens.enters fuel)).mono (fun _ _ _ h' => hback h'.1)
        fun _ _ h' => hback h'.1
  refine ((Step.shape fuel task m).hands henters).reach hinv ?_ hbare
  intro parent names hopens _
  cases hopens with
  | body =>
      exact .within (htask.1.find?_bindParams htask.2 (by decide))
  | block => exact .within rfl

/-- What is known of a task that is carried out: it is bound in its scopes, all
references lead somewhere, and it stands in no frame of a superclass. -/
structure Task.Settled (chart : Chart) (m : Machine) (task : Task) :
    Prop where
  machine : m.Sound chart
  bound : task.Sound chart m
  closed : m.store.Closed
  takes : task.Takes m.store
  bare : m.Bare

theorem Enters.settled
    (henters : Enters fuel task m task' m') (h : task.Settled chart m) :
    task'.Settled chart m' := by
  have hsound := henters.sound (safe chart fuel) h.machine h.bound
  have hclosed := henters.closed h.closed h.takes
  exact ⟨hsound.1, hsound.2, hclosed.1, hclosed.2,
    henters.bare h.machine h.bound h.bare⟩

end

/-- A run leaves behind what its statements leave behind. -/
theorem Machine.run_left
    (fuel : Nat) (machine : Machine) (checked : Checked) :
    (machine.run fuel checked).2 =
      (Step.execAll fuel checked.program).left
        (machine.extend checked.distances) := by
  have hends := machine.run_ends fuel checked
  cases hexec : Step.execAll fuel checked.program
      (machine.extend checked.distances) with
  | ok completion m₁ =>
      rw [(hends.of_ok hexec).1, Step.left_of_ok hexec]
  | error halt m₁ =>
      rw [(hends.of_error hexec).1, Step.left_of_error hexec]

namespace Session

/-- A task is carried out in the course of some inputs, each of which is run
with the given fuel: it is the program of an accepted input, or another task
hands over to it. -/
inductive Occurs (fuel : Nat) :
    Session → List String → Nat → Task → Machine → Prop where
  | program :
      (Analysis.ofSource source session.nextId).verdict = .ok checked →
      Occurs fuel session (source :: inputs) fuel (.execAll checked.program)
        (session.machine.extend checked.distances)
  | enter :
      Occurs fuel session inputs (f + 1) task m →
      Enters f task m task' m' →
      Occurs fuel session inputs f task' m'
  | later :
      Occurs fuel (session.run fuel source).2 inputs f task m →
      Occurs fuel session (source :: inputs) f task m

/-- Between two inputs. -/
structure Settled (programs : List Program) (session : Session) : Prop where
  sound : session.Sound programs
  closed : session.machine.store.Closed
  bare : session.machine.Bare

section
variable {programs : List Program} {session : Session} {inputs : List String}
variable {source : String} {checked : Checked} {fuel f : Nat} {task : Task}
variable {m : Machine}

theorem settled_start (sink : Sink) (clock : Nat → Float) :
    (start sink clock).Settled [] := by
  refine ⟨sound_start sink clock, ⟨?_, ?_⟩, Nat.zero_lt_one, rfl⟩
  · intro frame name value hlocal
    change (Store.empty.addFrame ⟨none, _⟩).2.local? frame name = _ at hlocal
    rw [Store.local?_addFrame] at hlocal
    split at hlocal
    · rw [Bindings.find?_put] at hlocal
      split at hlocal
      · cases hlocal
        trivial
      · cases hlocal
    · cases hlocal
  · intro object name value hfield
    cases hfield

/-- The task of an accepted input. -/
theorem Settled.ready
    (h : session.Settled programs)
    (hverdict : (Analysis.ofSource source session.nextId).verdict =
      .ok checked) :
    ∃ chart, (Task.execAll checked.program).Settled chart
      (session.machine.extend checked.distances) := by
  obtain ⟨hready, hbound⟩ := h.sound.ready hverdict
  exact ⟨_, hready.machine, hready.task hbound, h.closed,
    List.forall_mem_nil _, h.bare.inside, h.bare.unbound⟩

theorem Sound.endures_extend
    (h : session.Sound programs)
    (hverdict : (Analysis.ofSource source session.nextId).verdict =
      .ok checked) :
    session.machine.Endures (session.machine.extend checked.distances) := by
  refine ⟨.refl, fun _ _ => rfl, ?_⟩
  intro id distance hdistance
  have hid : id < session.nextId := by
    apply Nat.lt_of_not_le
    intro hle
    rw [h.unseen id hle] at hdistance
    cases hdistance
  exact (find?_merge_of_lt hverdict hid).trans hdistance

/-- One input, however it ends. -/
theorem Settled.run
    (h : session.Settled programs) (fuel : Nat) (source : String) :
    (∃ more, (session.run fuel source).2.Settled more) ∧
      session.machine.Endures (session.run fuel source).2.machine := by
  cases hverdict : (Analysis.ofSource source session.nextId).verdict with
  | error errors =>
      rw [run_of_error fuel hverdict]
      exact ⟨⟨programs, h.sound.skip (Analysis.firstId_le_nextId _ _), h.closed,
        h.bare⟩, .refl⟩
  | ok checked =>
      obtain ⟨chart, htask⟩ := h.ready hverdict
      have hsound := (h.sound.run fuel hverdict).1
      have hlater := session.machine.run_later fuel checked
      have hends := closing fuel (.execAll checked.program) _ htask.closed
        htask.takes
      have hclosed :=
        (hends.mono (fun _ _ _ h => h.1) fun _ _ h => h).left
      have hendures : session.machine.Endures
          ((Step.execAll fuel checked.program).left
            (session.machine.extend checked.distances)) :=
        (h.sound.endures_extend hverdict).trans
          (lasts chart fuel (.execAll checked.program) _ htask.machine
            htask.bound)
      rw [run_of_ok fuel hverdict] at hsound ⊢
      rw [session.machine.run_left] at hsound hlater ⊢
      exact ⟨⟨_, hsound, hclosed, h.bare.endures hendures hlater.current⟩,
        hendures⟩

theorem Settled.endures_after
    (h : session.Settled programs) (fuel : Nat) (inputs : List String) :
    session.machine.Endures (session.after fuel inputs).machine := by
  induction inputs generalizing session programs with
  | nil => exact .refl
  | cons source inputs ih =>
      obtain ⟨⟨more, hnext⟩, hendures⟩ := h.run fuel source
      exact hendures.trans (ih hnext)

/-- What a task of the course leaves behind is still there in the end. -/
theorem Occurs.settled
    (h : Occurs fuel session inputs f task m)
    (hsession : session.Settled programs) :
    (∃ chart, task.Settled chart m) ∧
      ((task.run f).left m).Endures (session.after fuel inputs).machine := by
  induction h generalizing programs with
  | program hverdict =>
      rename_i source checked session inputs
      obtain ⟨chart, htask⟩ := hsession.ready hverdict
      obtain ⟨⟨more, hnext⟩, -⟩ := hsession.run fuel source
      refine ⟨⟨chart, htask⟩, ?_⟩
      have hend := hnext.endures_after fuel inputs
      rw [run_of_ok fuel hverdict, session.machine.run_left] at hend
      rw [after_cons, run_of_ok fuel hverdict, session.machine.run_left]
      exact hend
  | enter _ henters ih =>
      obtain ⟨⟨chart, htask⟩, hleft⟩ := ih hsession
      have hfollowed :=
        ((lasts chart _).succ htask.machine htask.bound).2 _ _ henters
      exact ⟨⟨chart, henters.settled htask⟩, hfollowed.trans hleft⟩
  | later _ ih =>
      obtain ⟨⟨more, hnext⟩, -⟩ := hsession.run fuel _
      exact ih hnext

/-- So is what there was when the task was taken up. -/
theorem Occurs.endures
    (h : Occurs fuel session inputs f task m)
    (hsession : session.Settled programs) :
    m.Endures (session.after fuel inputs).machine := by
  obtain ⟨⟨chart, htask⟩, hleft⟩ := h.settled hsession
  exact (lasts chart f task m htask.machine htask.bound).trans hleft

end
end Session

/-! ## Following a run -/

/-- What a step gives where it does not halt. -/
def Step.outcome? {α : Type} (step : Step α) (m : Machine) :
    Option (α × Machine) :=
  match step m with
  | .ok a m₁ => some (a, m₁)
  | .error _ _ => none

theorem Step.outcome?_eq_some_iff
    {α : Type} {step : Step α} {m : Machine} {outcome : α × Machine} :
    step.outcome? m = some outcome ↔ step m = .ok outcome.1 outcome.2 := by
  unfold outcome?
  cases step m with
  | ok a m₁ => simp [Prod.ext_iff]
  | error halt m₁ => simp

/-- The way on from a task: into what it starts with or calls, or past its first
statement. -/
inductive Turn where
  | into
  | past

namespace Task

/-- The task at the next turn, and its machine. -/
def turn? (fuel : Nat) : Turn → Task → Machine → Option (Task × Machine)
  | .past, .execAll (stmt :: stmts), m => do
      let (.normal, m₁) ← (Step.exec fuel stmt).outcome? m | none
      some (.execAll stmts, m₁)
  | .into, .execAll (stmt :: _), m => some (.exec stmt, m)
  | .into, .exec (.expression expr), m => some (.eval expr, m)
  | .into, .exec (.var _ (some expr)), m => some (.eval expr, m)
  | .into, .eval (.call callee line arguments), m => do
      let (function, m₁) ← (Step.eval fuel callee).outcome? m
      let (values, m₂) ← (Step.evalAll fuel arguments).outcome? m₁
      if m₂.store.arity? function = some values.length then
        some (.call function values line, m₂)
      else none
  | .into, .call (.function id) values _, m => do
      let function ← m.store.functions[id]?
      some (.invoke function values, m)
  | .into, .call (.classRef cls) values _, m => do
      let method ← (m.withObject cls).store.method? cls initializerName
      let (bound, m₁) ← (Step.bindMethod method m.store.objects.size).outcome?
        (m.withObject cls)
      some (.invoke bound values, m₁)
  | .into, .invoke function values, m =>
      some (.execAll function.declaration.body,
        m.within (some function.closure)
          (Step.bindParams function.declaration.params values))
  | _, _, _ => none

private theorem enters_of_turn?
    {fuel : Nat} {turn : Turn} {task : Task} {m : Machine}
    {met : Task × Machine} (h : task.turn? fuel turn m = some met) :
    Enters fuel task m met.1 met.2 := by
  revert h
  fun_cases turn? fuel turn task m with
  | case1 stmt stmts m =>
      simp only [bind, Option.bind_eq_some_iff, Step.outcome?_eq_some_iff]
      rintro ⟨⟨completion, m₁⟩, hexec, hmet⟩
      cases completion with
      | normal =>
          cases hmet
          exact .next hexec
      | returned value => cases hmet
  | case5 callee line arguments m =>
      simp only [bind, Option.bind_eq_some_iff, Step.outcome?_eq_some_iff]
      rintro ⟨⟨function, m₁⟩, hcallee, ⟨values, m₂⟩, hvalues, hmet⟩
      obtain ⟨harity, hmet⟩ := Option.ite_none_right_eq_some.mp hmet
      cases hmet
      exact .call hcallee hvalues harity
  | case6 id values line m =>
      simp only [bind, Option.bind_eq_some_iff]
      rintro ⟨function, hfunction, ⟨⟩⟩
      exact .callFunction hfunction
  | case7 cls values line m =>
      simp only [bind, Option.bind_eq_some_iff, Step.outcome?_eq_some_iff]
      rintro ⟨method, hmethod, ⟨bound, m₁⟩, hbind, ⟨⟩⟩
      exact .construct hmethod hbind
  | case9 => rintro ⟨⟩
  | _ =>
      rintro ⟨⟩
      constructor

/-- The task that some turns lead to, and its machine.  Every turn takes one
from the fuel, and `fuel` is left at the end. -/
def follow (fuel : Nat) : List Turn → Task → Machine → Option (Task × Machine)
  | [], task, m => some (task, m)
  | turn :: turns, task, m => do
      let (task₁, m₁) ← task.turn? (fuel + turns.length) turn m
      follow fuel turns task₁ m₁

end Task

namespace Session

section
variable {session : Session} {inputs : List String} {source : String}
variable {fuel f : Nat} {turns : List Turn} {met : Task × Machine}

theorem Occurs.follow
    {task : Task} {m : Machine}
    (h : Occurs fuel session inputs (f + turns.length) task m)
    (hmet : task.follow f turns m = some met) :
    Occurs fuel session inputs f met.1 met.2 := by
  induction turns generalizing task m with
  | nil =>
      cases hmet
      exact h
  | cons turn turns ih =>
      obtain ⟨next, hnext, hrest⟩ := Option.bind_eq_some_iff.mp hmet
      exact ih (h.enter (Task.enters_of_turn? hnext)) hrest

/-- The task that some turns lead to in the run of an input. -/
def visit? (session : Session) (source : String) (fuel : Nat)
    (turns : List Turn) : Option (Task × Machine) :=
  match (Analysis.ofSource source session.nextId).verdict with
  | .ok checked =>
      (Task.execAll checked.program).follow fuel turns
        (session.machine.extend checked.distances)
  | .error _ => none

theorem occurs_of_visit?
    (h : session.visit? source f turns = some met) :
    Occurs (f + turns.length) session [source] f met.1 met.2 := by
  unfold visit? at h
  cases hverdict :
      (Analysis.ofSource source session.nextId).verdict with
  | error errors =>
      rw [hverdict] at h
      cases h
  | ok checked =>
      rw [hverdict] at h
      exact (Occurs.program hverdict).follow h

end
end Session
end LoxLang
