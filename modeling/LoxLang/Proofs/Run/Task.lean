import LoxLang.Run.Evaluation

/-!
# Tasks

A run is a tree of tasks, each carried out on a machine of its own.  `Enters`
tells, one rule for each hand-over, which task is taken up by which other one
and on which machine; `Reaches` is any number of such hand-overs.  `Ends`
describes how a step comes out, and its rules follow the way in which steps
are put together.
-/

namespace LoxLang

/-- What an evaluation can be asked to carry out. -/
inductive Task where
  | eval (expr : Expr)
  | evalAll (exprs : List Expr)
  | call (callee : Value) (arguments : List Value) (line : Nat)
  | invoke (function : Function) (arguments : List Value)
  | exec (stmt : Stmt)
  | execAll (stmts : List Stmt)
  | rounds (condition : Expr) (body : Stmt)

namespace Task

/-- What a task gives when it comes to its end. -/
abbrev Result : Task → Type
  | .eval _ | .call .. | .invoke .. => Value
  | .evalAll _ => List Value
  | .exec _ | .execAll _ | .rounds .. => Completion

/-- Carries out a task. -/
def run (fuel : Nat) : (task : Task) → Step task.Result
  | .eval expr => Step.eval fuel expr
  | .evalAll exprs => Step.evalAll fuel exprs
  | .call callee arguments line => Step.call fuel callee arguments line
  | .invoke function arguments => Step.invoke fuel function arguments
  | .exec stmt => Step.exec fuel stmt
  | .execAll stmts => Step.execAll fuel stmts
  | .rounds condition body => Step.repeatWhile fuel condition body

end Task

/-- The machine in a new frame. -/
def Machine.within
    (machine : Machine) (parent : Option FrameId) (names : Bindings Value) :
    Machine :=
  { machine with
    store := (machine.store.addFrame ⟨parent, names⟩).2
    current := machine.store.frames.size }

/-- The machine with a new instance of a class. -/
def Machine.withObject (machine : Machine) (id : ClassId) : Machine :=
  { machine with store := (machine.store.addObject ⟨id, .empty⟩).2 }

open Step in
/-- One task, carried out with `fuel + 1`, hands over to another one, which
is carried out with `fuel`. -/
inductive Enters : Nat → Task → Machine → Task → Machine → Prop where
  | group : Enters fuel (.eval (.group expr)) m (.eval expr) m
  | unary : Enters fuel (.eval (.unary op operand line)) m (.eval operand) m
  | binaryLeft :
      Enters fuel (.eval (.binary left op right line)) m (.eval left) m
  | binaryRight :
      eval fuel left m = .ok value m₁ →
      Enters fuel (.eval (.binary left op right line)) m (.eval right) m₁
  | logicalLeft :
      Enters fuel (.eval (.logical left op right)) m (.eval left) m
  | logicalRight :
      eval fuel left m = .ok value m₁ → Value.decides op value = false →
      Enters fuel (.eval (.logical left op right)) m (.eval right) m₁
  | assigned :
      Enters fuel (.eval (.assign place name value)) m (.eval value) m
  | callee :
      Enters fuel (.eval (.call callee line arguments)) m (.eval callee) m
  | arguments :
      eval fuel callee m = .ok function m₁ →
      Enters fuel (.eval (.call callee line arguments)) m
        (.evalAll arguments) m₁
  | call :
      eval fuel callee m = .ok function m₁ →
      evalAll fuel arguments m₁ = .ok values m₂ →
      m₂.store.arity? function = some values.length →
      Enters fuel (.eval (.call callee line arguments)) m
        (.call function values line) m₂
  | getObject : Enters fuel (.eval (.get object name)) m (.eval object) m
  | setObject :
      Enters fuel (.eval (.set object name value)) m (.eval object) m
  | setValue :
      eval fuel object m = .ok (.object target) m₁ →
      Enters fuel (.eval (.set object name value)) m (.eval value) m₁
  | head : Enters fuel (.evalAll (expr :: exprs)) m (.eval expr) m
  | tail :
      eval fuel expr m = .ok value m₁ →
      Enters fuel (.evalAll (expr :: exprs)) m (.evalAll exprs) m₁
  | callFunction :
      m.store.functions[callee]? = some function →
      Enters fuel (.call (.function callee) values line) m
        (.invoke function values) m
  | construct :
      (m.withObject cls).store.method? cls initializerName = some method →
      bindMethod method m.store.objects.size (m.withObject cls) =
        .ok bound m₁ →
      Enters fuel (.call (.classRef cls) values line) m
        (.invoke bound values) m₁
  | body :
      Enters fuel (.invoke function values) m
        (.execAll function.declaration.body)
        (m.within (some function.closure)
          (bindParams function.declaration.params values))
  | expression :
      Enters fuel (.exec (.expression expr)) m (.eval expr) m
  | print : Enters fuel (.exec (.print expr)) m (.eval expr) m
  | initializer :
      Enters fuel (.exec (.var name (some expr))) m (.eval expr) m
  | block :
      Enters fuel (.exec (.block body)) m (.execAll body)
        (m.within (some m.current) .empty)
  | condition :
      Enters fuel (.exec (.branch condition yes no)) m (.eval condition) m
  | thenBranch :
      eval fuel condition m = .ok value m₁ → value.isTruthy = true →
      Enters fuel (.exec (.branch condition yes no)) m (.exec yes) m₁
  | elseBranch :
      eval fuel condition m = .ok value m₁ → value.isTruthy = false →
      Enters fuel (.exec (.branch condition yes (some no))) m (.exec no) m₁
  | loop :
      Enters fuel (.exec (.loop condition body)) m
        (.rounds condition body) m
  | returned :
      Enters fuel (.exec (.ret line (some expr))) m (.eval expr) m
  | superclass :
      Step.define name.name .nil m = .ok () m₁ →
      Enters fuel (.exec (.classDecl name (some expr) methods)) m
        (.eval expr) m₁
  | first : Enters fuel (.execAll (stmt :: stmts)) m (.exec stmt) m
  | next :
      exec fuel stmt m = .ok .normal m₁ →
      Enters fuel (.execAll (stmt :: stmts)) m (.execAll stmts) m₁
  | roundCondition :
      Enters fuel (.rounds condition body) m (.eval condition) m
  | roundBody :
      eval fuel condition m = .ok value m₁ → value.isTruthy = true →
      Enters fuel (.rounds condition body) m (.exec body) m₁
  | nextRound :
      eval fuel condition m = .ok value m₁ → value.isTruthy = true →
      exec fuel body m₁ = .ok .normal m₂ →
      Enters fuel (.rounds condition body) m (.rounds condition body) m₂

/-- One task leads to another one through any number of hand-overs. -/
inductive Reaches :
    Nat → Task → Machine → Nat → Task → Machine → Prop where
  | refl : Reaches fuel task m fuel task m
  | step :
      Enters fuel task m task₁ m₁ →
      Reaches fuel task₁ m₁ fuel' task' m' →
      Reaches (fuel + 1) task m fuel' task' m'

/-! ## How steps end -/

namespace Step

/-- A step taken on `machine` gives a value with `ok`, or halts with
`halted`. -/
def Ends (step : Step α) (machine : Machine) (ok : α → Machine → Prop)
    (halted : Halt → Machine → Prop) : Prop :=
  match step machine with
  | .ok a machine => ok a machine
  | .error halt machine => halted halt machine

variable {α β : Type} {step : Step α} {next : α → Step β} {m : Machine}
variable {ok ok' : α → Machine → Prop} {done : β → Machine → Prop}
variable {halted halted' : Halt → Machine → Prop}

theorem Ends.of_ok
    {a : α} {m₁ : Machine}
    (hends : step.Ends m ok halted) (hrun : step m = .ok a m₁) : ok a m₁ := by
  simpa only [Ends, hrun] using hends

theorem Ends.of_error
    {halt : Halt} {m₁ : Machine}
    (hends : step.Ends m ok halted) (hrun : step m = .error halt m₁) :
    halted halt m₁ := by
  simpa only [Ends, hrun] using hends

/-- What holds of every possible ending holds of the step. -/
theorem ends_of
    (hok : ∀ a m₁, step m = .ok a m₁ → ok a m₁)
    (herror : ∀ halt m₁, step m = .error halt m₁ → halted halt m₁) :
    step.Ends m ok halted := by
  cases hrun : step m with
  | ok a m₁ => simpa only [Ends, hrun] using hok a m₁ hrun
  | error halt m₁ => simpa only [Ends, hrun] using herror halt m₁ hrun

theorem Ends.mono
    (hends : step.Ends m ok halted)
    (hok : ∀ a m₁, step m = .ok a m₁ → ok a m₁ → ok' a m₁)
    (herror : ∀ halt m₁, halted halt m₁ → halted' halt m₁) :
    step.Ends m ok' halted' :=
  ends_of (fun a m₁ hrun => hok a m₁ hrun (hends.of_ok hrun))
    fun halt m₁ hrun => herror halt m₁ (hends.of_error hrun)

theorem Ends.bind
    (hstep : step.Ends m ok halted)
    (hnext : ∀ a m₁, step m = .ok a m₁ → ok a m₁ →
      (next a).Ends m₁ done halted) :
    (step >>= next).Ends m done halted := by
  cases hrun : step m with
  | ok a m₁ =>
      have hbind : (step >>= next) m = next a m₁ := by
        simp [Bind.bind, EStateM.bind, hrun]
      simpa only [Ends, hbind] using hnext a m₁ hrun (hstep.of_ok hrun)
  | error halt m₁ =>
      have hbind : (step >>= next) m = .error halt m₁ := by
        simp [Bind.bind, EStateM.bind, hrun]
      simpa only [Ends, hbind] using hstep.of_error hrun

/-- A step that always gives a value hands over to the next one. -/
theorem ends_bind_of_ok
    {a : α} {m₁ : Machine}
    (hrun : step m = .ok a m₁) (hnext : (next a).Ends m₁ done halted) :
    (step >>= next).Ends m done halted := by
  have hbind : (step >>= next) m = next a m₁ := by
    simp [Bind.bind, EStateM.bind, hrun]
  simpa only [Ends, hbind] using hnext

theorem ends_ask
    {question : Machine → α} {a : α} (hanswer : question m = a)
    (hnext : (next a).Ends m done halted) :
    (ask question >>= next).Ends m done halted :=
  ends_bind_of_ok (show ask question m = .ok a m by rw [ask, hanswer]) hnext

theorem askDefect_eq
    {question : Machine → Except Defect α} {a : α}
    (hanswer : question m = .ok a) :
    (orDefect =<< ask question) m = .ok a m := by
  change orDefect (question m) m = .ok a m
  rw [hanswer]
  rfl

theorem askDefect_ok
    {question : Machine → Except Defect α} {a : α} {m₁ : Machine}
    (h : (orDefect =<< ask question) m = .ok a m₁) :
    question m = .ok a ∧ m = m₁ := by
  change orDefect (question m) m = .ok a m₁ at h
  cases hanswer : question m with
  | error d =>
      rw [hanswer] at h
      cases h
  | ok answer =>
      rw [hanswer] at h
      cases h
      exact ⟨rfl, rfl⟩

theorem ends_askDefect
    {question : Machine → Except Defect α} {a : α}
    (hanswer : question m = .ok a) (hnext : (next a).Ends m done halted) :
    ((orDefect =<< ask question) >>= next).Ends m done halted :=
  ends_bind_of_ok (askDefect_eq hanswer) hnext

/-- Takes a step in a new frame and comes back. -/
def nested (parent : Option FrameId) (names : Bindings Value)
    (action : Step α) : Step α := do
  let frame ← addFrame parent names
  inFrame frame action

theorem nested_eq
    (parent : Option FrameId) (names : Bindings Value) (action : Step α)
    (m : Machine) :
    nested parent names action m =
      match action (m.within parent names) with
      | .ok a m₁ => .ok a { m₁ with current := m.current }
      | .error halt m₁ => .error halt { m₁ with current := m.current } :=
  rfl

theorem ends_nested
    {parent : Option FrameId} {names : Bindings Value}
    (haction : step.Ends (m.within parent names)
      (fun a m₁ => ok a { m₁ with current := m.current })
      fun halt m₁ => halted halt { m₁ with current := m.current }) :
    (nested parent names step).Ends m ok halted := by
  cases hstep : step (m.within parent names) with
  | ok a m₁ =>
      simpa only [Ends, nested_eq, hstep] using haction.of_ok hstep
  | error halt m₁ =>
      simpa only [Ends, nested_eq, hstep] using haction.of_error hstep

theorem exec_block (fuel : Nat) (body : List Stmt) :
    exec (fuel + 1) (.block body) =
      (ask Machine.current >>= fun current =>
        nested (some current) .empty (execAll fuel body)) :=
  rfl

theorem invoke_succ
    (fuel : Nat) (function : Function) (arguments : List Value) :
    invoke (fuel + 1) function arguments =
      (nested (some function.closure)
          (bindParams function.declaration.params arguments)
          (execAll fuel function.declaration.body) >>= fun completion =>
        if function.initializer then
          ask (fun machine =>
            machine.store.readAt function.closure 0 "this") >>= orDefect
        else
          match completion with
          | .normal => pure .nil
          | .returned value => pure value) := by
  funext machine
  rfl

/-- The declaration of a class comes back to the frame in which it stands, so
that the class is made and named as if it had never been left. -/
theorem declareClass_eq
    (name : Ident) (superclass : Option ClassId)
    (methods : List FunctionDecl) :
    declareClass name superclass methods = (do
      let current ← ask Machine.current
      let closure ← match superclass with
        | none => pure current
        | some id =>
            addFrame (some current) (Bindings.empty.put "super" (.classRef id))
      let id ← onStore fun store =>
        store.addClass ⟨name.name, superclass, methodTable closure methods⟩
      assignHere name (.classRef id)) := by
  funext m
  cases superclass with
  | none => rfl
  | some id => rfl

end Step
end LoxLang
