import LoxLang.Proofs.Run.Task

/-!
# `return` as a signal

Here a `return` goes the way of the halts: the step in which it stands breaks
off with it, and so does every step around, an expression no less than a
statement, up to the call of the function, which takes it up.  Nothing but that
call tells it from a halt.  This evaluation and the one with completions do the
same on every tree and every machine, so that what is shown of the one holds of
the other.
-/

namespace LoxLang

/-- What breaks off a step: a halt, or a `return` on its way to the call. -/
inductive Signal where
  | halted (halt : Halt)
  | returned (value : Value)

namespace Signal

abbrev Step := EStateM Signal Machine

/-- A step that knows of halts only. -/
def lift (step : LoxLang.Step α) : Step α := fun machine =>
  match step machine with
  | .ok a machine => .ok a machine
  | .error halt machine => .error (.halted halt) machine

def fail (cause : RuntimeError.Cause) (line : Nat) : Step α :=
  throw (.halted (.fault ⟨cause, line⟩))

/-- Takes a step in another frame, and comes back from it whether it has come
to its end, has halted or has returned. -/
def inFrame (frame : FrameId) (action : Step α) : Step α := fun machine =>
  let outer := machine.current
  match action { machine with current := frame } with
  | .ok a machine => .ok a { machine with current := outer }
  | .error signal machine => .error signal { machine with current := outer }

/-- Takes up the `return` of a body. -/
def takeUp (body : Step Unit) : Step Completion := fun machine =>
  match body machine with
  | .ok _ machine => .ok .normal machine
  | .error (.returned value) machine => .ok (.returned value) machine
  | .error (.halted halt) machine => .error (.halted halt) machine

open LoxLang.Step (ask onStore define addFrame readName writeName print
  orDefect orMismatch callNative bindMethod bindParams getProperty setProperty
  superMethod declareFunction declareClass)

mutual

def eval : Nat → Expr → Step Value
  | 0, _ => throw (.halted .outOfFuel)
  | fuel + 1, expr =>
      match expr with
      | .literal value => return Value.ofLiteral value
      | .group inner => eval fuel inner
      | .unary op operand line => do
          let value ← eval fuel operand
          lift (orMismatch line (Value.unary op value))
      | .binary left op right line => do
          let a ← eval fuel left
          let b ← eval fuel right
          lift (orMismatch line (Value.binary a op b))
      | .logical left op right => do
          let value ← eval fuel left
          if Value.decides op value then return value else eval fuel right
      | .read id name => lift (readName id name)
      | .assign id name value => do
          let value ← eval fuel value
          lift (writeName id name value)
          return value
      | .call callee line arguments => do
          let callee ← eval fuel callee
          let values ← evalAll fuel arguments
          match ← lift (ask fun machine => machine.store.arity? callee) with
          | none => fail .notCallable line
          | some arity =>
              if values.length = arity then call fuel callee values line
              else fail (.arityMismatch arity values.length) line
      | .get object name => do
          match ← eval fuel object with
          | .object id => lift (getProperty id name)
          | _ => fail .notAnInstance name.line
      | .set object name value => do
          match ← eval fuel object with
          | .object id =>
              let value ← eval fuel value
              lift (setProperty id name.name value)
              return value
          | _ => fail .notAnInstance name.line
      | .this id line => lift (readName id ⟨"this", line⟩)
      | .super id line method => lift (superMethod id line method)

def evalAll : Nat → List Expr → Step (List Value)
  | 0, _ => throw (.halted .outOfFuel)
  | _ + 1, [] => return []
  | fuel + 1, expr :: exprs => do
      let value ← eval fuel expr
      let values ← evalAll fuel exprs
      return value :: values

def call : Nat → Value → List Value → Nat → Step Value
  | 0, _, _, _ => throw (.halted .outOfFuel)
  | fuel + 1, callee, arguments, line =>
      match callee with
      | .native native => lift (callNative native arguments line)
      | .function id => do
          match ← lift (ask fun machine => machine.store.functions[id]?) with
          | some function => invoke fuel function arguments
          | none => fail .notCallable line
      | .classRef id => do
          let object ← lift (onStore fun store =>
            store.addObject ⟨id, .empty⟩)
          match ← lift (ask fun machine =>
              machine.store.method? id initializerName) with
          | some method =>
              let initializer ← lift (bindMethod method object)
              let _ ← invoke fuel initializer arguments
              return .object object
          | none => return .object object
      | _ => fail .notCallable line

/-- The call of a function is the one place where a `return` is taken up. -/
def invoke : Nat → Function → List Value → Step Value
  | 0, _, _ => throw (.halted .outOfFuel)
  | fuel + 1, function, arguments => do
      let frame ← lift (addFrame (some function.closure)
        (bindParams function.declaration.params arguments))
      let completion ←
        takeUp (inFrame frame (execAll fuel function.declaration.body))
      if function.initializer then
        lift (orDefect =<< ask fun machine =>
          machine.store.readAt function.closure 0 "this")
      else
        match completion with
        | .normal => return .nil
        | .returned value => return value

def exec : Nat → Stmt → Step Unit
  | 0, _ => throw (.halted .outOfFuel)
  | fuel + 1, stmt =>
      match stmt with
      | .expression expr => do
          let _ ← eval fuel expr
      | .print expr => do
          let value ← eval fuel expr
          lift (print value)
      | .var name none => lift (define name.name .nil)
      | .var name (some initializer) => do
          let value ← eval fuel initializer
          lift (define name.name value)
      | .block body => do
          let current ← lift (ask Machine.current)
          let frame ← lift (addFrame (some current) .empty)
          inFrame frame (execAll fuel body)
      | .branch condition thenBranch elseBranch => do
          let value ← eval fuel condition
          if value.isTruthy then exec fuel thenBranch
          else match elseBranch with
            | some elseBranch => exec fuel elseBranch
            | none => return ()
      | .loop condition body => repeatWhile fuel condition body
      | .function declaration => lift (declareFunction declaration)
      | .ret _ none => throw (.returned .nil)
      | .ret _ (some value) => do
          let value ← eval fuel value
          throw (.returned value)
      | .classDecl name superclass methods => do
          lift (define name.name .nil)
          match superclass with
          | none => lift (declareClass name none methods)
          | some superclass =>
              match ← eval fuel superclass with
              | .classRef id => lift (declareClass name (some id) methods)
              | _ => fail (.typeMismatch .classAsSuperclass) name.line

def execAll : Nat → List Stmt → Step Unit
  | 0, _ => throw (.halted .outOfFuel)
  | _ + 1, [] => return ()
  | fuel + 1, stmt :: stmts => do
      exec fuel stmt
      execAll fuel stmts

def repeatWhile : Nat → Expr → Stmt → Step Unit
  | 0, _, _ => throw (.halted .outOfFuel)
  | fuel + 1, condition, body => do
      let value ← eval fuel condition
      if value.isTruthy then
        exec fuel body
        repeatWhile fuel condition body
      else return ()

end

open LoxLang.Step (flush)

/-- Runs a program.  A `return` that no call has taken up is a defect. -/
def runProgram (fuel : Nat) (program : Program) : LoxLang.Step Unit :=
  fun machine =>
    match execAll fuel program machine with
    | .ok _ machine => flush machine
    | .error (.returned _) machine => .error (.defect .strayReturn) machine
    | .error (.halted (.fault e)) machine =>
        match flush machine with
        | .ok _ machine => .error (.fault e) machine
        | .error halt machine => .error halt machine
    | .error (.halted halt) machine => .error halt machine

/-! ## The two ways of a `return` -/

/-- The completion of a step, sent on as a signal. -/
def send (step : LoxLang.Step Completion) : Step Unit := fun machine =>
  match step machine with
  | .ok .normal machine => .ok () machine
  | .ok (.returned value) machine => .error (.returned value) machine
  | .error halt machine => .error (.halted halt) machine

section
variable {α β : Type} {step : LoxLang.Step α} {step' : Step α}

theorem bind_eq_lift
    {next : α → LoxLang.Step β} {next' : α → Step β}
    (hstep : step' = lift step) (hnext : ∀ a, next' a = lift (next a)) :
    step' >>= next' = lift (step >>= next) := by
  obtain rfl : next' = fun a => lift (next a) := funext hnext
  subst hstep
  funext m
  simp only [lift, Bind.bind, EStateM.bind]
  cases step m <;> rfl

theorem bind_eq_send
    {next : α → LoxLang.Step Completion} {next' : α → Step Unit}
    (hstep : step' = lift step) (hnext : ∀ a, next' a = send (next a)) :
    step' >>= next' = send (step >>= next) := by
  obtain rfl : next' = fun a => send (next a) := funext hnext
  subst hstep
  funext m
  simp only [lift, send, Bind.bind, EStateM.bind]
  cases step m <;> rfl

/-- A step that is the last one comes to a normal completion. -/
theorem lift_eq_send (step : LoxLang.Step Unit) :
    lift step = send (step >>= fun _ => pure .normal) := by
  funext m
  simp only [lift, send, Bind.bind, EStateM.bind]
  cases step m <;> rfl

/-- What comes after a statement is carried out unless that returns. -/
theorem then_eq_send
    {step : LoxLang.Step Completion} {step' next' : Step Unit}
    {next : Completion → LoxLang.Step Completion}
    (hstep : step' = send step) (hnext : next' = send (next .normal))
    (hreturned : ∀ value, next (.returned value) = pure (.returned value)) :
    (step' >>= fun _ => next') = send (step >>= next) := by
  subst hstep hnext
  funext m
  simp only [send, Bind.bind, EStateM.bind]
  cases step m with
  | error halt m₁ => rfl
  | ok completion m₁ =>
      cases completion with
      | normal => rfl
      | returned value => simp only [hreturned, pure, EStateM.pure]

theorem inFrame_eq_send
    {step : LoxLang.Step Completion} {step' : Step Unit}
    (hstep : step' = send step) (frame : FrameId) :
    inFrame frame step' = send (LoxLang.Step.inFrame frame step) := by
  subst hstep
  funext m
  simp only [send, inFrame, LoxLang.Step.inFrame]
  cases step { m with current := frame } with
  | error halt m₁ => rfl
  | ok completion m₁ => cases completion <;> rfl

theorem returned_of_send
    {step : LoxLang.Step Completion} {m m' : Machine} {value : Value}
    (h : send step m = .error (.returned value) m') :
    step m = .ok (.returned value) m' := by
  unfold send at h
  cases hstep : step m with
  | error halt m₁ => simp [hstep] at h
  | ok completion m₁ =>
      cases completion with
      | normal => simp [hstep] at h
      | returned result =>
          simp only [hstep, EStateM.Result.error.injEq,
            Signal.returned.injEq] at h
          rw [h.1, h.2]

/-- The call gets the completion of the body back. -/
theorem takeUp_eq_lift
    {step : LoxLang.Step Completion} {step' : Step Unit}
    (hstep : step' = send step) : takeUp step' = lift step := by
  subst hstep
  funext m
  simp only [takeUp, send, lift]
  cases step m with
  | error halt m₁ => rfl
  | ok completion m₁ => cases completion <;> rfl

end

/-! ## The two evaluations -/

/-- Up to `fuel`, signals and completions come to the same. -/
structure Agrees (fuel : Nat) : Prop where
  eval : ∀ expr, eval fuel expr = lift (LoxLang.Step.eval fuel expr)
  evalAll : ∀ exprs, evalAll fuel exprs = lift (LoxLang.Step.evalAll fuel exprs)
  call : ∀ callee values line,
    call fuel callee values line =
      lift (LoxLang.Step.call fuel callee values line)
  invoke : ∀ function values,
    invoke fuel function values =
      lift (LoxLang.Step.invoke fuel function values)
  exec : ∀ stmt, exec fuel stmt = send (LoxLang.Step.exec fuel stmt)
  execAll : ∀ stmts, execAll fuel stmts = send (LoxLang.Step.execAll fuel stmts)
  repeatWhile : ∀ condition body,
    repeatWhile fuel condition body =
      send (LoxLang.Step.repeatWhile fuel condition body)

section
variable {fuel : Nat} (h : Agrees fuel)
include h

theorem Agrees.eval_succ (expr : Expr) :
    Signal.eval (fuel + 1) expr =
      lift (LoxLang.Step.eval (fuel + 1) expr) := by
  cases expr with
  | literal value => rfl
  | group inner => exact h.eval inner
  | unary op operand line => exact bind_eq_lift (h.eval operand) fun _ => rfl
  | binary left op right line =>
      refine bind_eq_lift (h.eval left) fun a => ?_
      exact bind_eq_lift (h.eval right) fun _ => rfl
  | logical left op right =>
      refine bind_eq_lift (h.eval left) fun value => ?_
      cases Value.decides op value with
      | true => rfl
      | false => exact h.eval right
  | read id name => rfl
  | assign id name value =>
      refine bind_eq_lift (h.eval value) fun result => ?_
      exact bind_eq_lift rfl fun _ => rfl
  | call callee line arguments =>
      refine bind_eq_lift (h.eval callee) fun function => ?_
      refine bind_eq_lift (h.evalAll arguments) fun values => ?_
      refine bind_eq_lift rfl fun arity => ?_
      cases arity with
      | none => rfl
      | some arity =>
          by_cases hlength : values.length = arity
          · simp only [hlength, if_true]
            exact h.call function values line
          · simp only [hlength, if_false]
            rfl
  | get object name =>
      refine bind_eq_lift (h.eval object) fun target => ?_
      cases target <;> rfl
  | set object name value =>
      refine bind_eq_lift (h.eval object) fun target => ?_
      cases target with
      | object id =>
          refine bind_eq_lift (h.eval value) fun result => ?_
          exact bind_eq_lift rfl fun _ => rfl
      | nil | bool | number | string | native | function | classRef => rfl
  | this id line => rfl
  | super id line method => rfl

theorem Agrees.evalAll_succ (exprs : List Expr) :
    Signal.evalAll (fuel + 1) exprs =
      lift (LoxLang.Step.evalAll (fuel + 1) exprs) := by
  cases exprs with
  | nil => rfl
  | cons expr exprs =>
      refine bind_eq_lift (h.eval expr) fun value => ?_
      exact bind_eq_lift (h.evalAll exprs) fun _ => rfl

theorem Agrees.call_succ
    (callee : Value) (arguments : List Value) (line : Nat) :
    Signal.call (fuel + 1) callee arguments line =
      lift (LoxLang.Step.call (fuel + 1) callee arguments line) := by
  cases callee with
  | native native => rfl
  | function id =>
      refine bind_eq_lift rfl fun function => ?_
      cases function with
      | none => rfl
      | some function => exact h.invoke function arguments
  | classRef id =>
      refine bind_eq_lift rfl fun object => ?_
      refine bind_eq_lift rfl fun method => ?_
      cases method with
      | none => rfl
      | some method =>
          refine bind_eq_lift rfl fun initializer => ?_
          exact bind_eq_lift (h.invoke initializer arguments) fun _ => rfl
  | nil | bool | number | string | object => rfl

/-- The signal that the body may send is back among the completions. -/
theorem Agrees.invoke_succ (function : Function) (arguments : List Value) :
    Signal.invoke (fuel + 1) function arguments =
      lift (LoxLang.Step.invoke (fuel + 1) function arguments) := by
  refine bind_eq_lift rfl fun frame => ?_
  have hbody := inFrame_eq_send (h.execAll function.declaration.body) frame
  refine bind_eq_lift (takeUp_eq_lift hbody) fun completion => ?_
  by_cases hinitializer : function.initializer = true
  · simp only [hinitializer, if_true]
  · simp only [hinitializer, Bool.false_eq_true, if_false]
    cases completion <;> rfl

theorem Agrees.exec_succ (stmt : Stmt) :
    Signal.exec (fuel + 1) stmt =
      send (LoxLang.Step.exec (fuel + 1) stmt) := by
  cases stmt with
  | expression expr => exact bind_eq_send (h.eval expr) fun _ => rfl
  | print expr =>
      exact bind_eq_send (h.eval expr) fun value => lift_eq_send _
  | var name initializer =>
      cases initializer with
      | none => exact lift_eq_send (define name.name .nil)
      | some initializer =>
          exact bind_eq_send (h.eval initializer) fun value => lift_eq_send _
  | block body =>
      refine bind_eq_send rfl fun current => ?_
      refine bind_eq_send rfl fun frame => ?_
      exact inFrame_eq_send (h.execAll body) frame
  | branch condition yes no =>
      refine bind_eq_send (h.eval condition) fun value => ?_
      by_cases htruthy : value.isTruthy = true
      · simp only [htruthy, if_true]
        exact h.exec yes
      · simp only [htruthy, Bool.false_eq_true, if_false]
        cases no with
        | none => rfl
        | some no => exact h.exec no
  | loop condition body => exact h.repeatWhile condition body
  | function declaration => exact lift_eq_send (declareFunction declaration)
  | ret line value =>
      cases value with
      | none => rfl
      | some value => exact bind_eq_send (h.eval value) fun _ => rfl
  | classDecl name superclass methods =>
      refine bind_eq_send rfl fun _ => ?_
      cases superclass with
      | none => exact lift_eq_send _
      | some superclass =>
          refine bind_eq_send (h.eval superclass) fun value => ?_
          cases value with
          | classRef id => exact lift_eq_send _
          | nil | bool | number | string | native | function | object => rfl

theorem Agrees.execAll_succ (stmts : List Stmt) :
    Signal.execAll (fuel + 1) stmts =
      send (LoxLang.Step.execAll (fuel + 1) stmts) := by
  cases stmts with
  | nil => rfl
  | cons stmt stmts =>
      exact then_eq_send (h.exec stmt) (h.execAll stmts) fun _ => rfl

theorem Agrees.repeatWhile_succ (condition : Expr) (body : Stmt) :
    Signal.repeatWhile (fuel + 1) condition body =
      send (LoxLang.Step.repeatWhile (fuel + 1) condition body) := by
  refine bind_eq_send (h.eval condition) fun value => ?_
  by_cases htruthy : value.isTruthy = true
  · simp only [htruthy, if_true]
    exact then_eq_send (h.exec body) (h.repeatWhile condition body) fun _ => rfl
  · simp only [htruthy, Bool.false_eq_true, if_false]
    rfl

end

/-- Signals and completions come to the same. -/
theorem agrees (fuel : Nat) : Agrees fuel := by
  induction fuel with
  | zero =>
      exact ⟨fun _ => rfl, fun _ => rfl, fun _ _ _ => rfl, fun _ _ => rfl,
        fun _ => rfl, fun _ => rfl, fun _ _ => rfl⟩
  | succ fuel h =>
      exact ⟨h.eval_succ, h.evalAll_succ, h.call_succ, h.invoke_succ,
        h.exec_succ, h.execAll_succ, h.repeatWhile_succ⟩

theorem runProgram_eq (fuel : Nat) (program : Program) :
    runProgram fuel program = LoxLang.Step.runProgram fuel program := by
  funext m
  simp only [runProgram, LoxLang.Step.runProgram, (agrees fuel).execAll, send]
  cases LoxLang.Step.execAll fuel program m with
  | ok completion m₁ => cases completion <;> rfl
  | error halt m₁ => cases halt <;> rfl

end Signal
end LoxLang
