import LoxLang.Proofs.Run.Task

/-!
# The bound on the depth of a run

A task that comes to an end does so in the same way with every higher bound.
So the bound says how long one waits for an answer, and never what the answer
is.  Statements in a row are carried out one after the other, each of them
with one less than the one before.
-/

namespace LoxLang
namespace Step

/-- Unless the first step runs out of fuel, the second one ends in the same
way. -/
def Approximates (step other : Step α) : Prop :=
  ∀ m, (∃ m₁, step m = .error .outOfFuel m₁) ∨ other m = step m

section
variable {α β : Type} {step other third : Step α}
variable {next next' : α → Step β}

theorem approximates_refl (step : Step α) : step.Approximates step :=
  fun _ => .inr rfl

theorem approximates_outOfFuel (other : Step α) :
    (throw .outOfFuel : Step α).Approximates other :=
  fun m => .inl ⟨m, rfl⟩

theorem Approximates.trans
    (hfirst : step.Approximates other) (hsecond : other.Approximates third) :
    step.Approximates third := by
  intro m
  rcases hfirst m with hout | hsame
  · exact .inl hout
  · rw [← hsame]
    rcases hsecond m with hout | hthird
    · exact .inl hout
    · exact .inr hthird

theorem Approximates.bind
    (hstep : step.Approximates other)
    (hnext : ∀ a, (next a).Approximates (next' a)) :
    (step >>= next).Approximates (other >>= next') := by
  intro m
  change (∃ m₁, EStateM.bind step next m = .error .outOfFuel m₁) ∨
    EStateM.bind other next' m = EStateM.bind step next m
  unfold EStateM.bind
  rcases hstep m with ⟨m₁, hout⟩ | hsame
  · rw [hout]
    exact .inl ⟨m₁, rfl⟩
  · rw [hsame]
    cases step m with
    | ok a m₁ => exact hnext a m₁
    | error halt m₁ => exact .inr rfl

theorem Approximates.nested
    (hstep : step.Approximates other) (parent : Option FrameId)
    (names : Bindings Value) :
    (nested parent names step).Approximates (nested parent names other) := by
  apply (approximates_refl (addFrame parent names)).bind
  intro frame m
  unfold inFrame
  rcases hstep { m with current := frame } with ⟨m₁, hout⟩ | hsame
  · rw [hout]
    exact .inl ⟨_, rfl⟩
  · rw [hsame]
    exact .inr rfl

end

/-! ## One more -/

section
variable {fuel : Nat}
variable (ih : ∀ task : Task,
  (task.run fuel).Approximates (task.run (fuel + 1)))
include ih

theorem approximates_eval_succ (expr : Expr) :
    (eval (fuel + 1) expr).Approximates (eval (fuel + 2) expr) := by
  have heval (e : Expr) : (eval fuel e).Approximates (eval (fuel + 1) e) :=
    ih (.eval e)
  cases expr with
  | literal value => exact approximates_refl _
  | group inner => exact heval inner
  | unary op operand line =>
      apply (heval operand).bind
      exact fun _ => approximates_refl _
  | binary left op right line =>
      apply (heval left).bind
      intro a
      apply (heval right).bind
      exact fun _ => approximates_refl _
  | logical left op right =>
      apply (heval left).bind
      intro value
      by_cases hdecides : Value.decides op value = true
      · simp only [hdecides, if_true]
        exact approximates_refl _
      · simp only [hdecides, Bool.false_eq_true, if_false]
        exact heval right
  | read id name => exact approximates_refl _
  | assign id name value =>
      apply (heval value).bind
      exact fun _ => approximates_refl _
  | call callee line arguments =>
      apply (heval callee).bind
      intro function
      apply (ih (.evalAll arguments)).bind
      intro values
      apply (approximates_refl _).bind
      intro arity
      cases arity with
      | none => exact approximates_refl _
      | some arity =>
          by_cases hlength : values.length = arity
          · simp only [hlength, if_true]
            exact ih (.call function values line)
          · simp only [hlength, if_false]
            exact approximates_refl _
  | get object name =>
      apply (heval object).bind
      exact fun _ => approximates_refl _
  | set object name value =>
      apply (heval object).bind
      intro target
      cases target with
      | object id =>
          apply (heval value).bind
          exact fun _ => approximates_refl _
      | nil | bool | number | string | native | function | classRef =>
          exact approximates_refl _
  | this id line => exact approximates_refl _
  | super id line method => exact approximates_refl _

theorem approximates_evalAll_succ (exprs : List Expr) :
    (evalAll (fuel + 1) exprs).Approximates (evalAll (fuel + 2) exprs) := by
  cases exprs with
  | nil => exact approximates_refl _
  | cons expr exprs =>
      apply (ih (.eval expr)).bind
      intro value
      apply (ih (.evalAll exprs)).bind
      exact fun _ => approximates_refl _

theorem approximates_call_succ
    (callee : Value) (arguments : List Value) (line : Nat) :
    (call (fuel + 1) callee arguments line).Approximates
      (call (fuel + 2) callee arguments line) := by
  cases callee with
  | function id =>
      apply (approximates_refl _).bind
      intro function
      cases function with
      | none => exact approximates_refl _
      | some function => exact ih (.invoke function arguments)
  | classRef id =>
      apply (approximates_refl _).bind
      intro object
      apply (approximates_refl _).bind
      intro method
      cases method with
      | none => exact approximates_refl _
      | some method =>
          apply (approximates_refl _).bind
          intro bound
          apply (ih (.invoke bound arguments)).bind
          exact fun _ => approximates_refl _
  | nil | bool | number | string | native | object =>
      exact approximates_refl _

theorem approximates_invoke_succ
    (function : Function) (arguments : List Value) :
    (invoke (fuel + 1) function arguments).Approximates
      (invoke (fuel + 2) function arguments) := by
  rw [invoke_succ, invoke_succ]
  have hbody := ih (.execAll function.declaration.body)
  apply (hbody.nested _ _).bind
  exact fun _ => approximates_refl _

private theorem approximates_exec_succ (stmt : Stmt) :
    (exec (fuel + 1) stmt).Approximates (exec (fuel + 2) stmt) := by
  have heval (e : Expr) : (eval fuel e).Approximates (eval (fuel + 1) e) :=
    ih (.eval e)
  cases stmt with
  | expression expr =>
      apply (heval expr).bind
      exact fun _ => approximates_refl _
  | print expr =>
      apply (heval expr).bind
      exact fun _ => approximates_refl _
  | var name initializer =>
      cases initializer with
      | none => exact approximates_refl _
      | some initializer =>
          apply (heval initializer).bind
          exact fun _ => approximates_refl _
  | block body =>
      rw [exec_block, exec_block]
      apply (approximates_refl _).bind
      intro current
      exact Approximates.nested (ih (.execAll body)) _ _
  | branch condition yes no =>
      apply (heval condition).bind
      intro value
      by_cases htruthy : value.isTruthy = true
      · simp only [htruthy, if_true]
        exact ih (.exec yes)
      · simp only [htruthy, Bool.false_eq_true, if_false]
        cases no with
        | none => exact approximates_refl _
        | some no => exact ih (.exec no)
  | loop condition body => exact ih (.rounds condition body)
  | function declaration => exact approximates_refl _
  | ret line value =>
      cases value with
      | none => exact approximates_refl _
      | some value =>
          apply (heval value).bind
          exact fun _ => approximates_refl _
  | classDecl name superclass methods =>
      apply (approximates_refl _).bind
      intro _
      cases superclass with
      | none => exact approximates_refl _
      | some superclass =>
          apply (heval superclass).bind
          exact fun _ => approximates_refl _

private theorem approximates_execAll_succ (stmts : List Stmt) :
    (execAll (fuel + 1) stmts).Approximates (execAll (fuel + 2) stmts) := by
  cases stmts with
  | nil => exact approximates_refl _
  | cons stmt stmts =>
      apply (ih (.exec stmt)).bind
      intro completion
      cases completion with
      | normal => exact ih (.execAll stmts)
      | returned value => exact approximates_refl _

private theorem approximates_repeatWhile_succ (condition : Expr) (body : Stmt) :
    (repeatWhile (fuel + 1) condition body).Approximates
      (repeatWhile (fuel + 2) condition body) := by
  apply (ih (.eval condition)).bind
  intro value
  by_cases htruthy : value.isTruthy = true
  · simp only [htruthy, if_true]
    apply (ih (.exec body)).bind
    intro completion
    cases completion with
    | normal => exact ih (.rounds condition body)
    | returned value => exact approximates_refl _
  · simp only [htruthy, Bool.false_eq_true, if_false]
    exact approximates_refl _

end

private theorem run_approximates_succ (fuel : Nat) (task : Task) :
    (task.run fuel).Approximates (task.run (fuel + 1)) := by
  induction fuel generalizing task with
  | zero => cases task <;> exact approximates_outOfFuel _
  | succ fuel ih =>
      cases task with
      | eval expr => exact approximates_eval_succ ih expr
      | evalAll exprs => exact approximates_evalAll_succ ih exprs
      | call callee arguments line =>
          exact approximates_call_succ ih callee arguments line
      | invoke function arguments =>
          exact approximates_invoke_succ ih function arguments
      | exec stmt => exact approximates_exec_succ ih stmt
      | execAll stmts => exact approximates_execAll_succ ih stmts
      | rounds condition body =>
          exact approximates_repeatWhile_succ ih condition body

/-- With more fuel, a task that comes to an end ends in the same way. -/
theorem run_approximates {fuel more : Nat} (hle : fuel ≤ more) (task : Task) :
    (task.run fuel).Approximates (task.run more) := by
  induction hle with
  | refl => exact approximates_refl _
  | step _ ih => exact ih.trans (run_approximates_succ _ task)

/-! ## Statements in a row -/

/-- What comes after statements that are carried out with `fuel`. -/
def andThen (fuel : Nat) (stmts : List Stmt) (completion : Completion) :
    Step Completion :=
  match completion with
  | .normal => execAll fuel stmts
  | .returned value => pure (.returned value)

private theorem execAll_append (fuel : Nat) (front rest : List Stmt) :
    execAll fuel (front ++ rest) =
      (execAll fuel front >>= andThen (fuel - front.length) rest) := by
  induction front generalizing fuel with
  | nil =>
      cases fuel with
      | zero => rfl
      | succ fuel => rfl
  | cons stmt front ih =>
      cases fuel with
      | zero => rfl
      | succ fuel =>
          have hfuel :
              fuel + 1 - (stmt :: front).length = fuel - front.length := by
            simp
          rw [List.cons_append, hfuel]
          funext m
          change EStateM.bind (exec fuel stmt) _ m =
            EStateM.bind (EStateM.bind (exec fuel stmt) _) _ m
          unfold EStateM.bind
          cases exec fuel stmt m with
          | error halt m₁ => rfl
          | ok completion m₁ =>
              cases completion with
              | normal => exact congrFun (ih fuel) m₁
              | returned value => rfl

section
variable {fuel : Nat} {front : List Stmt} {m m₁ : Machine}

theorem execAll_append_of_normal
    (hfront : execAll fuel front m = .ok .normal m₁) (rest : List Stmt) :
    execAll fuel (front ++ rest) m =
      execAll (fuel - front.length) rest m₁ := by
  rw [execAll_append]
  change EStateM.bind _ _ m = _
  simp only [EStateM.bind, hfront, andThen]

theorem execAll_append_of_stopped
    (hfront : ∀ m₁, execAll fuel front m ≠ .ok .normal m₁)
    (rest : List Stmt) :
    execAll fuel (front ++ rest) m = execAll fuel front m := by
  rw [execAll_append]
  change EStateM.bind _ _ m = _
  unfold EStateM.bind
  cases hend : execAll fuel front m with
  | error halt m₂ => rfl
  | ok completion m₂ =>
      cases completion with
      | normal => exact absurd hend (hfront m₂)
      | returned value => rfl

end

end Step
end LoxLang
