import LoxLang.Proofs.Run.Makeup
import LoxLang.Proofs.Run.Return
import LoxLang.Proofs.Run.Signal
import LoxLang.Proofs.Scope.Rules

/-!
# No `return` escapes

A `return` ends the body that it stands in, and the call of that body takes its
value.  So no expression ends in a `return`, whatever it calls, and a statement
does so only through a `return` of its own.  All of this holds of every tree
and on every machine.  A tree without errors in its scopes has no `return`
outside of all functions, and then the run of a program never meets one.
-/

namespace LoxLang

namespace Step

/-- The step does not halt because of a `return` outside of all functions. -/
def Contained (step : Step α) : Prop :=
  ∀ m, step.Ends m (fun _ _ => True) fun halt _ => halt ≠ .defect .strayReturn

/-- No part of a task halts because of a `return`. -/
theorem Composed.contained
    {α : Type} {fuel : Nat} {task : Task} {start m : Machine}
    {hand : List Value} {step : Step α} {has : α → List Value}
    (ih : ∀ task : Task, (task.run fuel).Contained)
    (h : Composed fuel task start hand step m has) :
    step.Ends m (fun _ _ => True)
      fun halt _ => halt ≠ .defect .strayReturn := by
  induction h with
  | part _ hends =>
      exact hends.mono (fun _ _ _ _ => trivial) fun _ _ h => h.2
  | print _ _ =>
      exact ends_print (fun _ => trivial) fun e _ => Halt.noConfusion
  | enter _ => exact ih _ _
  | nest _ => exact ends_nested (ih _ _)
  | bind _ _ ihstep ihnext =>
      exact ihstep.bind fun a m₁ hrun _ => ihnext a m₁ hrun

/-- No task, of whatever tree and on whatever machine, halts because of a
`return`. -/
theorem run_contained (fuel : Nat) (task : Task) :
    (task.run fuel).Contained := by
  induction fuel generalizing task with
  | zero =>
      intro m
      cases task <;> exact Halt.noConfusion
  | succ fuel ih => exact fun m => (shape fuel task m).composed.contained ih

end Step

/-! ## Trees without errors -/

namespace Scope

theorem Path.find?_isFunction_declare (names : List String) (path : Path) :
    (path.declare names).find? Enclosure.isFunction =
      path.find? Enclosure.isFunction := by
  cases path with
  | nil => rfl
  | cons enclosure outer => cases enclosure <;> rfl

private theorem violations_append_ne_nil
    {front rest : List Site}
    (h : violations front ≠ [] ∨ violations rest ≠ []) :
    violations (front ++ rest) ≠ [] := by
  rw [violations_append]
  rcases h with h | h
  · exact List.append_ne_nil_of_left_ne_nil h _
  · exact List.append_ne_nil_of_right_ne_nil _ h

mutual

/-- Outside of all functions, a `return` breaks a rule. -/
theorem violations_of_returns
    (path : Path) (hpath : path.find? Enclosure.isFunction = none) :
    (stmt : Stmt) → stmt.Returns → violations (stmt.sites path) ≠ []
  | .ret line none, _ => by
      simp [Stmt.sites, violations, Site.violation?, hpath]
  | .ret line (some value), _ => by
      simp [Stmt.sites, violations, Site.violation?, hpath]
  | .block body, h => violations_of_returnsAny (.scope [] :: path) hpath body h
  | .branch condition yes none, h =>
      violations_append_ne_nil (.inr (violations_of_returns path hpath yes h))
  | .branch condition yes (some no), h => by
      have hbehind := Path.find?_isFunction_declare yes.declares path
      rw [hpath] at hbehind
      apply violations_append_ne_nil
      right
      apply violations_append_ne_nil
      rcases h with h | h
      · exact .inl (violations_of_returns path hpath yes h)
      · exact .inr (violations_of_returns _ hbehind no h)
  | .loop condition body, h =>
      violations_append_ne_nil (.inr (violations_of_returns path hpath body h))

theorem violations_of_returnsAny
    (path : Path) (hpath : path.find? Enclosure.isFunction = none) :
    (stmts : List Stmt) → Stmt.ReturnsAny stmts →
      violations (Stmt.sitesAll stmts path) ≠ []
  | stmt :: stmts, h => by
      have hbehind := Path.find?_isFunction_declare stmt.declares path
      rw [hpath] at hbehind
      apply violations_append_ne_nil
      rcases h with h | h
      · exact .inl (violations_of_returns path hpath stmt h)
      · exact .inr (violations_of_returnsAny _ hbehind stmts h)

end

/-- Of every shape, a program that is resolved without errors has no `return`
outside of its functions. -/
theorem not_returnsAny_of_resolve
    {program : Program} {distances : Distances}
    (h : resolve program = .ok distances) : ¬ Stmt.ReturnsAny program := by
  intro hreturns
  have hfound : (resolveStmts .top program .start).errors =
      violations (Stmt.sitesAll program []) :=
    (resolveStmts_walks .start .top program).errors
  have hsome := violations_of_returnsAny [] rfl program hreturns
  rw [← hfound] at hsome
  cases herrors : (resolveStmts .top program .start).errors with
  | nil => exact hsome herrors
  | cons e errors => simp [resolve, herrors] at h

end Scope

namespace Step

private theorem contained_flush : flush.Contained := by
  intro m
  simp only [Ends, flush]
  cases m.sink.flush <;> simp

theorem contained_runProgram
    {program : Program} (hreturns : ¬ Stmt.ReturnsAny program) (fuel : Nat) :
    (runProgram fuel program).Contained := by
  intro m
  have hnormal := execAll_fallsThrough fuel program hreturns m
  have hcontained := run_contained fuel (.execAll program) m
  unfold Ends runProgram
  cases hrun : execAll fuel program m with
  | ok completion m₁ =>
      have hcompletion := hnormal.of_ok hrun
      subst hcompletion
      exact contained_flush m₁
  | error halt m₁ =>
      have hhalt := hcontained.of_error hrun
      cases halt with
      | fault e =>
          have hflush := contained_flush m₁
          dsimp only
          cases hrest : flush m₁ with
          | ok _ m₂ => exact hhalt
          | error other m₂ => exact hflush.of_error hrest
      | output e => exact hhalt
      | defect d => exact hhalt
      | outOfFuel => exact hhalt

end Step

namespace Signal

private theorem eval_ne_returned
    (fuel : Nat) (expr : Expr) (m m' : Machine) (value : Value) :
    eval fuel expr m ≠ .error (.returned value) m' := by
  rw [(agrees fuel).eval]
  unfold lift
  cases LoxLang.Step.eval fuel expr m <;> simp

private theorem returns_of_exec
    {fuel : Nat} {stmt : Stmt} {m m' : Machine} {value : Value}
    (hrun : exec fuel stmt m = .error (.returned value) m') :
    stmt.Returns := by
  apply Classical.byContradiction
  intro hnone
  have hnormal := LoxLang.Step.exec_fallsThrough fuel stmt hnone m
  rw [(agrees fuel).exec] at hrun
  have hcompletion := returned_of_send hrun
  cases hnormal.of_ok hcompletion

private theorem execAll_ne_returned
    {program : Program} (hreturns : ¬ Stmt.ReturnsAny program)
    (fuel : Nat) (m m' : Machine) (value : Value) :
    execAll fuel program m ≠ .error (.returned value) m' := by
  intro hrun
  have hnormal := LoxLang.Step.execAll_fallsThrough fuel program hreturns m
  rw [(agrees fuel).execAll] at hrun
  have hcompletion := returned_of_send hrun
  cases hnormal.of_ok hcompletion

/-- Where a `return` breaks off the steps around it like a halt, and on every
machine and with every tree: no expression ends in one, whatever it calls; a
statement ends in one only if it has one outside of the functions and classes
that it declares; and no program that is resolved without errors does so, so
that its run never comes to a `return` outside of all functions.  What a
`return` does in this way, it does as a completion, too. -/
theorem return_never_escapes :
    (∀ fuel expr m m' value,
      eval fuel expr m ≠ .error (.returned value) m') ∧
    (∀ fuel stmt m m' value,
      exec fuel stmt m = .error (.returned value) m' → stmt.Returns) ∧
    (∀ program distances, Scope.resolve program = .ok distances →
      ∀ fuel m m',
        (∀ value, execAll fuel program m ≠ .error (.returned value) m') ∧
          runProgram fuel program m ≠ .error (.defect .strayReturn) m') ∧
    ∀ fuel, Agrees fuel ∧
      ∀ program,
        runProgram fuel program = LoxLang.Step.runProgram fuel program := by
  refine ⟨eval_ne_returned, ?_, ?_, fun fuel => ⟨agrees fuel, ?_⟩⟩
  · intro fuel stmt m m' value hrun
    exact returns_of_exec hrun
  · intro program distances hresolve fuel m m'
    have hreturns := Scope.not_returnsAny_of_resolve hresolve
    refine ⟨execAll_ne_returned hreturns fuel m m', ?_⟩
    rw [runProgram_eq]
    intro hrun
    have hcontained := LoxLang.Step.contained_runProgram hreturns fuel m
    exact hcontained.of_error hrun rfl
  · exact runProgram_eq fuel

/-- A function that returns out of a loop, called in a declaration that stands
in the place of a statement. -/
def returnsFromLoop : Program :=
  [.function ⟨⟨"f", 1⟩, [],
      [.loop (.literal .yes) (.block [.ret 1 (some (.literal .no))])]⟩,
    .branch (.literal .yes)
      (.var ⟨"x", 2⟩ (some (.call (.read 0 ⟨"f", 2⟩) 2 []))) none]

theorem returnsFromLoop_stays_inside :
    Scope.resolve returnsFromLoop = .ok .empty ∧
      (match runProgram 20 returnsFromLoop
          (Machine.start .unlimited fun _ => 0) with
        | .ok _ m => m.store.local? m.globals "x"
        | .error _ _ => none) = some (.bool false) ∧
      (∀ fuel m m',
        runProgram fuel returnsFromLoop m ≠
          .error (.defect .strayReturn) m') ∧
      ∀ m,
        exec 3 (.branch (.literal .yes) (.ret 1 none) none) m =
            .error (.returned .nil) m ∧
          (Stmt.branch (.literal .yes) (.ret 1 none) none).Returns := by
  have hresolve : Scope.resolve returnsFromLoop = .ok .empty := rfl
  have hreturned (m : Machine) :
      exec 3 (.branch (.literal .yes) (.ret 1 none) none) m =
        .error (.returned .nil) m := rfl
  obtain ⟨-, hstmt, hprogram, -⟩ := return_never_escapes
  exact ⟨hresolve, by decide +kernel,
    fun fuel m m' =>
      (hprogram returnsFromLoop .empty hresolve fuel m m').2,
    fun m => ⟨hreturned m, hstmt 3 _ m m .nil (hreturned m)⟩⟩

end Signal
end LoxLang
