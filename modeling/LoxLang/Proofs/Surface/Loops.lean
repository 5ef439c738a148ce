import LoxLang.Proofs.Surface.Expansion

/-!
# `for` loops as statements of their own

A program runs as it is written in the same way as its expansion does.  The
expansion takes more steps for a `for` loop, and stands in other scopes in the
meantime; but these scopes bind no names of their own, and what is not a
declaration cannot tell them apart.  Since the steps are not the same in number,
one of the two runs may run out of fuel while the other one does not.
-/

namespace LoxLang
namespace Surface

open Lexical (Env StateOf)

/-! ## Fuel -/

/-- The run on the other side has fuel enough.  One step of a program is at most
eight steps of its expansion, `slack` of which are still to come. -/
def Ample : Side → Nat → Nat → Nat → Prop
  | .surface, fuel, slack, fuel' => 8 * fuel + slack ≤ fuel'
  | .expansion, fuel, _, fuel' => fuel' ≤ fuel

section
variable {side : Side} {fuel slack fuel' : Nat}

theorem Ample.step (h : Ample side (fuel + 1) 0 fuel') :
    (side = .expansion ∧ fuel' = 0) ∨
      ∃ rest, fuel' = rest + 1 ∧ Ample side fuel 7 rest := by
  cases side <;> cases fuel' <;> simp only [Ample] at * <;> grind

theorem Ample.peel (h : Ample side fuel (slack + 1) fuel') :
    (side = .expansion ∧ fuel' = 0) ∨
      ∃ rest, fuel' = rest + 1 ∧ Ample side fuel slack rest := by
  cases side <;> cases fuel' <;> simp only [Ample] at * <;> grind

/-- A step that the expansion takes alone. -/
theorem Ample.agrees
    {α β : Type} {values : α → β → Prop} {x : Step α}
    {y : Nat → Lexical.Step β} (h : Ample side fuel (slack + 1) fuel')
    (hzero : y 0 = throw .outOfFuel)
    (hsucc : ∀ rest, Ample side fuel slack rest →
      Agrees side values x (y (rest + 1))) :
    Agrees side values x (y fuel') := by
  rcases h.peel with ⟨hside, rfl⟩ | ⟨rest, rfl, hrest⟩
  · rw [hzero]
    exact fun _ => .expansionOut hside
  · exact hsucc rest hrest

theorem Ample.mono
    {less : Nat} (h : Ample side fuel slack fuel') (hle : less ≤ slack) :
    Ample side fuel less fuel' := by
  cases side with
  | surface => exact Nat.le_trans (Nat.add_le_add_left hle _) h
  | expansion => exact h

end

/-! ## Tasks -/

/-- A statement leaves the environment as it is. -/
inductive Ends (env : Env) : Completion → Lexical.Completion → Prop where
  | normal : Ends env .normal (.normal env)
  | returned : Ends env (.returned value) (.returned value)

/-- Each kind of task goes the same way in a program and in its expansion.  A
declaration needs the same environment on both sides; for all else it is enough
that the same names have the same locations. -/
structure Simulates (side : Side) (fuel fuel' : Nat) : Prop where
  eval : ∀ {env env'} expr, env'.locations = env.locations →
    Agrees side Eq (Step.eval fuel env expr)
      (Lexical.Step.eval fuel' env' expr)
  evalAll : ∀ {env env'} exprs, env'.locations = env.locations →
    Agrees side Eq (Step.evalAll fuel env exprs)
      (Lexical.Step.evalAll fuel' env' exprs)
  call : ∀ callee values line,
    Agrees side Eq (Step.call fuel callee values line)
      (Lexical.Step.call fuel' callee values line)
  invoke : ∀ function values,
    Agrees side Eq (Step.invoke fuel function values)
      (Lexical.Step.invoke fuel' function.expand values)
  exec : ∀ {env env'} stmt, env'.locations = env.locations →
    Agrees side (Ends env') (Step.exec fuel env stmt)
      (Lexical.Step.exec fuel' env' stmt.expand)
  execAll : ∀ env decls,
    Agrees side Lexical.Completion.Alike (Step.execAll fuel env decls)
      (Lexical.Step.execAll fuel' env (Decl.expandAll decls))
  repeatWhile : ∀ {env env'} condition body,
    env'.locations = env.locations →
    Agrees side (Ends env') (Step.repeatWhile fuel env condition body)
      (Lexical.Step.repeatWhile fuel' env' condition body.expand)
  repeatFor : ∀ {env env'} condition increment body,
    env'.locations = env.locations →
    Agrees side (Ends env')
      (Step.repeatFor fuel env condition increment body)
      (Lexical.Step.repeatWhile fuel' env' (Grammar.forCondition condition)
        (Grammar.forRound body.expand increment))

section
variable {side : Side} {fuel fuel' : Nat} {env : Env}

/-! ## Statements of the expansion -/

/-- What follows a declaration is in the new environment. -/
def Declares (env : Env) (completion : Lexical.Completion) : Prop :=
  completion = .normal env

theorem agrees_declared
    {x : Step Env} {next : Env → Step Completion} {stmt : LoxLang.Stmt}
    {stmts : List LoxLang.Stmt}
    (hstmt : Agrees side Declares x (Lexical.Step.exec fuel' env stmt))
    (hnext : ∀ env, Agrees side Lexical.Completion.Alike (next env)
      (Lexical.Step.execAll fuel' env stmts)) :
    Agrees side Lexical.Completion.Alike (x >>= next)
      (Lexical.Step.execAll (fuel' + 1) env (stmt :: stmts)) := by
  apply hstmt.bind
  rintro env _ rfl
  exact hnext env

theorem agrees_last
    {x : Step Completion} {stmt : LoxLang.Stmt} (h : Ample side fuel 2 fuel')
    (hstmt : ∀ {rest}, Ample side fuel 1 rest →
      Agrees side (Ends env) x (Lexical.Step.exec rest env stmt)) :
    Agrees side Lexical.Completion.Alike x
      (Lexical.Step.execAll fuel' env [stmt]) := by
  apply h.agrees rfl
  intro rest hrest
  -- The end of the list is a step of its own.
  rcases hrest.peel with ⟨hside, rfl⟩ | ⟨last, rfl, -⟩
  · exact fun _ => .expansionOut hside
  · rw [← bind_pure x]
    apply (hstmt hrest).bind
    intro completion completion' hends
    cases hends with
    | normal => exact agrees_pure .normal
    | returned => exact agrees_pure .returned

theorem agrees_block
    {x : Step Completion} {stmts : List LoxLang.Stmt}
    (h : Agrees side Lexical.Completion.Alike x
      (Lexical.Step.execAll fuel' env.inner stmts)) :
    Agrees side (Ends env) x
      (Lexical.Step.exec (fuel' + 1) env (.block stmts)) := by
  apply h.mapRight
  intro completion completion' halike
  cases halike with
  | normal => exact .normal
  | returned => exact .returned

/-- One round of a loop behind its condition. -/
def Step.round (fuel : Nat) (env : Env) (increment : Option Expr)
    (body : Stmt) : Step Completion := do
  match ← exec fuel env body with
  | .normal =>
      advance (eval fuel env) increment
      return .normal
  | .returned value => return .returned value

/-- Goes on after a round that has not returned. -/
def Step.unlessReturned (next : Step Completion) :
    Completion → Step Completion
  | .normal => next
  | .returned value => return .returned value

theorem Step.repeatFor_eq
    (fuel : Nat) (env : Env) (condition increment : Option Expr)
    (body : Stmt) :
    repeatFor (fuel + 1) env condition increment body =
      goesOn (eval fuel env) condition >>= fun another =>
        if another then
          round fuel env increment body >>=
            unlessReturned (repeatFor fuel env condition increment body)
        else pure .normal := by
  rw [repeatFor]
  congr 1
  funext another
  cases another with
  | false => rfl
  | true =>
      simp only [if_true, round, bind_assoc]
      congr 1
      funext completion
      cases completion with
      | normal => simp only [bind_assoc, pure_bind, unlessReturned]
      | returned value => rfl

end

/-! ## One more step -/

section
variable {side : Side} {fuel fuel' : Nat} {env env' : Env}
variable (hsim : ∀ {fuel'}, Ample side fuel 0 fuel' → Simulates side fuel fuel')
include hsim

theorem eval_succ
    (h : Ample side fuel 7 fuel') (expr : Expr)
    (henv : env'.locations = env.locations) :
    Agrees side Eq (Step.eval (fuel + 1) env expr)
      (Lexical.Step.eval (fuel' + 1) env' expr) := by
  have hsim := hsim (h.mono (Nat.zero_le _))
  cases expr with
  | literal value => exact agrees_pure rfl
  | group inner => exact hsim.eval inner henv
  | unary op operand line =>
      exact (hsim.eval operand henv).bindSame fun value =>
        agrees_orMismatch line _
  | binary left op right line =>
      apply (hsim.eval left henv).bindSame
      intro a
      exact (hsim.eval right henv).bindSame fun b => agrees_orMismatch line _
  | logical left op right =>
      apply (hsim.eval left henv).bindSame
      intro value
      cases Value.decides op value with
      | true => exact agrees_pure rfl
      | false => exact hsim.eval right henv
  | read id name => exact agrees_readName henv name
  | assign id name value =>
      apply (hsim.eval value henv).bindSame
      intro result
      exact (agrees_writeName henv name result).bindSame
        fun _ => agrees_pure rfl
  | call callee line arguments =>
      apply (hsim.eval callee henv).bindSame
      intro function
      apply (hsim.evalAll arguments henv).bindSame
      intro values
      have harity : Agrees side Eq (Lexical.Step.ask fun s => s.arity? function)
          (Lexical.Step.ask fun s => s.arity? function) :=
        agrees_ask fun s => (s.arity?_expand function).symm
      apply harity.bindSame
      intro arity
      cases arity with
      | none => exact agrees_fail _ line
      | some arity =>
          by_cases hlength : values.length = arity
          · simp only [if_pos hlength]
            exact hsim.call function values line
          · simp only [if_neg hlength]
            exact agrees_fail _ line
  | get object name =>
      apply (hsim.eval object henv).bindSame
      intro value
      cases value with
      | object id => exact agrees_getProperty id name
      | _ => exact agrees_fail _ name.line
  | set object name value =>
      apply (hsim.eval object henv).bindSame
      intro target
      cases target with
      | object id =>
          apply (hsim.eval value henv).bindSame
          intro result
          exact (agrees_setProperty id name.name result).bindSame
            fun _ => agrees_pure rfl
      | _ => exact agrees_fail _ name.line
  | this id line => exact agrees_readName henv ⟨"this", line⟩
  | super id line method => exact agrees_superMethod henv line method

theorem evalAll_succ
    (h : Ample side fuel 7 fuel') (exprs : List Expr)
    (henv : env'.locations = env.locations) :
    Agrees side Eq (Step.evalAll (fuel + 1) env exprs)
      (Lexical.Step.evalAll (fuel' + 1) env' exprs) := by
  have hsim := hsim (h.mono (Nat.zero_le _))
  cases exprs with
  | nil => exact agrees_pure rfl
  | cons expr exprs =>
      apply (hsim.eval expr henv).bindSame
      intro value
      exact (hsim.evalAll exprs henv).bindSame fun _ => agrees_pure rfl

theorem call_succ
    (h : Ample side fuel 7 fuel') (callee : Value) (values : List Value)
    (line : Nat) :
    Agrees side Eq (Step.call (fuel + 1) callee values line)
      (Lexical.Step.call (fuel' + 1) callee values line) := by
  have hsim := hsim (h.mono (Nat.zero_le _))
  cases callee with
  | native native => exact agrees_callNative native values line
  | function id =>
      apply Agrees.bindFound
      · exact fun s => s.functions_expand id
      · exact agrees_fail _ line
      · exact fun function => hsim.invoke function values
  | classRef id =>
      apply (agrees_addObject ⟨id, .empty⟩).bindSame
      intro object
      apply Agrees.bindFound
      · exact fun s => s.method?_expand id initializerName
      · exact agrees_pure rfl
      · intro method
        apply (agrees_bindMethod method object).bind
        rintro bound _ rfl
        exact (hsim.invoke bound values).bindSame fun _ => agrees_pure rfl
  | nil | bool | number | string | object => exact agrees_fail _ line

theorem invoke_succ
    (h : Ample side fuel 7 fuel') (function : Function)
    (values : List Value) :
    Agrees side Eq (Step.invoke (fuel + 1) function values)
      (Lexical.Step.invoke (fuel' + 1) function.expand values) := by
  have hsim := hsim (h.mono (Nat.zero_le _))
  obtain ⟨⟨name, params, body⟩, env, initializer⟩ := function
  apply (agrees_bindParams env (params.zip values)).bindSame
  intro inner
  apply (hsim.execAll inner body).bind
  intro completion completion' halike
  cases initializer with
  | true => exact agrees_readName rfl ⟨"this", 0⟩
  | false =>
      cases halike with
      | normal => exact agrees_pure rfl
      | returned => exact agrees_pure rfl

/-! ### Declarations -/

/-- An expression as a statement of the expansion. -/
theorem agrees_expression
    (h : Ample side fuel 1 fuel') (expr : Expr)
    (henv : env'.locations = env.locations) {α : Type} {a : α}
    {values : α → Lexical.Completion → Prop} (ha : values a (.normal env')) :
    Agrees side values (Step.eval fuel env expr >>= fun _ => pure a)
      (Lexical.Step.exec fuel' env' (.expression expr)) := by
  apply h.agrees rfl
  intro rest hrest
  exact ((hsim hrest).eval expr henv).bindSame fun _ => agrees_pure ha

theorem agrees_variable
    (h : Ample side fuel 1 fuel') (env : Env) (name : Ident)
    (value : Option Expr) :
    Agrees side Declares
      (Step.declareVariable (Step.eval fuel env) env name value)
      (Lexical.Step.exec fuel' env (.var name value)) := by
  apply h.agrees rfl
  intro rest hrest
  have hdeclare (result : Value) :
      Agrees side Declares (Lexical.Step.declare env name.name result)
        (Lexical.Step.declare env name.name result >>= fun env =>
          pure (.normal env)) := by
    apply (agrees_declare env name.name result).mapRight
    rintro env _ rfl
    rfl
  cases value with
  | none => exact hdeclare .nil
  | some expr => exact ((hsim hrest).eval expr rfl).bindSame hdeclare

omit hsim in
theorem agrees_function
    (h : Ample side fuel 1 fuel') (env : Env) (declaration : FunctionDecl) :
    Agrees side Declares (Lexical.Step.declareFunction env declaration)
      (Lexical.Step.exec fuel' env (.function declaration.expand)) := by
  apply h.agrees rfl
  intro rest _
  apply (agrees_declareFunction env declaration).mapRight
  rintro env _ rfl
  rfl

theorem agrees_class
    (h : Ample side fuel 1 fuel') (env : Env) (name : Ident)
    (superclass : Option Expr) (methods : List FunctionDecl) :
    Agrees side Declares
      (Step.declareClass (Step.eval fuel) env name superclass methods)
      (Lexical.Step.exec fuel' env
        (.classDecl name superclass (FunctionDecl.expandAll methods))) := by
  apply h.agrees rfl
  intro rest hrest
  apply (agrees_declare env name.name .nil).bindSame
  intro env
  have hmake (superclass : Option ClassId) :
      Agrees side Declares
        (Lexical.Step.declareClass env name superclass methods >>= fun _ =>
          pure env)
        (Lexical.Step.declareClass env name superclass
            (FunctionDecl.expandAll methods) >>= fun _ =>
          pure (.normal env)) :=
    (agrees_makeClass env name superclass methods).bindSame
      fun _ => agrees_pure rfl
  cases superclass with
  | none => exact hmake none
  | some expr =>
      rw [Step.superclassOf, bind_assoc]
      apply ((hsim hrest).eval expr rfl).bindSame
      intro value
      cases value with
      | classRef id => exact hmake (some id)
      | _ => exact agrees_fail _ name.line

/-- The environment in which the rounds of a loop are carried out. -/
theorem agrees_initializer
    (h : Ample side fuel 1 fuel') (env : Env) (initializer : Initializer) :
    Agrees side Declares
      (Step.enterLoop (Step.eval fuel env) env (some initializer))
      (Lexical.Step.exec fuel' env initializer.expand) := by
  cases initializer with
  | var name value => exact agrees_variable hsim h env name value
  | expression expr => exact agrees_expression hsim h expr rfl rfl

/-! ### Rounds -/

/-- The condition of a loop; where there is none, the expansion has one that
holds. -/
theorem agrees_condition
    (h : Ample side fuel 1 fuel') (condition : Option Expr)
    (henv : env'.locations = env.locations) :
    Agrees side (fun another value => another = value.isTruthy)
      (Step.goesOn (Step.eval fuel env) condition)
      (Lexical.Step.eval fuel' env' (Grammar.forCondition condition)) := by
  cases condition with
  | none =>
      apply h.agrees rfl
      intro rest _
      exact agrees_pure rfl
  | some condition =>
      rw [Step.goesOn, ← bind_pure (Lexical.Step.eval _ _ _)]
      exact ((hsim (h.mono (Nat.zero_le _))).eval condition henv).bindSame
        fun _ => agrees_pure rfl

/-- With an increment, a round of the expansion is a block. -/
theorem agrees_round
    (h : Ample side fuel 4 fuel') (increment : Option Expr) (body : Stmt)
    (henv : env'.locations = env.locations) :
    Agrees side (Ends env') (Step.round fuel env increment body)
      (Lexical.Step.exec fuel' env'
        (Grammar.forRound body.expand increment)) := by
  cases increment with
  | none =>
      have hbody := (hsim (h.mono (Nat.zero_le _))).exec body henv
      rw [Grammar.forRound, ← bind_pure (Lexical.Step.exec _ _ _)]
      apply hbody.bind
      intro completion completion' hends
      cases hends with
      | normal => exact agrees_pure .normal
      | returned => exact agrees_pure .returned
  | some increment =>
      have hinner : env'.inner.locations = env.locations := henv
      apply h.agrees rfl
      intro rest hrest
      apply agrees_block
      apply hrest.agrees rfl
      intro last hlast
      apply ((hsim (hlast.mono (Nat.zero_le _))).exec body hinner).bind
      intro completion completion' hends
      cases hends with
      | normal =>
          apply agrees_last hlast
          intro rest hrest
          have hnormal : Ends env'.inner .normal (.normal env'.inner) := .normal
          have hexpression :=
            agrees_expression hsim hrest increment hinner hnormal
          simpa only [Step.advance, bind_assoc, pure_bind] using hexpression
      | returned => exact agrees_pure .returned

theorem repeatFor_succ
    (h : Ample side fuel 7 fuel') (condition increment : Option Expr)
    (body : Stmt) (henv : env'.locations = env.locations) :
    Agrees side (Ends env')
      (Step.repeatFor (fuel + 1) env condition increment body)
      (Lexical.Step.repeatWhile (fuel' + 1) env'
        (Grammar.forCondition condition)
        (Grammar.forRound body.expand increment)) := by
  rw [Step.repeatFor_eq]
  apply (agrees_condition hsim (h.mono (by decide)) condition henv).bind
  rintro _ value rfl
  cases value.isTruthy with
  | false => exact agrees_pure .normal
  | true =>
      apply (agrees_round hsim (h.mono (by decide)) increment body henv).bind
      intro completion completion' hends
      cases hends with
      | normal =>
          exact (hsim (h.mono (Nat.zero_le _))).repeatFor condition increment
            body henv
      | returned => exact agrees_pure .returned

theorem repeatWhile_succ
    (h : Ample side fuel 7 fuel') (condition : Expr) (body : Stmt)
    (henv : env'.locations = env.locations) :
    Agrees side (Ends env')
      (Step.repeatWhile (fuel + 1) env condition body)
      (Lexical.Step.repeatWhile (fuel' + 1) env' condition body.expand) := by
  have hsim := hsim (h.mono (Nat.zero_le _))
  apply (hsim.eval condition henv).bindSame
  intro value
  cases value.isTruthy with
  | false => exact agrees_pure .normal
  | true =>
      apply (hsim.exec body henv).bind
      intro completion completion' hends
      cases hends with
      | normal => exact hsim.repeatWhile condition body henv
      | returned => exact agrees_pure .returned

/-! ### Statements -/

/-- The rounds of a loop, behind its initializer if it has one. -/
theorem agrees_forLoop
    (h : Ample side fuel 7 fuel') (initializer : Option Initializer)
    (condition increment : Option Expr) (body : Stmt)
    (henv : env'.locations = env.locations) :
    Agrees side (Ends env')
      (Step.exec (fuel + 1) env
        (.forLoop initializer condition increment body))
      (Lexical.Step.exec (fuel' + 1) env'
        (Stmt.forLoop initializer condition increment body).expand) := by
  rw [Stmt.expand, Grammar.ForClauses.loop_eq]
  cases initializer with
  | none =>
      exact (hsim (h.mono (Nat.zero_le _))).repeatFor condition increment body
        henv
  | some initializer =>
      have hinner : env'.inner = env.inner := by
        simp only [Env.inner, henv]
      apply agrees_block
      rw [hinner]
      apply h.agrees rfl
      intro rest hrest
      apply agrees_declared
        (agrees_initializer hsim (hrest.mono (by decide)) env.inner initializer)
      intro env
      apply agrees_last (hrest.mono (by decide : 2 ≤ 6))
      intro last hlast
      apply hlast.agrees rfl
      intro rounds hrounds
      exact (hsim hrounds).repeatFor condition increment body rfl

theorem exec_succ
    (h : Ample side fuel 7 fuel') (stmt : Stmt)
    (henv : env'.locations = env.locations) :
    Agrees side (Ends env') (Step.exec (fuel + 1) env stmt)
      (Lexical.Step.exec (fuel' + 1) env' stmt.expand) := by
  have hnow := hsim (h.mono (Nat.zero_le _))
  have hbranch (branch : Stmt) :
      Agrees side (Ends env') (Step.exec fuel env branch)
        (Lexical.Step.exec fuel' env' branch.expand >>= fun completion =>
          pure (completion.leave env')) := by
    apply (hnow.exec branch henv).mapRight
    intro completion completion' hends
    cases hends with
    | normal => exact .normal
    | returned => exact .returned
  cases stmt with
  | expression expr =>
      exact (hnow.eval expr henv).bindSame fun _ => agrees_pure .normal
  | print expr =>
      apply (hnow.eval expr henv).bindSame
      intro value
      exact (agrees_print value).bindSame fun _ => agrees_pure .normal
  | ret line value =>
      cases value with
      | none => exact agrees_pure .returned
      | some expr =>
          exact (hnow.eval expr henv).bindSame fun _ => agrees_pure .returned
  | block body =>
      have hinner : env'.inner = env.inner := by
        simp only [Env.inner, henv]
      apply agrees_block
      rw [hinner]
      exact hnow.execAll env.inner body
  | branch condition yes no =>
      cases no with
      | none =>
          apply (hnow.eval condition henv).bindSame
          intro value
          cases value.isTruthy with
          | true => exact hbranch yes
          | false => exact agrees_pure .normal
      | some no =>
          apply (hnow.eval condition henv).bindSame
          intro value
          cases value.isTruthy with
          | true => exact hbranch yes
          | false => exact hbranch no
  | loop condition body => exact hnow.repeatWhile condition body henv
  | forLoop initializer condition increment body =>
      exact agrees_forLoop hsim h initializer condition increment body henv

private theorem execAll_succ
    (h : Ample side fuel 7 fuel') (env : Env) (decls : List Decl) :
    Agrees side Lexical.Completion.Alike
      (Step.execAll (fuel + 1) env decls)
      (Lexical.Step.execAll (fuel' + 1) env (Decl.expandAll decls)) := by
  have hnow := hsim (h.mono (Nat.zero_le _))
  have hone := h.mono (by decide : 1 ≤ 7)
  cases decls with
  | nil => exact agrees_pure .normal
  | cons decl decls =>
      have hnext (env : Env) := hnow.execAll env decls
      cases decl with
      | var name value =>
          exact agrees_declared (agrees_variable hsim hone env name value) hnext
      | function declaration =>
          exact agrees_declared (agrees_function hone env declaration) hnext
      | classDecl name superclass methods =>
          exact agrees_declared
            (agrees_class hsim hone env name superclass methods) hnext
      | statement stmt =>
          apply (hnow.exec stmt rfl).bind
          intro completion completion' hends
          cases hends with
          | normal => exact hnext env
          | returned => exact agrees_pure .returned

end

private theorem simulates_surface_zero (fuel' : Nat) :
    Simulates .surface 0 fuel' := by
  constructor <;> intros <;> exact fun _ => .surfaceOut rfl

private theorem simulates_expansion_zero (fuel : Nat) :
    Simulates .expansion fuel 0 := by
  constructor <;> intros <;> exact fun _ => .expansionOut rfl

/-- A program and its expansion go the same way, as long as they have fuel. -/
theorem simulates
    {side : Side} (fuel : Nat) {fuel' : Nat} (h : Ample side fuel 0 fuel') :
    Simulates side fuel fuel' := by
  induction fuel generalizing fuel' with
  | zero =>
      cases side with
      | surface => exact simulates_surface_zero fuel'
      | expansion =>
          rw [Nat.le_zero.mp h]
          exact simulates_expansion_zero 0
  | succ fuel ih =>
      rcases h.step with ⟨rfl, rfl⟩ | ⟨rest, rfl, hrest⟩
      · exact simulates_expansion_zero (fuel + 1)
      · exact {
          eval := eval_succ ih hrest
          evalAll := evalAll_succ ih hrest
          call := call_succ ih hrest
          invoke := invoke_succ ih hrest
          exec := exec_succ ih hrest
          execAll := execAll_succ ih hrest
          repeatWhile := repeatWhile_succ ih hrest
          repeatFor := repeatFor_succ ih hrest }

/-! ## Whole programs -/

private theorem flushed_expand (s : State) (outcome : Outcome) :
    (s.flushed outcome).1 = (s.expand.flushed outcome).1 ∧
      (s.flushed outcome).2.sink = (s.expand.flushed outcome).2.sink := by
  have hsink : s.expand.sink = s.sink := rfl
  unfold Lexical.StateOf.flushed
  rw [hsink]
  cases s.sink.flush <;> exact ⟨rfl, rfl⟩

theorem start_expand (sink : Sink) (clock : Nat → Float) :
    (State.start sink clock).expand = Lexical.State.start sink clock := by
  simp [State.expand, Lexical.StateOf.start]

/-- The runs of a program and of its expansion report the same, unless the one
on the given side has run out of fuel. -/
theorem Agrees.run
    {side : Side} {fuel fuel' : Nat} {program : Program}
    (h : Agrees side Lexical.Completion.Alike
      (Step.execAll fuel .top program)
      (Lexical.Step.execAll fuel' .top (Decl.expandAll program)))
    (s : State) :
    (side = .surface ∧ (s.run fuel program).1 = .outOfFuel) ∨
      (side = .expansion ∧
        (s.expand.run fuel' (Decl.expandAll program)).1 = .outOfFuel) ∨
      ((s.run fuel program).1 =
          (s.expand.run fuel' (Decl.expandAll program)).1 ∧
        (s.run fuel program).2.sink =
          (s.expand.run fuel' (Decl.expandAll program)).2.sink) := by
  have htracks := h s
  unfold State.run Lexical.State.run
  generalize Step.execAll fuel .top program s = result,
    Lexical.Step.execAll fuel' .top (Decl.expandAll program) s.expand =
      result' at htracks
  cases htracks with
  | ok => exact .inr (.inr (flushed_expand _ _))
  | error =>
      rename_i halt s₁
      right
      right
      cases halt with
      | fault e => exact flushed_expand s₁ _
      | output | defect | outOfFuel => exact ⟨rfl, rfl⟩
  | surfaceOut hside => exact .inl ⟨hside, rfl⟩
  | expansionOut hside => exact .inr (.inl ⟨hside, rfl⟩)

/-- The program that the tokens of a text stand for. -/
def Reads (source : String) (program : Program) : Prop :=
  ∃ ts stop nextId, Token.ofSource source = .ok (ts ++ [stop]) ∧
    stop.kind = .eof ∧ Declarations ts 0 program nextId

private theorem exists_reads
    {source : String} {checked : Checked}
    (hverdict : (Analysis.ofSource source 0).verdict = .ok checked) :
    ∃ program, Reads source program := by
  obtain ⟨ts, stop, htokens, hstop, -, hderives, -⟩ :=
    Analysis.exists_tokens hverdict
  obtain ⟨program, -, h⟩ := exists_declarations hderives
  exact ⟨program, ts, stop, _, htokens, hstop, h⟩

/-- What is read from an accepted text is the expansion of what it stands
for. -/
theorem Reads.expandAll_eq
    {source : String} {checked : Checked} {program : Program}
    (h : Reads source program)
    (hverdict : (Analysis.ofSource source 0).verdict = .ok checked) :
    Decl.expandAll program = checked.program := by
  obtain ⟨ts, stop, nextId, htokens, hstop, hprogram⟩ := h
  obtain ⟨ts', stop', htokens', -, -, hderives, -⟩ :=
    Analysis.exists_tokens hverdict
  rw [htokens, Except.ok.injEq] at htokens'
  obtain ⟨rfl, -⟩ := List.append_inj' htokens' rfl
  have hread := hprogram.expand.declarations_eq hstop (ts.length + 1) stop
    (Nat.lt_succ_self _)
  rw [hderives.declarations_eq hstop (ts.length + 1) stop
    (Nat.lt_succ_self _)] at hread
  exact (congrArg Grammar.Reading.statements hread).symm

/-- By distances and frames, an accepted text runs like its tree by
locations. -/
theorem run_eq_lexical
    {source : String} {checked : Checked}
    (hverdict : (Analysis.ofSource source 0).verdict = .ok checked)
    (hself : checked.program.selfAssignments = [])
    (fuel : Nat) (sink : Sink) (clock : Nat → Float) :
    ((Session.start sink clock).run fuel source).1 =
        ((Lexical.State.start sink clock).run fuel checked.program).1 ∧
      ((Session.start sink clock).run fuel source).2.machine.sink =
        ((Lexical.State.start sink clock).run fuel checked.program).2.sink := by
  obtain ⟨hready, hbound⟩ :=
    (Session.sound_start sink clock).ready hverdict
  let chart := ((Session.start sink clock).ready checked
    (Analysis.ofSource source 0).nextId).chart [checked.program]
  have hstands : Lexical.Stands chart []
      ((Machine.start sink clock).extend checked.distances)
      (Lexical.State.start sink clock) [] .top := by
    refine ⟨hready.machine, Lexical.agree_start chart sink clock _,
      ⟨hready.top, fun hstack => nomatch hstack⟩, rfl, rfl, fun _ => rfl, ?_⟩
    exact fun hdistance => nomatch hdistance
  have hno : ∀ expr, ¬ chart.mayAssign expr := by
    rintro expr ⟨program, hmem, hexpr⟩
    rw [List.mem_singleton.mp hmem, hself] at hexpr
    cases hexpr
  rw [Session.run_of_ok fuel hverdict]
  apply Lexical.run_eq_of_follows
  · exact (Lexical.simulates hno fuel).execAll hstands hbound
  · exact LoxLang.Step.execAll_fallsThrough fuel _ hbound.not_returnsAny

/-- An accepted text, in which no local variable is assigned to inside of its
own initializer, prints the same and ends in the same way as the program that
it stands for does where `for` loops are statements of their own. -/
theorem for_loops_run_as_they_are_written
    {source : String} {checked : Checked}
    (hverdict : (Analysis.ofSource source 0).verdict = .ok checked)
    (hself : checked.program.selfAssignments = []) :
    (∃ program, Reads source program) ∧
      ∀ program, Reads source program →
        Decl.expandAll program = checked.program ∧
          ∀ sink clock outcome final, outcome ≠ .outOfFuel →
            ((∃ fuel,
                ((Session.start sink clock).run fuel source).1 = outcome ∧
                  ((Session.start sink clock).run fuel
                    source).2.machine.sink = final) ↔
              ∃ fuel,
                ((State.start sink clock).run fuel program).1 = outcome ∧
                  ((State.start sink clock).run fuel
                    program).2.sink = final) := by
  refine ⟨exists_reads hverdict, fun program hreads => ?_⟩
  have hexpand := hreads.expandAll_eq hverdict
  refine ⟨hexpand, fun sink clock outcome final houtcome => ?_⟩
  constructor
  · rintro ⟨fuel, hrun, hfinal⟩
    obtain ⟨hsame, hsink⟩ := run_eq_lexical hverdict hself fuel sink clock
    have hample : Ample .expansion fuel 0 fuel := Nat.le_refl fuel
    have hagrees := (simulates fuel hample).execAll .top program
    have hcases := hagrees.run (State.start sink clock)
    rw [hexpand, start_expand, ← hsame, ← hsink, hrun, hfinal] at hcases
    rcases hcases with ⟨hside, -⟩ | ⟨-, hout⟩ | hsurface
    · cases hside
    · exact absurd hout houtcome
    · exact ⟨fuel, hsurface⟩
  · rintro ⟨fuel, hrun, hfinal⟩
    obtain ⟨hsame, hsink⟩ :=
      run_eq_lexical hverdict hself (8 * fuel) sink clock
    have hample : Ample .surface fuel 0 (8 * fuel) := Nat.le_refl (8 * fuel)
    have hagrees := (simulates fuel hample).execAll .top program
    have hcases := hagrees.run (State.start sink clock)
    rw [hexpand, start_expand, ← hsame, ← hsink, hrun, hfinal] at hcases
    rcases hcases with ⟨-, hout⟩ | ⟨hside, -⟩ | ⟨houtcome', hfinal'⟩
    · exact absurd hout houtcome
    · cases hside
    · exact ⟨8 * fuel, houtcome'.symm, hfinal'.symm⟩

/-- All rounds share one loop variable: a function that was declared in a round
sees what the later ones make of it. -/
def sharedVariable : String :=
  "var kept; for (var s = \"\"; s != \"aa\"; s = s + \"a\") " ++
    "\x7b fun show() \x7b print s; \x7d kept = show; kept(); \x7d kept();"

private theorem sharedVariable_runs :
    (match (Analysis.ofSource sharedVariable 0).verdict with
      | .ok checked => checked.program.selfAssignments.isEmpty
      | .error _ => false) = true ∧
      (match ((Session.start .unlimited fun _ => 0).run 60
          sharedVariable).1 with
        | .finished => true
        | _ => false) = true ∧
      ((Session.start .unlimited fun _ => 0).run 60
        sharedVariable).2.machine.sink.written = "\na\naa\n".toUTF8 := by
  decide +kernel

theorem sharedVariable_runs_as_it_is_written :
    ∃ checked program,
      (Analysis.ofSource sharedVariable 0).verdict = .ok checked ∧
        checked.program.selfAssignments = [] ∧
        Reads sharedVariable program ∧
        Outcome.finished ≠ .outOfFuel ∧
        ∃ fuel,
          ((State.start .unlimited fun _ => 0).run fuel program).1 =
              .finished ∧
            ((State.start .unlimited fun _ => 0).run fuel
              program).2.sink.written = "\na\naa\n".toUTF8 := by
  obtain ⟨hself, hfinished, hwritten⟩ := sharedVariable_runs
  have hterminated : Outcome.finished ≠ .outOfFuel := fun h => nomatch h
  split at hself <;> try contradiction
  next checked hverdict =>
  split at hfinished <;> try contradiction
  next hrun =>
  have hself := List.isEmpty_iff.mp hself
  obtain ⟨⟨program, hreads⟩, hruns⟩ :=
    for_loops_run_as_they_are_written hverdict hself
  obtain ⟨fuel, houtcome, hsink⟩ :=
    ((hruns program hreads).2 .unlimited (fun _ => 0) .finished _
      hterminated).mp ⟨60, hrun, rfl⟩
  refine ⟨checked, program, hverdict, hself, hreads, hterminated, fuel,
    houtcome, ?_⟩
  rw [hsink]
  exact hwritten

end Surface
end LoxLang
