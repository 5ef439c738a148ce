import LoxLang.Proofs.Lexical.Steps
import LoxLang.Proofs.Session.Safety

/-!
# Distances implement lexical scoping

A machine with distances and frames goes the same way as the evaluation by
locations.  In the scopes of a stack, a name leads to the same value on both
sides, and so each step of one run is followed by a step of the other.  The
proof is by induction on the bound of the runs, with one case for each kind of
expression and statement.
-/

namespace LoxLang

open Scope (Stack Chart)

namespace Lexical

/-! ## Expressions and statements -/

/-- Both statements come to their end, in the scopes of a stack, or both
return the same value. -/
inductive Completion.Mirrors (stack : Stack) (owners : List Slot)
    (m : Machine) : LoxLang.Completion → Completion → Prop where
  | normal :
      env.Mirrors owners m.store m.globals m.current stack →
      Completion.Mirrors stack owners m .normal (.normal env)
  | returned : Completion.Mirrors stack owners m (.returned v) (.returned v)

/-- Both runs come to their end, or both return the same value. -/
inductive Completion.Alike : LoxLang.Completion → Completion → Prop where
  | normal : Completion.Alike .normal (.normal env)
  | returned : Completion.Alike (.returned v) (.returned v)

/-- Each kind of task goes the same way on both sides. -/
structure Simulates (chart : Chart) (fuel : Nat) : Prop where
  eval : ∀ {owners m s stack env pending expr},
    Stands chart owners m s stack env → Expr.Bound chart stack pending expr →
    Follows chart owners Same (LoxLang.Step.eval fuel expr m)
      (Step.eval fuel env expr s)
  evalAll : ∀ {owners m s stack env pending exprs},
    Stands chart owners m s stack env →
    Expr.BoundAll chart stack pending exprs →
    Follows chart owners Same (LoxLang.Step.evalAll fuel exprs m)
      (Step.evalAll fuel env exprs s)
  call : ∀ {owners m s callee arguments line},
    Machine.Sound chart m → Agree chart owners m s →
    m.store.arity? callee = some arguments.length →
    Follows chart owners Same
      (LoxLang.Step.call fuel callee arguments line m)
      (Step.call fuel callee arguments line s)
  invoke : ∀ {owners m s function mirror arguments},
    Machine.Sound chart m → Agree chart owners m s →
    Function.Mirrors chart owners m.store m.globals function mirror →
    function.declaration.params.length = arguments.length →
    Follows chart owners Same
      (LoxLang.Step.invoke fuel function arguments m)
      (Step.invoke fuel mirror arguments s)
  exec : ∀ {owners m s stack env inFunction stmt},
    Stands chart owners m s stack env →
    Stmt.Bound chart inFunction stack stmt →
    Follows chart owners (Completion.Mirrors (stack.declare stmt.declares))
      (LoxLang.Step.exec fuel stmt m) (Step.exec fuel env stmt s)
  execAll : ∀ {owners m s stack env inFunction stmts},
    Stands chart owners m s stack env →
    Stmt.BoundAll chart inFunction stack stmts →
    Follows chart owners (fun _ _ => Completion.Alike)
      (LoxLang.Step.execAll fuel stmts m) (Step.execAll fuel env stmts s)
  rounds : ∀ {owners m s stack env inFunction condition body},
    Stands chart owners m s stack env →
    Expr.Bound chart stack none condition →
    Stmt.Bound chart inFunction stack body → body.declares = [] →
    Follows chart owners (Completion.Mirrors stack)
      (LoxLang.Step.repeatWhile fuel condition body m)
      (Step.repeatWhile fuel env condition body s)

section
variable {chart : Chart} {owners : List Slot} {m : Machine} {s : State}
variable {stack : Stack} {env : Env} {fuel : Nat}

private theorem follows_orMismatch
    (h : Agree chart owners m s) (line : Nat)
    (result : Except Mismatch Value) :
    Follows chart owners Same (LoxLang.Step.orMismatch line result m)
      (Step.orMismatch line result s) := by
  cases result with
  | ok value => exact follows_pure h rfl
  | error mismatch => exact follows_throw h _

theorem Simulates.eval_succ
    {expr : Expr} {pending : Option String}
    (hsim : Simulates chart fuel) (hno : ∀ expr, ¬ chart.mayAssign expr)
    (h : Stands chart owners m s stack env)
    (hbound : expr.Bound chart stack pending) :
    Follows chart owners Same (LoxLang.Step.eval (fuel + 1) expr m)
      (Step.eval (fuel + 1) env expr s) := by
  cases expr with
  | literal value => exact follows_pure h.agree rfl
  | group inner => exact hsim.eval h hbound
  | unary op operand line =>
      have hoperand : operand.Bound chart stack pending := hbound
      refine (hsim.eval h hoperand).bind fun _ _ hagree hvalue => ?_
      subst hvalue
      exact follows_orMismatch hagree line _
  | binary left op right line =>
      refine (hsim.eval h hbound.1).bind fun hrun hbegins hagree hleft => ?_
      have h := h.after_eval hbound.1 hrun hbegins hagree
      refine (hsim.eval h hbound.2).bind fun _ _ hagree hright => ?_
      subst hleft hright
      exact follows_orMismatch hagree line _
  | logical left op right =>
      refine (hsim.eval h hbound.1).bind
        fun {_ value _ _ _} hrun hbegins hagree hvalue => ?_
      subst hvalue
      cases Value.decides op value with
      | true => exact follows_pure hagree rfl
      | false =>
          have h := h.after_eval hbound.1 hrun hbegins hagree
          exact hsim.eval h hbound.2
  | read id name => exact h.readName (h.sound.distances hbound.2)
  | assign id name value =>
      obtain ⟨hvalue, _, hplace⟩ := hbound
      have hdistance :
          chart.distance id (stack.distance? name.name) := by
        by_cases hpending : pending = some name.name
        · rw [if_pos hpending] at hplace
          exact absurd hplace.2 (hno _)
        · rwa [if_neg hpending] at hplace
      refine (hsim.eval h hvalue).bind
        fun {_ value _ _ _} hrun hbegins hagree hsame => ?_
      subst hsame
      have h := h.after_eval hvalue hrun hbegins hagree
      refine (h.writeName (h.sound.distances hdistance) value).bind
        fun _ _ hagree _ => ?_
      exact follows_pure hagree rfl
  | call callee line arguments =>
      refine (hsim.eval h hbound.1).bind
        fun {_ callee _ _ _} hrun hbegins hagree hcallee => ?_
      subst hcallee
      have h := h.after_eval hbound.1 hrun hbegins hagree
      refine (hsim.evalAll h hbound.2).bind
        fun {_ values _ _ _} hrun hbegins hagree hvalues => ?_
      subst hvalues
      have h := h.after_evalAll hbound.2 hrun hbegins hagree
      refine Follows.ask (hagree.arity? callee) fun arity harity => ?_
      cases arity with
      | none => exact follows_throw hagree _
      | some arity =>
          dsimp only
          split
          · rename_i hlength
            exact hsim.call h.sound hagree (hlength ▸ harity)
          · exact follows_throw hagree _
  | get object name =>
      have hobject : object.Bound chart stack pending := hbound
      refine (hsim.eval h hobject).bind
        fun {_ value _ _ _} _ _ hagree hvalue => ?_
      subst hvalue
      cases value with
      | object id => exact hagree.getProperty id name
      | _ => exact follows_throw hagree _
  | set object name value =>
      refine (hsim.eval h hbound.1).bind
        fun {_ object _ _ _} hrun hbegins hagree hobject => ?_
      subst hobject
      have h := h.after_eval hbound.1 hrun hbegins hagree
      cases object with
      | object id =>
          refine (hsim.eval h hbound.2).bind
            fun {_ value _ _ _} _ _ hagree hvalue => ?_
          subst hvalue
          exact Follows.bind_ok rfl rfl
            (follows_pure (hagree.setField id name.name value) rfl)
      | _ => exact follows_throw hagree _
  | this id line =>
      obtain ⟨distance, hthis, hplace⟩ := hbound
      exact h.readName ((h.sound.distances hplace).trans hthis.symm)
  | super id line method =>
      obtain ⟨distance, hthis, hsuper, hplace⟩ := hbound
      exact h.superMethod hthis hsuper (h.sound.distances hplace) line method

theorem Simulates.evalAll_succ
    {exprs : List Expr} {pending : Option String}
    (hsim : Simulates chart fuel) (h : Stands chart owners m s stack env)
    (hbound : Expr.BoundAll chart stack pending exprs) :
    Follows chart owners Same (LoxLang.Step.evalAll (fuel + 1) exprs m)
      (Step.evalAll (fuel + 1) env exprs s) := by
  cases exprs with
  | nil => exact follows_pure h.agree rfl
  | cons expr exprs =>
      refine (hsim.eval h hbound.1).bind fun hrun hbegins hagree hvalue => ?_
      have h := h.after_eval hbound.1 hrun hbegins hagree
      refine (hsim.evalAll h hbound.2).bind fun _ _ hagree hvalues => ?_
      subst hvalue hvalues
      exact follows_pure hagree rfl

theorem Simulates.call_succ
    {callee : Value} {arguments : List Value} {line : Nat}
    (hsim : Simulates chart fuel) (hm : m.Sound chart)
    (h : Agree chart owners m s)
    (harity : m.store.arity? callee = some arguments.length) :
    Follows chart owners Same
      (LoxLang.Step.call (fuel + 1) callee arguments line m)
      (Step.call (fuel + 1) callee arguments line s) := by
  cases callee with
  | native native => exact h.callNative native arguments line
  | function id =>
      refine Follows.look (h.functions id) (follows_throw h _)
        fun function mirror hfunction hmirrors => ?_
      refine hsim.invoke hm h hmirrors ?_
      simpa [Store.arity?, Store.functionArity, hfunction] using harity
  | classRef id =>
      refine Follows.bind_ok rfl rfl ?_
      have hagree := h.addObject ⟨id, .empty⟩
      have hobject : (m.withObject id).Sound chart :=
        hm.withStore (hm.store.addObject _)
      have hsame : s.objects.size = m.store.objects.size := by
        rw [h.objects]
      rw [hsame]
      refine Follows.look (hagree.method? id initializerName)
        (follows_pure hagree rfl) fun method mirror hmethod hmirrors => ?_
      have hlength : method.declaration.params.length = arguments.length := by
        have hfound : m.store.method? id initializerName = some method :=
          (@Store.method?_congr m.store (m.withObject id).store rfl id
            initializerName).trans hmethod
        simpa [Store.arity?, Store.classArity, hfound] using harity
      refine (hagree.bindMethod hmirrors m.store.objects.size).bind
        fun {_ bound _ _ _} hbind hbegins hagree hbound => ?_
      obtain ⟨bound', m₁, hrun, hsound, -, hdeclaration, -⟩ :=
        (hobject.store.method? hmethod).bind hobject
      cases hrun.symm.trans hbind
      refine (hsim.invoke hsound hagree hbound
        (hdeclaration ▸ hlength)).bind fun _ _ hagree _ => ?_
      exact follows_pure hagree rfl
  | _ => exact follows_throw h _

theorem Function.Mirrors.sound
    {function : LoxLang.Function} {mirror : Function}
    (h : Agree chart owners m s)
    (hmirrors : Function.Mirrors chart owners m.store m.globals function
      mirror) :
    function.Sound chart m.globals m.store where
  bound := by
    obtain ⟨stack, hbound, henv⟩ := hmirrors.scopes
    exact ⟨stack, hbound, henv.fits⟩
  this hinitializer := by
    obtain ⟨location, -, howner⟩ := hmirrors.this hinitializer
    obtain ⟨value, hvalue, -⟩ := h.cell howner
    simp [hvalue]

/-- The frame of a call, with the parameters in it. -/
theorem Agree.enterBody
    {function : LoxLang.Function} {mirror : Function}
    {arguments : List Value} (hm : m.Sound chart)
    (h : Agree chart owners m s)
    (hmirrors : Function.Mirrors chart owners m.store m.globals function
      mirror)
    (hlength : function.declaration.params.length = arguments.length) :
    ∃ owners₁ env₁ s₁ stack,
      Step.bindParams mirror.env
          (function.declaration.params.zip arguments) s = .ok env₁ s₁ ∧
        owners <+: owners₁ ∧
        Stands chart owners₁
          (m.within (some function.closure)
            (LoxLang.Step.bindParams function.declaration.params arguments))
          s₁ stack env₁ ∧
        Stmt.BoundAll chart true stack function.declaration.body := by
  have hbody : Enters 0 (.invoke function arguments) m
      (.execAll function.declaration.body)
      (m.within (some function.closure)
        (LoxLang.Step.bindParams function.declaration.params arguments)) :=
    .body
  have hsound := hbody.sound_invoke hm ⟨hmirrors.sound h, hlength⟩
  obtain ⟨stack, hbound, henv⟩ := hmirrors.scopes
  obtain ⟨⟨name, params, body⟩, closure, initializer⟩ := function
  obtain ⟨hnodup, hordinary, hbody⟩ := hbound
  obtain ⟨hagree, hinner⟩ :=
    h.enter henv (LoxLang.Step.bindParams params arguments)
  have hvalues : ∀ pair ∈ params.zip arguments,
      (m.store.addFrame ⟨some closure,
        LoxLang.Step.bindParams params arguments⟩).2.local?
          m.store.frames.size pair.1.name = some pair.2 := by
    intro pair hpair
    rw [Store.local?_addFrame, if_pos rfl]
    exact LoxLang.Step.find?_bindParams hlength hnodup hpair
  obtain ⟨owners₁, env₁, s₁, scope, hrun, hbegins, hagree₁, henv₁, hscope⟩ :=
    hagree.bindParams (params.zip arguments) hinner
      (Nat.ne_of_gt h.globals_lt) hvalues
      ((map_name_zip hlength).symm ▸ hnodup)
      fun pair _ => h.not_mem_owners pair.1.name
  rw [bindParams_inner] at hrun
  have hsituated := Machine.Situated.within henv.fits
    (LoxLang.Step.has_bindParams hlength)
  refine ⟨owners₁, env₁, s₁, params.map Ident.name :: stack, hrun, hbegins,
    ⟨hsound.1, hagree₁.withCurrent _, hsituated, ?_⟩, hbody⟩
  refine henv₁.congr hsituated.fits rfl fun name => ?_
  have hname : name ∈ scope ↔ name ∈ params.map Ident.name := by
    rw [hscope name, map_name_zip hlength]
    simp
  rw [Stack.distance?_cons, Stack.distance?_cons]
  simp only [hname]

/-- An initializer gives back its instance. -/
theorem Agree.readThis
    {location : Location} {frame : FrameId} (h : Agree chart owners m s)
    (hlocation : env.find? "this" = some location)
    (howner : owners[location]? = some (frame, "this")) (line : Nat) :
    Follows chart owners Same
      ((LoxLang.Step.ask (fun machine =>
        machine.store.readAt frame 0 "this") >>= LoxLang.Step.orDefect) m)
      (Step.readName env ⟨"this", line⟩ s) := by
  obtain ⟨value, hvalue, hcell⟩ := h.cell howner
  have hread : m.store.readAt frame 0 "this" = .ok value := by
    simp [Store.readAt, Store.slot, Store.ancestor, hvalue]
  have hleft :
      (LoxLang.Step.ask (fun machine =>
        machine.store.readAt frame 0 "this") >>= LoxLang.Step.orDefect) m =
        .ok value m :=
    LoxLang.Step.askDefect_eq hread
  have hright : Step.readName env ⟨"this", line⟩ s = .ok value s := by
    simp [Step.readName, hlocation, Array.getD_eq_getD_getElem?, hcell]
  rw [hleft, hright]
  exact .ok (List.prefix_refl owners) h rfl

theorem Simulates.invoke_succ
    {function : LoxLang.Function} {mirror : Function}
    {arguments : List Value} (hsim : Simulates chart fuel)
    (hm : m.Sound chart) (h : Agree chart owners m s)
    (hmirrors : Function.Mirrors chart owners m.store m.globals function
      mirror)
    (hlength : function.declaration.params.length = arguments.length) :
    Follows chart owners Same
      (LoxLang.Step.invoke (fuel + 1) function arguments m)
      (Step.invoke (fuel + 1) mirror arguments s) := by
  obtain ⟨owners₁, env₁, s₁, stack, hrun, hbegins, hstands, hbody⟩ :=
    h.enterBody hm hmirrors hlength
  rw [LoxLang.Step.invoke_succ, Step.invoke, hmirrors.declaration,
    hmirrors.initializer, bind_eq hrun]
  have hnested : Follows chart owners₁ (fun _ _ => Completion.Alike)
      (LoxLang.Step.nested (some function.closure)
        (LoxLang.Step.bindParams function.declaration.params arguments)
        (LoxLang.Step.execAll fuel function.declaration.body) m)
      (Step.execAll fuel env₁ function.declaration.body s₁) :=
    (hsim.execAll hstands hbody).nested fun hends => hends
  refine Follows.weaken ?_ hbegins
  refine hnested.bind fun _ hbegins₂ hagree hends => ?_
  split
  · rename_i hinitializer
    obtain ⟨location, hlocation, howner⟩ := hmirrors.this hinitializer
    exact hagree.readThis hlocation
      (owner_of_begins (hbegins.trans hbegins₂) howner) 0
  · cases hends with
    | normal => exact follows_pure hagree rfl
    | returned => exact follows_pure hagree rfl

/-- A statement whose declarations are not seen behind it. -/
theorem Simulates.scoped
    {stmt : Stmt} {inFunction : Bool} (hsim : Simulates chart fuel)
    (h : Stands chart owners m s stack env)
    (hbound : stmt.Bound chart inFunction stack) :
    Follows chart owners (Completion.Mirrors stack)
      (LoxLang.Step.exec fuel stmt m)
      ((do
        let completion ← Step.exec fuel env stmt
        return completion.leave env : Step Completion) s) := by
  refine (hsim.exec h hbound).map_right fun hrun hbegins hends => ?_
  have hlater := (LoxLang.Step.run_keeps fuel (.exec stmt) m).of_ok hrun
  cases hends with
  | normal _ => exact .normal (h.env.later hbegins hlater)
  | returned => exact .returned

theorem Simulates.block_succ
    {body : List Stmt} {inFunction : Bool} (hsim : Simulates chart fuel)
    (h : Stands chart owners m s stack env)
    (hbound : Stmt.BoundAll chart inFunction ([] :: stack) body) :
    Follows chart owners (Completion.Mirrors stack)
      (LoxLang.Step.exec (fuel + 1) (.block body) m)
      (Step.exec (fuel + 1) env (.block body) s) := by
  obtain ⟨hagree, hinner⟩ := h.agree.enter h.env .empty
  have hnames : ∀ name, (Bindings.empty : Bindings Value).has name = true ↔
      name ∈ ([] : List String) := by
    simp
  have hstands : Stands chart owners (m.within (some m.current) .empty) s
      ([] :: stack) env.inner :=
    ⟨h.sound.within_empty _, hagree.withCurrent _, .within h.env.fits hnames,
      hinner⟩
  have hnested : Follows chart owners (fun _ _ => Completion.Alike)
      (LoxLang.Step.nested (some m.current) .empty
        (LoxLang.Step.execAll fuel body) m)
      (Step.execAll fuel env.inner body s) :=
    (hsim.execAll hstands hbound).nested fun hends => hends
  refine hnested.map_right fun hrun hbegins hends => ?_
  have hkeeps := @LoxLang.Step.keeps_nested _ _ [] _ (some m.current) .empty
    (LoxLang.Step.run_keeps fuel (.execAll body))
  cases hends with
  | normal => exact .normal (h.env.later hbegins ((hkeeps m).of_ok hrun))
  | returned => exact .returned

theorem Simulates.class_succ
    {name : Ident} {superclass : Option Expr} {methods : List FunctionDecl}
    {inFunction : Bool} (hsim : Simulates chart fuel)
    (h : Stands chart owners m s stack env)
    (hbound : (Stmt.classDecl name superclass methods).Bound chart inFunction
      stack) :
    Follows chart owners (Completion.Mirrors (stack.declare [name.name]))
      (LoxLang.Step.exec (fuel + 1) (.classDecl name superclass methods) m)
      (Step.exec (fuel + 1) env (.classDecl name superclass methods) s) := by
  have hname : Ordinary name.name ∧ stack.Fresh name.name := by
    cases superclass <;> exact hbound.1
  obtain ⟨owners₁, env₁, s₁, hrun, hbegins, h₁⟩ :=
    h.declare hname.1 hname.2 .nil
  have hlocal : ((m.store.define m.current name.name .nil).local? m.current
      name.name).isSome := by
    simp [Store.local?_define, h.sound.current_lt h.situated]
  refine Follows.bind_ok rfl hrun (Follows.weaken ?_ hbegins)
  cases superclass with
  | none =>
      refine (h₁.agree.declareClass h₁.env hlocal hbound.2).bind
        fun hrun hbegins hagree _ => ?_
      have hlater :=
        (@LoxLang.Step.keeps_declareClass [] name none methods _).of_ok hrun
      exact follows_pure hagree (.normal (h₁.env.later hbegins hlater))
  | some superclass =>
      refine (hsim.eval h₁ hbound.2.1).bind
        fun {_ value _ _ _} hrun hbegins hagree hvalue => ?_
      subst hvalue
      have h₂ := h₁.after_eval hbound.2.1 hrun hbegins hagree
      have hlater :=
        (LoxLang.Step.run_keeps fuel (.eval superclass) _).of_ok hrun
      have hlocal := hlater.current.symm ▸ hlater.grows.local?_isSome hlocal
      cases value with
      | classRef id =>
          refine (hagree.declareSubclass h₂.env hlocal hbound.2.2 id).bind
            fun hrun hbegins hagree _ => ?_
          have hlater := (@LoxLang.Step.keeps_declareClass [] name (some id)
            methods _).of_ok hrun
          exact follows_pure hagree (.normal (h₂.env.later hbegins hlater))
      | _ => exact .error hagree.sink

theorem Simulates.exec_succ
    {stmt : Stmt} {inFunction : Bool} (hsim : Simulates chart fuel)
    (h : Stands chart owners m s stack env)
    (hbound : stmt.Bound chart inFunction stack) :
    Follows chart owners (Completion.Mirrors (stack.declare stmt.declares))
      (LoxLang.Step.exec (fuel + 1) stmt m)
      (Step.exec (fuel + 1) env stmt s) := by
  cases stmt with
  | expression expr =>
      rw [Stmt.declares, Stack.declare_nil_names]
      have hexpr : expr.Bound chart stack none := hbound
      refine (hsim.eval h hexpr).bind fun hrun hbegins hagree _ => ?_
      have h := h.after_eval hexpr hrun hbegins hagree
      exact follows_pure hagree (.normal h.env)
  | print expr =>
      rw [Stmt.declares, Stack.declare_nil_names]
      have hexpr : expr.Bound chart stack none := hbound
      refine (hsim.eval h hexpr).bind
        fun {_ value _ _ _} hrun hbegins hagree hvalue => ?_
      subst hvalue
      have h := h.after_eval hexpr hrun hbegins hagree
      refine (hagree.print value).bind fun hrun hbegins hagree _ => ?_
      have hlater := (@LoxLang.Step.keeps_print [] value _).of_ok hrun
      exact follows_pure hagree (.normal (h.env.later hbegins hlater))
  | var name initializer =>
      cases initializer with
      | none =>
          obtain ⟨owners₁, env₁, s₁, hrun, hbegins, h⟩ :=
            h.declare hbound.1 hbound.2 .nil
          exact Follows.bind_ok rfl hrun (.ok hbegins h.agree (.normal h.env))
      | some initializer =>
          obtain ⟨⟨hname, hfresh⟩, hinitializer⟩ := hbound
          refine (hsim.eval h hinitializer).bind
            fun {_ value _ _ _} hrun hbegins hagree hvalue => ?_
          subst hvalue
          have h := h.after_eval hinitializer hrun hbegins hagree
          obtain ⟨owners₁, env₁, s₁, hrun, hbegins, h⟩ :=
            h.declare hname hfresh value
          exact Follows.bind_ok rfl hrun (.ok hbegins h.agree (.normal h.env))
  | block body =>
      rw [Stmt.declares, Stack.declare_nil_names]
      exact hsim.block_succ h hbound
  | branch condition yes no =>
      have hdeclares : (Stmt.branch condition yes no).declares = [] := by
        cases no with
        | none => exact hbound.2.2
        | some no => simp [Stmt.declares, hbound.2.1.2, hbound.2.2.2]
      have hcondition : condition.Bound chart stack none := by
        cases no <;> exact hbound.1
      have hyes : yes.Bound chart inFunction stack := by
        cases no with
        | none => exact hbound.2.1
        | some no => exact hbound.2.1.1
      rw [hdeclares, Stack.declare_nil_names]
      refine (hsim.eval h hcondition).bind
        fun {_ value _ _ _} hrun hbegins hagree hvalue => ?_
      subst hvalue
      have h := h.after_eval hcondition hrun hbegins hagree
      cases value.isTruthy with
      | true => exact hsim.scoped h hyes
      | false =>
          cases no with
          | none => exact follows_pure hagree (.normal h.env)
          | some no => exact hsim.scoped h hbound.2.2.1
  | loop condition body =>
      rw [Stmt.declares, hbound.2.2, Stack.declare_nil_names]
      exact hsim.rounds h hbound.1 hbound.2.1 hbound.2.2
  | function declaration =>
      obtain ⟨⟨hname, hfresh⟩, hdeclaration⟩ := hbound
      refine (h.declareFunction hname hfresh hdeclaration).bind
        fun _ _ hagree henv => ?_
      exact follows_pure hagree (.normal henv)
  | ret line value =>
      cases value with
      | none => exact follows_pure h.agree .returned
      | some value =>
          refine (hsim.eval h hbound.2).bind fun _ _ hagree hvalue => ?_
          subst hvalue
          exact follows_pure hagree .returned
  | classDecl name superclass methods => exact hsim.class_succ h hbound

theorem Stands.after_exec
    {stmt : Stmt} {inFunction : Bool} {owners₁ : List Slot} {m₁ : Machine}
    {s₁ : State} {env₁ : Env} (h : Stands chart owners m s stack env)
    (hbound : stmt.Bound chart inFunction stack)
    (hrun : LoxLang.Step.exec fuel stmt m = .ok .normal m₁)
    (hagree : Agree chart owners₁ m₁ s₁)
    (henv : env₁.Mirrors owners₁ m₁.store m₁.globals m₁.current
      (stack.declare stmt.declares)) :
    Stands chart owners₁ m₁ s₁ (stack.declare stmt.declares) env₁ := by
  have hafter := (safe chart fuel).after_exec h.sound h.situated hbound hrun
  exact ⟨hafter.1, hagree, hafter.2, henv⟩

theorem Simulates.execAll_succ
    {stmts : List Stmt} {inFunction : Bool} (hsim : Simulates chart fuel)
    (h : Stands chart owners m s stack env)
    (hbound : Stmt.BoundAll chart inFunction stack stmts) :
    Follows chart owners (fun _ _ => Completion.Alike)
      (LoxLang.Step.execAll (fuel + 1) stmts m)
      (Step.execAll (fuel + 1) env stmts s) := by
  cases stmts with
  | nil => exact follows_pure h.agree .normal
  | cons stmt stmts =>
      refine (hsim.exec h hbound.1).bind fun hrun _ hagree hends => ?_
      cases hends with
      | normal henv =>
          have h := h.after_exec hbound.1 hrun hagree henv
          exact hsim.execAll h hbound.2
      | returned => exact follows_pure hagree .returned

theorem Simulates.rounds_succ
    {condition : Expr} {body : Stmt} {inFunction : Bool}
    (hsim : Simulates chart fuel) (h : Stands chart owners m s stack env)
    (hcondition : condition.Bound chart stack none)
    (hbody : body.Bound chart inFunction stack)
    (hdeclares : body.declares = []) :
    Follows chart owners (Completion.Mirrors stack)
      (LoxLang.Step.repeatWhile (fuel + 1) condition body m)
      (Step.repeatWhile (fuel + 1) env condition body s) := by
  refine (hsim.eval h hcondition).bind
    fun {_ value _ _ _} hrun hbegins hagree hvalue => ?_
  subst hvalue
  have h := h.after_eval hcondition hrun hbegins hagree
  cases value.isTruthy with
  | false => exact follows_pure hagree (.normal h.env)
  | true =>
      refine (hsim.exec h hbody).bind fun hrun hbegins hagree hends => ?_
      cases hends with
      | normal henv =>
          have hafter := (safe chart fuel).after_exec h.sound h.situated hbody
            hrun
          have hlater := (LoxLang.Step.run_keeps fuel (.exec body) _).of_ok hrun
          rw [hdeclares, Stack.declare_nil_names] at hafter
          exact hsim.rounds ⟨hafter.1, hagree, hafter.2,
            h.env.later hbegins hlater⟩ hcondition hbody hdeclares
      | returned => exact follows_pure hagree .returned

/-- With every bound on the runs, the machine goes the same way as the
evaluation by locations. -/
theorem simulates (hno : ∀ expr, ¬ chart.mayAssign expr) (fuel : Nat) :
    Simulates chart fuel := by
  induction fuel with
  | zero =>
      constructor
      · exact fun h _ => .error h.agree.sink
      · exact fun h _ => .error h.agree.sink
      · exact fun _ h _ => .error h.sink
      · exact fun _ h _ _ => .error h.sink
      · exact fun h _ => .error h.agree.sink
      · exact fun h _ => .error h.agree.sink
      · exact fun h _ _ _ => .error h.agree.sink
  | succ fuel hsim =>
      constructor
      · exact hsim.eval_succ hno
      · exact hsim.evalAll_succ
      · exact hsim.call_succ
      · exact hsim.invoke_succ
      · exact hsim.exec_succ
      · exact hsim.execAll_succ
      · exact hsim.rounds_succ

end

/-! ## Whole programs -/

theorem agree_start
    (chart : Chart) (sink : Sink) (clock : Nat → Float)
    (distances : Distances) :
    Agree chart [] ((Machine.start sink clock).extend distances)
      (State.start sink clock) := by
  constructor
  · rfl
  · intro location frame name howner
    simp at howner
  · exact List.nodup_nil
  · intro frame name hmem
    cases hmem
  · exact ⟨_, rfl, rfl⟩
  · exact fun _ => rfl
  · exact fun _ => .none
  · exact fun _ => .none
  · rfl
  · rfl
  · rfl
  · rfl
  · rfl

/-- A program at the top level ends on both sides in the same way. -/
theorem run_eq_of_follows
    {chart : Chart} {m : Machine} {s : State} {checked : Checked} {fuel : Nat}
    (hfollows : Follows chart [] (fun _ _ => Completion.Alike)
      (LoxLang.Step.execAll fuel checked.program
        (m.extend checked.distances))
      (Step.execAll fuel .top checked.program s))
    (hnormal : (LoxLang.Step.execAll fuel checked.program).FallsThrough) :
    (m.run fuel checked).1 = (s.run fuel checked.program).1 ∧
      (m.run fuel checked).2.sink = (s.run fuel checked.program).2.sink := by
  unfold Machine.run LoxLang.Step.runProgram State.run
  cases hm : LoxLang.Step.execAll fuel checked.program
      (m.extend checked.distances) with
  | ok completion m₁ =>
      have hcompletion := (hnormal _).of_ok hm
      subst hcompletion
      cases hs : Step.execAll fuel .top checked.program s with
      | ok completion' s₁ =>
          rw [hm, hs] at hfollows
          cases hfollows with
          | ok _ hagree _ =>
              cases hflush : s₁.sink.flush <;>
                simp [LoxLang.Step.flush, StateOf.flushed, hagree.sink, hflush,
                  Outcome.ofHalt]
      | error halt s₁ =>
          rw [hm, hs] at hfollows
          cases hfollows
  | error halt m₁ =>
      cases hs : Step.execAll fuel .top checked.program s with
      | ok completion' s₁ =>
          rw [hm, hs] at hfollows
          cases hfollows
      | error halt' s₁ =>
          rw [hm, hs] at hfollows
          cases hfollows with
          | error hsink =>
              cases halt with
              | fault e =>
                  cases hflush : s₁.sink.flush <;>
                    simp [LoxLang.Step.flush, StateOf.flushed, hsink, hflush,
                      Outcome.ofHalt]
              | output e => exact ⟨rfl, hsink⟩
              | defect d => exact ⟨rfl, hsink⟩
              | outOfFuel => exact ⟨rfl, hsink⟩

/-- A program without an assignment to a local variable inside of its own
initializer prints the same and ends in the same way, whether it is run by
distances and frames or by an environment of locations. -/
theorem distances_implement_lexical_scoping
    {source : String} {checked : Checked}
    (hverdict : (Analysis.ofSource source 0).verdict = .ok checked)
    (hself : checked.program.selfAssignments = [])
    (fuel : Nat) (sink : Sink) (clock : Nat → Float) :
    ((Session.start sink clock).run fuel source).1 =
        ((State.start sink clock).run fuel checked.program).1 ∧
      ((Session.start sink clock).run fuel source).2.machine.sink =
        ((State.start sink clock).run fuel checked.program).2.sink := by
  obtain ⟨hready, hbound⟩ :=
    (Session.sound_start sink clock).ready hverdict
  have hno (expr : Expr) :
      ¬ ∃ program ∈ [checked.program], expr ∈ program.selfAssignments := by
    rintro ⟨program, hmem, hexpr⟩
    rw [List.mem_singleton.mp hmem, hself] at hexpr
    cases hexpr
  have henv : Env.top.Mirrors [] (Machine.start sink clock).store
      (Machine.start sink clock).globals (Machine.start sink clock).current
      [] :=
    ⟨rfl, rfl, fun _ => rfl, fun hdistance => nomatch hdistance⟩
  let chart := ((Session.start sink clock).ready checked
    (Analysis.ofSource source 0).nextId).chart [checked.program]
  have hstands : Stands chart []
      ((Machine.start sink clock).extend checked.distances)
      (State.start sink clock) [] .top :=
    ⟨hready.machine, agree_start chart sink clock checked.distances,
      ⟨hready.top, fun hstack => nomatch hstack⟩, henv⟩
  have hfollows := (simulates hno fuel).execAll hstands hbound
  rw [Session.run_of_ok fuel hverdict]
  exact run_eq_of_follows hfollows
    (LoxLang.Step.execAll_fallsThrough fuel checked.program
      hbound.not_returnsAny)

/-- A function goes on to see the variable that was declared in front of it,
and not one of the same name behind it. -/
def shadowing : String :=
  "var a = \"global\"; \x7b fun show() \x7b print a; \x7d show();
    var a = \"block\"; show(); \x7d"

theorem shadowing_runs_lexically :
    ∃ checked, (Analysis.ofSource shadowing 0).verdict = .ok checked ∧
      checked.program.selfAssignments = [] ∧
      ((Session.start .unlimited fun _ => 0).run 20
        shadowing).2.machine.sink.written = "global\nglobal\n".toUTF8 ∧
      ((Session.start .unlimited fun _ => 0).run 20 shadowing).1 =
        ((State.start .unlimited fun _ => 0).run 20 checked.program).1 ∧
      ((Session.start .unlimited fun _ => 0).run 20
          shadowing).2.machine.sink =
        ((State.start .unlimited fun _ => 0).run 20
          checked.program).2.sink := by
  have hnone :
      (match (Analysis.ofSource shadowing 0).verdict with
        | .ok checked => checked.program.selfAssignments.isEmpty
        | .error _ => false) = true := by
    decide +kernel
  split at hnone
  · rename_i checked hverdict
    have hself := List.isEmpty_iff.mp hnone
    have hsame := distances_implement_lexical_scoping hverdict hself 20
      .unlimited fun _ => 0
    exact ⟨checked, hverdict, hself, by decide +kernel, hsame⟩
  · cases hnone

end Lexical
end LoxLang
