import LoxLang.Proofs.Run.Makeup
import LoxLang.Proofs.Scope.Agreement

/-!
# Where a bound run can break

A task that is bound in the scopes of its machine hands over only to tasks
that are bound in the scopes of theirs.  Such a task never ends in a defect,
unless it reaches an assignment to a pending name whose declaration has not
been carried out yet.
-/

namespace LoxLang

open Scope (Stack Chart)

/-! ## Parameters and methods -/

theorem Step.has_foldl_put
    {params : List Ident} {arguments : List Value}
    (hlength : params.length = arguments.length) (name : String)
    (names : Bindings Value) :
    ((params.zip arguments).foldl
        (fun names (param, value) => names.put param.name value)
        names).has name = true ↔
      names.has name = true ∨ name ∈ params.map Ident.name := by
  induction params generalizing arguments names with
  | nil => simp
  | cons param params ih =>
      cases arguments with
      | nil => cases hlength
      | cons value values =>
          have hrest := ih (Nat.succ.inj hlength)
            (names.put param.name value)
          simp only [List.zip_cons_cons, List.foldl_cons, hrest,
            Bindings.has_put, Bool.or_eq_true, decide_eq_true_eq,
            List.map_cons, List.mem_cons]
          grind

theorem Step.has_bindParams
    {params : List Ident} {arguments : List Value}
    (hlength : params.length = arguments.length) (name : String) :
    (bindParams params arguments).has name = true ↔
      name ∈ params.map Ident.name := by
  simpa [bindParams, Bindings.has] using has_foldl_put hlength name .empty

theorem Step.find?_bindParams_eq_none
    {params : List Ident} {arguments : List Value} {name : String}
    (hlength : params.length = arguments.length)
    (hname : name ∉ params.map Ident.name) :
    (bindParams params arguments).find? name = none := by
  cases hfind : (bindParams params arguments).find? name with
  | none => rfl
  | some value =>
      have hhas : (bindParams params arguments).has name = true := by
        simp [Bindings.has, hfind]
      exact absurd ((has_bindParams hlength name).mp hhas) hname

/-- The parameters of a function bind none of the words of the language. -/
theorem Function.Sound.find?_bindParams
    {chart : Chart} {globals : FrameId} {store : Store} {function : Function}
    {arguments : List Value} {word : String}
    (h : function.Sound chart globals store)
    (hlength : function.declaration.params.length = arguments.length)
    (hword : ¬ Ordinary word) :
    (Step.bindParams function.declaration.params arguments).find? word =
      none := by
  obtain ⟨stack, hbound, -⟩ := h.bound
  apply Step.find?_bindParams_eq_none hlength
  intro hmem
  obtain ⟨param, hparam, rfl⟩ := List.mem_map.mp hmem
  exact hword (FunctionDecl.Bound.ordinary _ hbound param hparam)

theorem Store.method?_congr
    {store other : Store} (hclasses : store.classes = other.classes)
    (id : ClassId) (name : String) :
    store.method? id name = other.method? id name := by
  induction id using Nat.strongRecOn with
  | ind id ih =>
      rw [Store.method?, Store.method?, hclasses]
      cases other.classes[id]? with
      | none => rfl
      | some cls =>
          dsimp only
          cases cls.methods.find? name with
          | some method => rfl
          | none =>
              dsimp only
              cases cls.superclass with
              | none => rfl
              | some superclass =>
                  dsimp only
                  split
                  · rename_i hlt
                    exact ih superclass hlt
                  · rfl

/-! ## Tasks in their scopes -/

namespace Task

/-- The task is bound in the scopes that the frames of the machine stand
for. -/
def Sound (chart : Chart) (m : Machine) : Task → Prop
  | .eval expr =>
      ∃ stack pending, m.Situated stack ∧ expr.Bound chart stack pending
  | .evalAll exprs =>
      ∃ stack pending, m.Situated stack ∧
        Expr.BoundAll chart stack pending exprs
  | .call callee arguments _ =>
      m.store.arity? callee = some arguments.length
  | .invoke function arguments =>
      function.Sound chart m.globals m.store ∧
        function.declaration.params.length = arguments.length
  | .exec stmt =>
      ∃ inFunction stack, m.Situated stack ∧
        stmt.Bound chart inFunction stack
  | .execAll stmts =>
      ∃ inFunction stack, m.Situated stack ∧
        Stmt.BoundAll chart inFunction stack stmts
  | .rounds condition body =>
      ∃ inFunction stack, m.Situated stack ∧
        condition.Bound chart stack none ∧
        body.Bound chart inFunction stack ∧ body.declares = []

/-- The names that a statement declares are there when it comes to its
end. -/
def Declared : (task : Task) → task.Result → Machine → Prop
  | .exec stmt, completion, m =>
      completion = .normal →
        ∀ name ∈ stmt.declares, (m.store.local? m.current name).isSome
  | _, _, _ => True

end Task

/-- An assignment whose value is found breaks the run. -/
def Raises
    (fuel : Nat) (id : PlaceId) (name : Ident) (value : Expr) (m : Machine)
    (d : Defect) : Prop :=
  ∃ result m₁, Step.eval fuel value m = .ok result m₁ ∧
    Step.writeName id name result m₁ = .error (.defect d) m₁

/-- The defect is raised by an assignment to a pending name, reached from the
task, because the frame at its distance does not hold the name. -/
def Origin
    (chart : Chart) (fuel : Nat) (task : Task) (m : Machine) (d : Defect) :
    Prop :=
  ∃ fuel' id name value m',
    Reaches fuel task m (fuel' + 1) (.eval (.assign id name value)) m' ∧
      Raises fuel' id name value m' d ∧
      chart.mayAssign (.assign id name value) ∧ d = .missing name.name

theorem Origin.enter
    {chart : Chart} {fuel : Nat} {task task' : Task} {m m' : Machine}
    {d : Defect} (h : Origin chart fuel task' m' d)
    (henters : Enters fuel task m task' m') :
    Origin chart (fuel + 1) task m d := by
  obtain ⟨fuel', id, name, value, m₁, hreaches, hraises⟩ := h
  exact ⟨fuel', id, name, value, m₁, .step henters hreaches, hraises⟩

/-- Every task that is bound in its scopes leaves a sound machine, and breaks
only at an assignment to a pending name. -/
def Safe (chart : Chart) (fuel : Nat) : Prop :=
  ∀ (task : Task) (m : Machine), m.Sound chart → task.Sound chart m →
    (task.run fuel).Ends m
      (fun result m₁ => m₁.Sound chart ∧ task.Declared result m₁)
      fun halt m₁ => m₁.Sound chart ∧
        ∀ d, halt = .defect d → Origin chart fuel task m d

section
variable {chart : Chart} {fuel : Nat} {m m₁ : Machine} {stack : Stack}

theorem Safe.after_eval
    {expr : Expr} {pending : Option String} {value : Value}
    (hsafe : Safe chart fuel) (hm : m.Sound chart)
    (hsituated : m.Situated stack) (hbound : expr.Bound chart stack pending)
    (hrun : Step.eval fuel expr m = .ok value m₁) :
    m₁.Sound chart ∧ m₁.Situated stack := by
  have hends := hsafe (.eval expr) m hm ⟨stack, pending, hsituated, hbound⟩
  have hlater := (Step.run_keeps fuel (.eval expr) m).of_ok hrun
  exact ⟨(hends.of_ok hrun).1, hsituated.later hlater⟩

theorem Safe.after_evalAll
    {exprs : List Expr} {pending : Option String} {values : List Value}
    (hsafe : Safe chart fuel) (hm : m.Sound chart)
    (hsituated : m.Situated stack)
    (hbound : Expr.BoundAll chart stack pending exprs)
    (hrun : Step.evalAll fuel exprs m = .ok values m₁) :
    m₁.Sound chart ∧ m₁.Situated stack := by
  have hends := hsafe (.evalAll exprs) m hm ⟨stack, pending, hsituated, hbound⟩
  have hlater := (Step.run_keeps fuel (.evalAll exprs) m).of_ok hrun
  exact ⟨(hends.of_ok hrun).1, hsituated.later hlater⟩

theorem Safe.after_exec
    {stmt : Stmt} {inFunction : Bool}
    (hsafe : Safe chart fuel) (hm : m.Sound chart)
    (hsituated : m.Situated stack)
    (hbound : stmt.Bound chart inFunction stack)
    (hrun : Step.exec fuel stmt m = .ok .normal m₁) :
    m₁.Sound chart ∧ m₁.Situated (stack.declare stmt.declares) := by
  have hends := hsafe (.exec stmt) m hm ⟨inFunction, stack, hsituated, hbound⟩
  have hlater := (Step.run_keeps fuel (.exec stmt) m).of_ok hrun
  have hdone := hends.of_ok hrun
  exact ⟨hdone.1, hsituated.declared hlater (hdone.2 rfl)⟩

/-- The frame of a method's instance lies around the scopes of its
declaration. -/
theorem Function.MethodSound.bind
    {method : Function} {object : ObjectId} (hm : m.Sound chart)
    (h : method.MethodSound chart m.globals m.store) :
    ∃ bound m₁, Step.bindMethod method object m = .ok bound m₁ ∧
      m₁.Sound chart ∧ m₁.globals = m.globals ∧
      bound.declaration = method.declaration ∧
      bound.Sound chart m₁.globals m₁.store := by
  obtain ⟨stack, hbound, hfits⟩ := h
  let names : Bindings Value := Bindings.empty.put "this" (.object object)
  have hnames : ∀ name, names.has name = true ↔ name ∈ ["this"] := by
    intro name
    simp [names, Bindings.has_put]
  have hsound :
      (m.store.addFrame ⟨some method.closure, names⟩).2.Sound chart
        m.globals := by
    refine hm.store.addFrame ?_ ?_
    · intro value hvalue
      simp only [names, Bindings.find?_put_self, Option.some.injEq] at hvalue
      exact ⟨object, hvalue.symm⟩
    · intro value hvalue
      simp [names, Bindings.find?_put] at hvalue
  have hsituated := Machine.Situated.within hfits hnames
  refine ⟨{ method with closure := m.store.frames.size },
    { m with store := (m.store.addFrame ⟨some method.closure, names⟩).2 },
    rfl, hm.withStore hsound, rfl, rfl, ?_, ?_⟩
  · exact ⟨["this"] :: stack, hbound, hsituated.fits⟩
  · intro _
    exact hsituated.fits.1 "this" (List.mem_singleton.mpr rfl)

end

/-! ## Hand-overs -/

section
variable {chart : Chart} {fuel : Nat} {task task' : Task} {m m' : Machine}

theorem Enters.sound_eval
    {expr : Expr} (hsafe : Safe chart fuel)
    (henters : Enters fuel (.eval expr) m task' m') (hm : m.Sound chart)
    (htask : (Task.eval expr).Sound chart m) :
    m'.Sound chart ∧ task'.Sound chart m' := by
  obtain ⟨stack, pending, hsituated, hbound⟩ := htask
  cases henters with
  | group => exact ⟨hm, stack, pending, hsituated, hbound⟩
  | unary => exact ⟨hm, stack, pending, hsituated, hbound⟩
  | binaryLeft => exact ⟨hm, stack, pending, hsituated, hbound.1⟩
  | binaryRight hleft =>
      have hafter := hsafe.after_eval hm hsituated hbound.1 hleft
      exact ⟨hafter.1, stack, pending, hafter.2, hbound.2⟩
  | logicalLeft => exact ⟨hm, stack, pending, hsituated, hbound.1⟩
  | logicalRight hleft _ =>
      have hafter := hsafe.after_eval hm hsituated hbound.1 hleft
      exact ⟨hafter.1, stack, pending, hafter.2, hbound.2⟩
  | assigned => exact ⟨hm, stack, pending, hsituated, hbound.1⟩
  | callee => exact ⟨hm, stack, pending, hsituated, hbound.1⟩
  | arguments hcallee =>
      have hafter := hsafe.after_eval hm hsituated hbound.1 hcallee
      exact ⟨hafter.1, stack, pending, hafter.2, hbound.2⟩
  | call hcallee harguments harity =>
      have hafter := hsafe.after_eval hm hsituated hbound.1 hcallee
      have hready :=
        hsafe.after_evalAll hafter.1 hafter.2 hbound.2 harguments
      exact ⟨hready.1, harity⟩
  | getObject => exact ⟨hm, stack, pending, hsituated, hbound⟩
  | setObject => exact ⟨hm, stack, pending, hsituated, hbound.1⟩
  | setValue hobject =>
      have hafter := hsafe.after_eval hm hsituated hbound.1 hobject
      exact ⟨hafter.1, stack, pending, hafter.2, hbound.2⟩

theorem Enters.sound_call
    {callee : Value} {arguments : List Value} {line : Nat}
    (henters : Enters fuel (.call callee arguments line) m task' m')
    (hm : m.Sound chart)
    (harity : m.store.arity? callee = some arguments.length) :
    m'.Sound chart ∧ task'.Sound chart m' := by
  cases henters with
  | callFunction hfunction =>
      refine ⟨hm, hm.store.functions hfunction, ?_⟩
      simpa [Store.arity?, Store.functionArity, hfunction] using harity
  | construct hmethod hbind =>
      rename_i method bound cls
      have hobject : (m.withObject cls).Sound chart :=
        hm.withStore (hm.store.addObject _)
      obtain ⟨found, m₁, hrun, hsound, -, hdeclaration, hfound⟩ :=
        (hobject.store.method? hmethod).bind hobject
      rw [hrun] at hbind
      cases hbind
      refine ⟨hsound, hfound, ?_⟩
      have hsame : m.store.method? cls initializerName = some method :=
        (@Store.method?_congr m.store (m.withObject cls).store rfl cls
          initializerName).trans hmethod
      rw [hdeclaration]
      simpa [Store.arity?, Store.classArity, hsame] using harity

theorem Enters.sound_invoke
    {function : Function} {arguments : List Value}
    (henters : Enters fuel (.invoke function arguments) m task' m')
    (hm : m.Sound chart)
    (htask : (Task.invoke function arguments).Sound chart m) :
    m'.Sound chart ∧ task'.Sound chart m' := by
  obtain ⟨hfunction, hlength⟩ := htask
  have hword (word : String) (hword : ¬ Ordinary word) :=
    hfunction.find?_bindParams hlength hword
  have hthis := hword "this" (by decide)
  have hsuper := hword "super" (by decide)
  obtain ⟨stack, hbound, hfits⟩ := hfunction.bound
  obtain ⟨⟨name, params, body⟩, closure, initializer⟩ := function
  obtain ⟨-, -, hbody⟩ := hbound
  cases henters with
  | body =>
      refine ⟨hm.within ?_ ?_, true, _,
        .within hfits (Step.has_bindParams hlength), hbody⟩
      · intro value hvalue
        rw [hthis] at hvalue
        cases hvalue
      · intro value hvalue
        rw [hsuper] at hvalue
        cases hvalue

theorem Machine.Sound.within_empty
    (hm : m.Sound chart) (parent : Option FrameId) :
    (m.within parent .empty).Sound chart :=
  hm.within (fun h => nomatch h) fun h => nomatch h

/-- A name is declared in the current frame. -/
theorem Machine.Sound.define
    {stack : Stack} {name : String} (value : Value) (hm : m.Sound chart)
    (hsituated : m.Situated stack) (hname : Ordinary name) :
    Machine.Sound chart
        { m with store := m.store.define m.current name value } ∧
      Machine.Situated
        { m with store := m.store.define m.current name value }
        (stack.declare [name]) := by
  refine ⟨hm.withStore (hm.store.define hname _ _), ?_⟩
  refine hsituated.declared (.define value (List.mem_singleton.mpr rfl)) ?_
  intro other hother
  have hcurrent := hm.current_lt hsituated
  simp [Store.local?_define, List.mem_singleton.mp hother, hcurrent]

theorem Enters.sound_exec
    {stmt : Stmt} (hsafe : Safe chart fuel)
    (henters : Enters fuel (.exec stmt) m task' m') (hm : m.Sound chart)
    (htask : (Task.exec stmt).Sound chart m) :
    m'.Sound chart ∧ task'.Sound chart m' := by
  obtain ⟨inFunction, stack, hsituated, hbound⟩ := htask
  cases henters with
  | expression => exact ⟨hm, stack, none, hsituated, hbound⟩
  | print => exact ⟨hm, stack, none, hsituated, hbound⟩
  | initializer => exact ⟨hm, stack, _, hsituated, hbound.2⟩
  | block =>
      exact ⟨hm.within_empty _, inFunction, [] :: stack,
        .within hsituated.fits (by simp), hbound⟩
  | condition =>
      rename_i no
      cases no with
      | none => exact ⟨hm, stack, none, hsituated, hbound.1⟩
      | some no => exact ⟨hm, stack, none, hsituated, hbound.1⟩
  | thenBranch hcondition _ =>
      rename_i no _
      cases no with
      | none =>
          have hafter := hsafe.after_eval hm hsituated hbound.1 hcondition
          exact ⟨hafter.1, inFunction, stack, hafter.2, hbound.2.1⟩
      | some no =>
          have hafter := hsafe.after_eval hm hsituated hbound.1 hcondition
          exact ⟨hafter.1, inFunction, stack, hafter.2, hbound.2.1.1⟩
  | elseBranch hcondition _ =>
      have hafter := hsafe.after_eval hm hsituated hbound.1 hcondition
      exact ⟨hafter.1, inFunction, stack, hafter.2, hbound.2.2.1⟩
  | loop => exact ⟨hm, inFunction, stack, hsituated, hbound⟩
  | returned => exact ⟨hm, stack, none, hsituated, hbound.2⟩
  | superclass hdefine =>
      rename_i name superclass methods
      cases hdefine
      have hdeclared := hm.define .nil hsituated hbound.1.1
      exact ⟨hdeclared.1, _, none, hdeclared.2, hbound.2.1⟩

/-- A task that is bound in its scopes hands over to tasks that are bound in
theirs. -/
theorem Enters.sound
    (hsafe : Safe chart fuel) (henters : Enters fuel task m task' m')
    (hm : m.Sound chart) (htask : task.Sound chart m) :
    m'.Sound chart ∧ task'.Sound chart m' := by
  cases task with
  | eval expr => exact henters.sound_eval hsafe hm htask
  | call callee arguments line => exact henters.sound_call hm htask
  | invoke function arguments => exact henters.sound_invoke hm htask
  | exec stmt => exact henters.sound_exec hsafe hm htask
  | evalAll exprs =>
      obtain ⟨stack, pending, hsituated, hbound⟩ := htask
      cases henters with
      | head => exact ⟨hm, stack, pending, hsituated, hbound.1⟩
      | tail hfirst =>
          have hafter := hsafe.after_eval hm hsituated hbound.1 hfirst
          exact ⟨hafter.1, stack, pending, hafter.2, hbound.2⟩
  | execAll stmts =>
      obtain ⟨inFunction, stack, hsituated, hbound⟩ := htask
      cases henters with
      | first => exact ⟨hm, inFunction, stack, hsituated, hbound.1⟩
      | next hfirst =>
          have hafter := hsafe.after_exec hm hsituated hbound.1 hfirst
          exact ⟨hafter.1, inFunction, _, hafter.2, hbound.2⟩
  | rounds condition body =>
      obtain ⟨inFunction, stack, hsituated, hcondition, hbody, hnone⟩ := htask
      cases henters with
      | roundCondition => exact ⟨hm, stack, none, hsituated, hcondition⟩
      | roundBody htest _ =>
          have hafter := hsafe.after_eval hm hsituated hcondition htest
          exact ⟨hafter.1, inFunction, stack, hafter.2, hbody⟩
      | nextRound htest _ hround =>
          have hafter := hsafe.after_eval hm hsituated hcondition htest
          have hnext := hsafe.after_exec hafter.1 hafter.2 hbody hround
          rw [hnone, Stack.declare_nil_names] at hnext
          exact ⟨hnext.1, inFunction, stack, hnext.2, hcondition, hbody, hnone⟩

end

/-! ## Steps that cannot break -/

namespace Step

/-- The step leaves a sound machine and does not end in a defect. -/
def Harmless (chart : Chart) (step : Step α) (m : Machine) : Prop :=
  step.Ends m (fun _ m₁ => m₁.Sound chart) fun halt m₁ =>
    m₁.Sound chart ∧ ∀ d, halt ≠ .defect d

variable {α β : Type} {chart : Chart} {m : Machine} {stack : Stack}

theorem Harmless.bind
    {step : Step α} {next : α → Step β} (hstep : step.Harmless chart m)
    (hnext : ∀ a m₁, step m = .ok a m₁ → m₁.Sound chart →
      (next a).Harmless chart m₁) :
    (step >>= next).Harmless chart m :=
  Ends.bind hstep hnext

theorem Harmless.ends
    {step : Step α} {ok : α → Machine → Prop} {blame : Defect → Prop}
    (h : step.Harmless chart m)
    (hok : ∀ a m₁, step m = .ok a m₁ → m₁.Sound chart → ok a m₁) :
    step.Ends m ok fun halt m₁ =>
      m₁.Sound chart ∧ ∀ d, halt = .defect d → blame d :=
  h.mono hok fun _ _ hhalted =>
    ⟨hhalted.1, fun d hd => absurd hd (hhalted.2 d)⟩

/-- As the end of a task that declares nothing. -/
theorem Harmless.plain
    {step : Step α} {blame : Defect → Prop} (h : step.Harmless chart m) :
    step.Ends m (fun _ m₁ => m₁.Sound chart ∧ True) fun halt m₁ =>
      m₁.Sound chart ∧ ∀ d, halt = .defect d → blame d :=
  h.ends fun _ _ _ hm => ⟨hm, trivial⟩

theorem harmless_pure (a : α) (hm : m.Sound chart) :
    (pure a : Step α).Harmless chart m :=
  hm

theorem harmless_fail
    (cause : RuntimeError.Cause) (line : Nat) (hm : m.Sound chart) :
    (fail cause line : Step α).Harmless chart m :=
  ⟨hm, fun _ => by simp⟩

theorem harmless_ask (question : Machine → α) (hm : m.Sound chart) :
    (ask question).Harmless chart m :=
  hm

theorem harmless_orMismatch
    (line : Nat) (result : Except Mismatch Value) (hm : m.Sound chart) :
    (orMismatch line result).Harmless chart m := by
  cases result with
  | error mismatch => exact harmless_fail _ line hm
  | ok value => exact harmless_pure value hm

theorem harmless_print (value : Value) (hm : m.Sound chart) :
    (print value).Harmless chart m := by
  refine (harmless_ask _ hm).bind fun text m₁ _ hm₁ => ?_
  simp only [Harmless, Ends, write]
  cases (m₁.sink.write (text ++ "\n")).1 with
  | error e => exact ⟨⟨hm₁.store, hm₁.distances⟩, fun _ => by simp⟩
  | ok _ => exact ⟨hm₁.store, hm₁.distances⟩

theorem harmless_callNative
    (native : Native) (arguments : List Value) (line : Nat)
    (hm : m.Sound chart) :
    (callNative native arguments line).Harmless chart m := by
  cases native with
  | clock => exact ⟨hm.store, hm.distances⟩
  | lent id name arity =>
      refine (harmless_ask _ hm).bind fun given m₁ _ hm₁ => ?_
      cases given with
      | ok value => exact harmless_pure value hm₁
      | error message => exact harmless_fail _ line hm₁

theorem harmless_methodValue
    {method : Function} (object : ObjectId) (hm : m.Sound chart)
    (hmethod : method.MethodSound chart m.globals m.store) :
    (methodValue method object).Harmless chart m := by
  obtain ⟨bound, m₁, hbind, hm₁, -, -, hbound⟩ := hmethod.bind hm
  refine ends_bind_of_ok hbind ?_
  exact hm₁.withStore (hm₁.store.addFunction hbound)

theorem harmless_getProperty
    (object : ObjectId) (name : Ident) (hm : m.Sound chart) :
    (getProperty object name).Harmless chart m := by
  cases hfield : m.store.field? object name.name with
  | some value => exact ends_ask hfield (harmless_pure value hm)
  | none =>
      refine ends_ask hfield ?_
      cases hmethod : m.store.objects[object]?.bind fun o =>
          m.store.method? o.classId name.name with
      | none => exact ends_ask hmethod (harmless_fail _ _ hm)
      | some method =>
          obtain ⟨o, -, hfound⟩ := Option.bind_eq_some_iff.mp hmethod
          exact ends_ask hmethod
            (harmless_methodValue object hm (hm.store.method? hfound))

theorem harmless_setProperty
    (object : ObjectId) (name : String) (value : Value)
    (hm : m.Sound chart) :
    (setProperty object name value).Harmless chart m :=
  hm.withStore (hm.store.setField ..)

/-- The value at a distance that the scopes give. -/
theorem readAt_of_fits
    {store : Store} {globals frame : FrameId} {distance : Nat}
    {name : String} (hfits : store.Fits globals frame stack)
    (hdistance : stack.distance? name = some distance) :
    ∃ holder value, store.readAt frame distance name = .ok value ∧
      store.local? holder name = some value := by
  obtain ⟨holder, hslot⟩ := hfits.slot hdistance
  obtain ⟨value, hvalue⟩ :=
    Option.isSome_iff_exists.mp (Store.slot_eq_ok hslot).2
  exact ⟨holder, value, by simp [Store.readAt, hslot, hvalue], hvalue⟩

theorem harmless_readName
    {id : PlaceId} {name : Ident} (hm : m.Sound chart)
    (hsituated : m.Situated stack)
    (hplace : chart.distance id (stack.distance? name.name)) :
    (readName id name).Harmless chart m := by
  have hdistance := hm.distances hplace
  simp only [Harmless, Ends, readName, hdistance]
  cases hstack : stack.distance? name.name with
  | none =>
      dsimp only
      cases m.store.lookup m.globals name with
      | error e => exact ⟨hm, fun _ => by simp⟩
      | ok value => exact hm
  | some distance =>
      obtain ⟨holder, value, hread, -⟩ :=
        readAt_of_fits hsituated.fits hstack
      simpa only [hread] using hm

/-- `super` and `this` are bound to a class and an instance. -/
theorem harmless_superMethod
    {id : PlaceId} {line : Nat} {method : Ident} {pending : Option String}
    (hm : m.Sound chart) (hsituated : m.Situated stack)
    (hbound : (Expr.super id line method).Bound chart stack pending) :
    (superMethod id line method).Harmless chart m := by
  obtain ⟨distance, hthis, hsuper, hplace⟩ := hbound
  obtain ⟨holder, value, hread, hlocal⟩ :=
    readAt_of_fits hsituated.fits hsuper
  obtain ⟨cls, rfl⟩ := hm.store.super hlocal
  obtain ⟨holder', value', hread', hlocal'⟩ :=
    readAt_of_fits hsituated.fits hthis
  obtain ⟨object, rfl⟩ := hm.store.this hlocal'
  have hinner : innerDistance (distance + 1) = distance := by
    simp [innerDistance]
  have hinside :
      m.store.readAt m.current (innerDistance (distance + 1)) "this" =
        .ok (.object object) := by
    rw [hinner, hread']
  refine ends_ask (hm.distances hplace) ?_
  refine ends_askDefect hread ?_
  refine ends_askDefect hinside ?_
  cases hmethod : m.store.method? cls method.name with
  | none => exact ends_ask hmethod (harmless_fail _ _ hm)
  | some found =>
      exact ends_ask hmethod
        (harmless_methodValue object hm (hm.store.method? hmethod))

theorem harmless_assignHere
    {name : Ident} (value : Value) (hm : m.Sound chart)
    (hname : Ordinary name.name) :
    (assignHere name value).Harmless chart m := by
  simp only [Harmless, Ends, assignHere]
  cases m.store.holder m.current name with
  | error e => exact ⟨hm, fun _ => by simp⟩
  | ok holder => exact hm.withStore (hm.store.define hname holder value)

/-- The methods of a new class keep the frames of its declaration. -/
theorem harmless_addClass
    {name : Ident} {superclass : Option ClassId} {closure : FrameId}
    {methods : List FunctionDecl} (hm : m.Sound chart)
    (hname : Ordinary name.name)
    (hfits : m.store.Fits m.globals closure stack)
    (hmethods : FunctionDecl.BoundAll chart (["this"] :: stack) methods) :
    Harmless chart
      (onStore (fun store =>
          store.addClass ⟨name.name, superclass, methodTable closure methods⟩)
        >>= fun id => assignHere name (.classRef id)) m := by
  refine ends_bind_of_ok rfl ?_
  refine harmless_assignHere _ (hm.withStore (hm.store.addClass ?_)) hname
  intro found method hfound
  obtain ⟨declaration, hmem, rfl⟩ := find?_methodTable hfound
  exact ⟨stack, hmethods.mem hmem, hfits⟩

theorem harmless_declareClass_base
    {name : Ident} {methods : List FunctionDecl} (hm : m.Sound chart)
    (hname : Ordinary name.name) (hsituated : m.Situated stack)
    (hmethods : FunctionDecl.BoundAll chart (["this"] :: stack) methods) :
    (declareClass name none methods).Harmless chart m := by
  rw [declareClass_eq]
  refine ends_ask rfl ?_
  refine ends_bind_of_ok rfl ?_
  exact harmless_addClass hm hname hsituated.fits hmethods

theorem harmless_declareClass_derived
    {name : Ident} {superclass : ClassId} {methods : List FunctionDecl}
    (hm : m.Sound chart) (hname : Ordinary name.name)
    (hsituated : m.Situated stack)
    (hmethods : FunctionDecl.BoundAll chart (["this"] :: ["super"] :: stack)
      methods) :
    (declareClass name (some superclass) methods).Harmless chart m := by
  let names : Bindings Value :=
    Bindings.empty.put "super" (.classRef superclass)
  have hnames : ∀ name, names.has name = true ↔ name ∈ ["super"] := by
    intro name
    simp [names, Bindings.has_put]
  have hframe := Machine.Situated.within hsituated.fits hnames
  have hsound :
      (m.store.addFrame ⟨some m.current, names⟩).2.Sound chart m.globals := by
    refine hm.store.addFrame ?_ ?_
    · intro value hvalue
      simp [names, Bindings.find?_put] at hvalue
    · intro value hvalue
      simp only [names, Bindings.find?_put_self, Option.some.injEq] at hvalue
      exact ⟨superclass, hvalue.symm⟩
  rw [declareClass_eq]
  refine ends_ask rfl ?_
  refine ends_bind_of_ok rfl ?_
  exact harmless_addClass (hm.withStore hsound) hname hframe.fits hmethods

/-- A function keeps the frames of its declaration, in which its own name is
declared. -/
theorem declareFunction_eq
    {declaration : FunctionDecl} (hm : m.Sound chart)
    (hsituated : m.Situated stack)
    (hname : Ordinary declaration.name.name)
    (hbound : declaration.Bound chart
      (stack.declare [declaration.name.name])) :
    ∃ m₁, declareFunction declaration m = .ok () m₁ ∧ m₁.Sound chart ∧
      (m₁.store.local? m₁.current declaration.name.name).isSome := by
  let function : Function := ⟨declaration, m.current, false⟩
  let value : Value := .function m.store.functions.size
  obtain ⟨hdefined, hdeclared⟩ := hm.define value hsituated hname
  have hfunction :
      function.Sound chart m.globals
        (m.store.define m.current declaration.name.name value) :=
    ⟨⟨_, hbound, hdeclared.fits⟩, fun h => by cases h⟩
  -- The function and its name lie in different parts of the store, so that
  -- the order in which they are added does not matter.
  refine ⟨{ m with
      store := ((m.store.define m.current declaration.name.name
        value).addFunction function).2 },
    rfl, hm.withStore (hdefined.store.addFunction hfunction), ?_⟩
  apply (Store.Grows.addFunction _ function).local?_isSome
  simp [Store.local?_define, hm.current_lt hsituated]

end Step

/-! ## Whole runs -/

section
variable {chart : Chart} {fuel : Nat} {m : Machine}

/-- How a task ends that another one hands over to. -/
theorem Safe.enter
    {task task' : Task} {m' : Machine} (hsafe : Safe chart fuel)
    (hm : m.Sound chart) (htask : task.Sound chart m)
    (henters : Enters fuel task m task' m') :
    (task'.run fuel).Ends m'
      (fun result m₁ => m₁.Sound chart ∧ task'.Declared result m₁)
      fun halt m₁ => m₁.Sound chart ∧
        ∀ d, halt = .defect d → Origin chart (fuel + 1) task m d := by
  have hsound := henters.sound hsafe hm htask
  refine (hsafe task' m' hsound.1 hsound.2).mono (fun _ _ _ h => h) ?_
  exact fun halt m₁ h => ⟨h.1, fun d hd => (h.2 d hd).enter henters⟩

open Step

/-- A bound assignment finds the frame of its name, unless the name is
pending. -/
theorem holder_of_bound
    {id : PlaceId} {name : Ident} {value : Expr} {stack : Stack}
    {pending : Option String} {d : Defect} (hm : m.Sound chart)
    (hsituated : m.Situated stack)
    (hbound : (Expr.assign id name value).Bound chart stack pending)
    (hholder : m.holder id name = .error (.defect d)) :
    chart.mayAssign (.assign id name value) ∧ d = .missing name.name := by
  obtain ⟨-, -, hplace⟩ := hbound
  by_cases hpending : pending = some name.name
  · rw [if_pos hpending] at hplace
    refine ⟨hplace.2, ?_⟩
    simp only [Machine.holder, hm.distances hplace.1, Store.slot,
      Store.ancestor] at hholder
    split at hholder
    · cases hholder
    · cases hholder
      rfl
  · rw [if_neg hpending] at hplace
    cases hdistance : stack.distance? name.name with
    | none =>
        rw [hdistance] at hplace
        simp only [Machine.holder, hm.distances hplace] at hholder
        cases hglobal : m.store.holder m.globals name <;>
          rw [hglobal] at hholder <;> cases hholder
    | some distance =>
        obtain ⟨holder, hslot⟩ := hsituated.fits.slot hdistance
        rw [hdistance] at hplace
        simp only [Machine.holder, hm.distances hplace, hslot] at hholder
        cases hholder

theorem Safe.eval_assign
    {id : PlaceId} {name : Ident} {value : Expr} (hsafe : Safe chart fuel)
    (hm : m.Sound chart)
    (htask : (Task.eval (.assign id name value)).Sound chart m) :
    (eval (fuel + 1) (.assign id name value)).Ends m
      (fun _ m₁ => m₁.Sound chart ∧ True)
      fun halt m₁ => m₁.Sound chart ∧
        ∀ d, halt = .defect d →
          Origin chart (fuel + 1) (.eval (.assign id name value)) m d := by
  refine (hsafe.enter hm htask .assigned).bind
    fun result m₁ hvalue hm₁ => ?_
  obtain ⟨stack, pending, hsituated, hbound⟩ := htask
  have hafter := hsafe.after_eval hm hsituated hbound.1 hvalue
  cases hholder : m₁.holder id name with
  | ok holder =>
      refine ends_bind_of_ok
        (show writeName id name result m₁ = .ok () _ by
          rw [writeName, hholder]) ?_
      exact ⟨hm₁.1.withStore (hm₁.1.store.define hbound.2.1 holder result),
        trivial⟩
  | error halt =>
      have hwrite : writeName id name result m₁ = .error halt m₁ := by
        rw [writeName, hholder]
      have hends :
          (writeName id name result >>= fun _ => pure result) m₁ =
            .error halt m₁ := by
        simp [Bind.bind, EStateM.bind, hwrite]
      simp only [Ends, hends]
      refine ⟨hm₁.1, fun d hd => ?_⟩
      subst hd
      have hmissing := holder_of_bound hafter.1 hafter.2 hbound hholder
      exact ⟨fuel, id, name, value, m, .refl, ⟨result, m₁, hvalue, hwrite⟩,
        hmissing⟩

theorem Safe.eval_succ
    {expr : Expr} (hsafe : Safe chart fuel) (hm : m.Sound chart)
    (htask : (Task.eval expr).Sound chart m) :
    (eval (fuel + 1) expr).Ends m (fun _ m₁ => m₁.Sound chart ∧ True)
      fun halt m₁ => m₁.Sound chart ∧
        ∀ d, halt = .defect d → Origin chart (fuel + 1) (.eval expr) m d := by
  cases expr with
  | literal value => exact ⟨hm, trivial⟩
  | group inner => exact hsafe.enter hm htask .group
  | unary op operand line =>
      refine (hsafe.enter hm htask .unary).bind fun value m₁ _ hm₁ => ?_
      exact (harmless_orMismatch line _ hm₁.1).plain
  | binary left op right line =>
      refine (hsafe.enter hm htask .binaryLeft).bind
        fun a m₁ hleft hm₁ => ?_
      refine (hsafe.enter hm htask (.binaryRight hleft)).bind
        fun b m₂ _ hm₂ => ?_
      exact (harmless_orMismatch line _ hm₂.1).plain
  | logical left op right =>
      refine (hsafe.enter hm htask .logicalLeft).bind
        fun value m₁ hleft hm₁ => ?_
      cases hdecides : Value.decides op value with
      | true => exact ⟨hm₁.1, trivial⟩
      | false => exact hsafe.enter hm htask (.logicalRight hleft hdecides)
  | read id name =>
      obtain ⟨stack, pending, hsituated, hbound⟩ := htask
      exact (harmless_readName hm hsituated hbound.2).plain
  | assign id name value => exact hsafe.eval_assign hm htask
  | call callee line arguments =>
      refine (hsafe.enter hm htask .callee).bind
        fun function m₁ hcallee hm₁ => ?_
      refine (hsafe.enter hm htask (.arguments hcallee)).bind
        fun values m₂ harguments hm₂ => ?_
      cases harity : m₂.store.arity? function with
      | none =>
          exact ends_ask harity ((harmless_fail _ line hm₂.1).plain)
      | some arity =>
          refine ends_ask harity ?_
          by_cases hlength : values.length = arity
          · subst hlength
            simp only [↓reduceIte]
            exact hsafe.enter hm htask (.call hcallee harguments harity)
          · simp only [if_neg hlength]
            exact (harmless_fail _ line hm₂.1).plain
  | get object name =>
      refine (hsafe.enter hm htask .getObject).bind
        fun target m₁ _ hm₁ => ?_
      cases target with
      | object id =>
          exact (harmless_getProperty id name hm₁.1).plain
      | _ =>
          exact (harmless_fail _ _ hm₁.1).plain
  | set object name value =>
      refine (hsafe.enter hm htask .setObject).bind
        fun target m₁ hobject hm₁ => ?_
      cases target with
      | object id =>
          refine (hsafe.enter hm htask (.setValue hobject)).bind
            fun result m₂ _ hm₂ => ?_
          exact ((harmless_setProperty id _ result hm₂.1).bind
            fun _ _ _ h => harmless_pure result h).plain
      | _ =>
          exact (harmless_fail _ _ hm₁.1).plain
  | this id line =>
      obtain ⟨stack, pending, hsituated, distance, hthis, hplace⟩ := htask
      rw [← hthis] at hplace
      exact (harmless_readName hm hsituated hplace).plain
  | super id line method =>
      obtain ⟨stack, pending, hsituated, hbound⟩ := htask
      exact (harmless_superMethod hm hsituated hbound).plain

theorem Safe.call_succ
    {callee : Value} {arguments : List Value} {line : Nat}
    (hsafe : Safe chart fuel) (hm : m.Sound chart)
    (htask : (Task.call callee arguments line).Sound chart m) :
    (call (fuel + 1) callee arguments line).Ends m
      (fun _ m₁ => m₁.Sound chart ∧ True)
      fun halt m₁ => m₁.Sound chart ∧ ∀ d, halt = .defect d →
        Origin chart (fuel + 1) (.call callee arguments line) m d := by
  cases callee with
  | native native => exact (harmless_callNative native arguments line hm).plain
  | function id =>
      cases hfunction : m.store.functions[id]? with
      | none => exact ends_ask hfunction (harmless_fail _ line hm).plain
      | some function =>
          exact ends_ask hfunction
            (hsafe.enter hm htask (.callFunction hfunction))
  | classRef id =>
      have hobject : (m.withObject id).Sound chart :=
        hm.withStore (hm.store.addObject _)
      refine ends_bind_of_ok
        (show _ = EStateM.Result.ok m.store.objects.size (m.withObject id)
          from rfl) ?_
      cases hmethod : (m.withObject id).store.method? id initializerName with
      | none => exact ends_ask hmethod ⟨hobject, trivial⟩
      | some method =>
          refine ends_ask hmethod ?_
          obtain ⟨bound, m₁, hbind, -⟩ :=
            (hobject.store.method? hmethod).bind hobject
          refine ends_bind_of_ok hbind ?_
          refine (hsafe.enter hm htask (.construct hmethod hbind)).bind
            fun _ m₂ _ hm₂ => ?_
          exact ⟨hm₂.1, trivial⟩
  | nil | bool | number | string | object =>
      exact (harmless_fail _ line hm).plain

theorem Safe.invoke_succ
    {function : Function} {arguments : List Value}
    (hsafe : Safe chart fuel) (hm : m.Sound chart)
    (htask : (Task.invoke function arguments).Sound chart m) :
    (invoke (fuel + 1) function arguments).Ends m
      (fun _ m₁ => m₁.Sound chart ∧ True)
      fun halt m₁ => m₁.Sound chart ∧ ∀ d, halt = .defect d →
        Origin chart (fuel + 1) (.invoke function arguments) m d := by
  rw [Step.invoke_succ]
  have hbody :
      (nested (some function.closure)
          (bindParams function.declaration.params arguments)
          (execAll fuel function.declaration.body)).Ends m
        (fun _ m₁ => m₁.Sound chart)
        fun halt m₁ => m₁.Sound chart ∧ ∀ d, halt = .defect d →
          Origin chart (fuel + 1) (.invoke function arguments) m d := by
    refine ends_nested ((hsafe.enter hm htask .body).mono ?_ ?_)
    · exact fun _ _ _ h => ⟨h.1.store, h.1.distances⟩
    · exact fun _ _ h => ⟨⟨h.1.store, h.1.distances⟩, h.2⟩
  refine hbody.bind fun completion m₁ hrun hm₁ => ?_
  by_cases hinitializer : function.initializer = true
  · have hkeeps :
        (nested (some function.closure)
          (bindParams function.declaration.params arguments)
          (execAll fuel function.declaration.body)).Keeps [] :=
      keeps_nested _ _ (run_keeps fuel (.execAll function.declaration.body))
    have hlater := (hkeeps m).of_ok hrun
    have hthis : (m₁.store.local? function.closure "this").isSome :=
      hlater.grows.local?_isSome (htask.1.this hinitializer)
    obtain ⟨value, hvalue⟩ := Option.isSome_iff_exists.mp hthis
    have hread : m₁.store.readAt function.closure 0 "this" = .ok value := by
      simp [Store.readAt, Store.slot, Store.ancestor, hvalue]
    rw [if_pos hinitializer]
    exact ends_ask hread ⟨hm₁, trivial⟩
  · rw [if_neg hinitializer]
    cases completion <;> exact ⟨hm₁, trivial⟩

theorem Safe.exec_classDecl
    {name : Ident} {superclass : Option Expr} {methods : List FunctionDecl}
    (hsafe : Safe chart fuel) (hm : m.Sound chart)
    (htask : (Task.exec (.classDecl name superclass methods)).Sound chart m) :
    (exec (fuel + 1) (.classDecl name superclass methods)).Ends m
      (fun _ m₁ => m₁.Sound chart ∧
        (m₁.store.local? m₁.current name.name).isSome)
      fun halt m₁ => m₁.Sound chart ∧ ∀ d, halt = .defect d →
        Origin chart (fuel + 1) (.exec (.classDecl name superclass methods))
          m d := by
  obtain ⟨inFunction, stack, hsituated, hbound⟩ := htask
  have hname : Ordinary name.name := by
    cases superclass <;> exact hbound.1.1
  let m₁ : Machine :=
    { m with store := m.store.define m.current name.name .nil }
  have hdefine : Step.define name.name .nil m = .ok () m₁ := rfl
  obtain ⟨hm₁, hdeclared⟩ := hm.define .nil hsituated hname
  have hpresent : (m₁.store.local? m₁.current name.name).isSome := by
    simp [m₁, Store.local?_define, hm.current_lt hsituated]
  -- The name stays declared while the class is made.
  have hclass {id : Option ClassId} {m₂ : Machine}
      (hpresent₂ : (m₂.store.local? m₂.current name.name).isSome)
      (hharmless : (declareClass name id methods).Harmless chart m₂) :
      (declareClass name id methods >>= fun _ => pure Completion.normal).Ends
        m₂
        (fun _ m₃ => m₃.Sound chart ∧
          (m₃.store.local? m₃.current name.name).isSome)
        fun halt m₃ => m₃.Sound chart ∧ ∀ d, halt = .defect d →
          Origin chart (fuel + 1)
            (.exec (.classDecl name superclass methods)) m d := by
    refine Ends.bind (hharmless.ends fun _ _ _ h => h) fun _ m₃ hrun hm₃ => ?_
    have hkeeps : (declareClass name id methods).Keeps [] :=
      keeps_declareClass name id methods
    have hlater := (hkeeps m₂).of_ok hrun
    refine ⟨hm₃, ?_⟩
    rw [hlater.current]
    exact hlater.grows.local?_isSome hpresent₂
  refine ends_bind_of_ok hdefine ?_
  cases superclass with
  | none =>
      exact hclass hpresent
        (harmless_declareClass_base hm₁ hname hdeclared hbound.2)
  | some superclass =>
      have htask : (Task.exec (.classDecl name (some superclass)
          methods)).Sound chart m :=
        ⟨inFunction, stack, hsituated, hbound⟩
      refine (hsafe.enter hm htask (.superclass hdefine)).bind
        fun value m₂ hrun hm₂ => ?_
      have hafter := hsafe.after_eval hm₁ hdeclared hbound.2.1 hrun
      have hlater := (run_keeps fuel (.eval superclass) m₁).of_ok hrun
      have hpresent₂ : (m₂.store.local? m₂.current name.name).isSome := by
        rw [hlater.current]
        exact hlater.grows.local?_isSome hpresent
      cases value with
      | classRef id =>
          exact hclass hpresent₂
            (harmless_declareClass_derived hafter.1 hname hafter.2 hbound.2.2)
      | nil | bool | number | string | native | function | object =>
          exact ⟨hm₂.1, fun _ hd => nomatch hd⟩

theorem Safe.exec_succ
    {stmt : Stmt} (hsafe : Safe chart fuel) (hm : m.Sound chart)
    (htask : (Task.exec stmt).Sound chart m) :
    (exec (fuel + 1) stmt).Ends m
      (fun completion m₁ =>
        m₁.Sound chart ∧ (Task.exec stmt).Declared completion m₁)
      fun halt m₁ => m₁.Sound chart ∧ ∀ d, halt = .defect d →
        Origin chart (fuel + 1) (.exec stmt) m d := by
  have hnone {completion : Completion} {m₁ : Machine}
      (hdeclares : stmt.declares = []) (hm₁ : m₁.Sound chart) :
      m₁.Sound chart ∧ (Task.exec stmt).Declared completion m₁ :=
    ⟨hm₁, fun _ name hname => by simp [hdeclares] at hname⟩
  cases stmt with
  | expression expr =>
      exact (hsafe.enter hm htask .expression).bind
        fun _ m₁ _ hm₁ => hnone rfl hm₁.1
  | print expr =>
      refine (hsafe.enter hm htask .print).bind fun value m₁ _ hm₁ => ?_
      refine ((harmless_print value hm₁.1).bind
        fun _ _ _ h => harmless_pure _ h).ends ?_
      exact fun _ _ _ h => hnone rfl h
  | var name initializer =>
      obtain ⟨inFunction, stack, hsituated, hbound⟩ := htask
      have hname : Ordinary name.name := by
        cases initializer with
        | none => exact hbound.1
        | some initializer => exact hbound.1.1
      have hdefine {value : Value} {m₁ : Machine} (hm₁ : m₁.Sound chart)
          (hsituated₁ : m₁.Situated stack) :
          (Step.define name.name value >>= fun _ =>
            pure Completion.normal).Ends m₁
            (fun completion m₂ => m₂.Sound chart ∧
              (Task.exec (.var name initializer)).Declared completion m₂)
            fun halt m₂ => m₂.Sound chart ∧ ∀ d, halt = .defect d →
              Origin chart (fuel + 1) (.exec (.var name initializer)) m d := by
        refine ends_bind_of_ok rfl ⟨(hm₁.define value hsituated₁ hname).1, ?_⟩
        intro _ declared hdeclared
        have hcurrent := hm₁.current_lt hsituated₁
        simp [List.mem_singleton.mp hdeclared, Store.local?_define, hcurrent]
      cases initializer with
      | none => exact hdefine hm hsituated
      | some initializer =>
          have htask : (Task.exec (.var name (some initializer))).Sound
              chart m :=
            ⟨inFunction, stack, hsituated, hbound⟩
          refine (hsafe.enter hm htask .initializer).bind
            fun value m₁ hrun hm₁ => ?_
          have hafter := hsafe.after_eval hm hsituated hbound.2 hrun
          exact hdefine hafter.1 hafter.2
  | block body =>
      rw [exec_block]
      refine ends_ask rfl (ends_nested ?_)
      refine (hsafe.enter hm htask .block).mono ?_ ?_
      · exact fun _ _ _ h => hnone rfl ⟨h.1.store, h.1.distances⟩
      · exact fun _ _ h => ⟨⟨h.1.store, h.1.distances⟩, h.2⟩
  | branch condition yes no =>
      have hdeclares : (Stmt.branch condition yes no).declares = [] := by
        obtain ⟨inFunction, stack, hsituated, hbound⟩ := htask
        cases no with
        | none => exact hbound.2.2
        | some no =>
            simp [Stmt.declares, hbound.2.1.2, hbound.2.2.2]
      refine (hsafe.enter hm htask .condition).bind
        fun value m₁ hcondition hm₁ => ?_
      cases htruthy : value.isTruthy with
      | true =>
          exact (hsafe.enter hm htask (.thenBranch hcondition htruthy)).mono
            (fun _ _ _ h => hnone hdeclares h.1) fun _ _ h => h
      | false =>
          cases no with
          | none => exact hnone hdeclares hm₁.1
          | some no =>
              exact (hsafe.enter hm htask
                (.elseBranch hcondition htruthy)).mono
                (fun _ _ _ h => hnone hdeclares h.1) fun _ _ h => h
  | loop condition body =>
      have hdeclares : (Stmt.loop condition body).declares = [] := by
        obtain ⟨inFunction, stack, hsituated, hbound⟩ := htask
        exact hbound.2.2
      exact (hsafe.enter hm htask .loop).mono
        (fun _ _ _ h => hnone hdeclares h.1) fun _ _ h => h
  | function declaration =>
      obtain ⟨inFunction, stack, hsituated, hbound⟩ := htask
      obtain ⟨m₁, hrun, hm₁, hpresent⟩ :=
        declareFunction_eq hm hsituated hbound.1.1 hbound.2
      refine ends_bind_of_ok hrun ⟨hm₁, fun _ declared hdeclared => ?_⟩
      rw [List.mem_singleton.mp hdeclared]
      exact hpresent
  | ret line value =>
      cases value with
      | none => exact hnone rfl hm
      | some value =>
          exact (hsafe.enter hm htask .returned).bind
            fun _ m₁ _ hm₁ => hnone rfl hm₁.1
  | classDecl name superclass methods =>
      refine (hsafe.exec_classDecl hm htask).mono ?_ fun _ _ h => h
      intro completion m₁ _ h
      refine ⟨h.1, fun _ declared hdeclared => ?_⟩
      rw [List.mem_singleton.mp hdeclared]
      exact h.2

/-- A run of a task that is bound in its scopes breaks only at an assignment
to a pending name. -/
theorem safe (chart : Chart) (fuel : Nat) : Safe chart fuel := by
  induction fuel with
  | zero =>
      intro task m hm _
      cases task <;> exact ⟨hm, fun _ hd => nomatch hd⟩
  | succ fuel hsafe =>
      intro task m hm htask
      cases task with
      | eval expr => exact hsafe.eval_succ hm htask
      | call callee arguments line => exact hsafe.call_succ hm htask
      | invoke function arguments => exact hsafe.invoke_succ hm htask
      | exec stmt => exact hsafe.exec_succ hm htask
      | evalAll exprs =>
          cases exprs with
          | nil => exact ⟨hm, trivial⟩
          | cons expr exprs =>
              refine (hsafe.enter hm htask .head).bind
                fun value m₁ hfirst _ => ?_
              refine (hsafe.enter hm htask (.tail hfirst)).bind
                fun values m₂ _ hm₂ => ?_
              exact ⟨hm₂.1, trivial⟩
      | execAll stmts =>
          cases stmts with
          | nil => exact ⟨hm, trivial⟩
          | cons stmt stmts =>
              refine (hsafe.enter hm htask .first).bind
                fun completion m₁ hfirst hm₁ => ?_
              cases completion with
              | normal => exact hsafe.enter hm htask (.next hfirst)
              | returned value => exact ⟨hm₁.1, trivial⟩
      | rounds condition body =>
          refine (hsafe.enter hm htask .roundCondition).bind
            fun value m₁ htest hm₁ => ?_
          cases htruthy : value.isTruthy with
          | false => exact ⟨hm₁.1, trivial⟩
          | true =>
              refine (hsafe.enter hm htask (.roundBody htest htruthy)).bind
                fun completion m₂ hround hm₂ => ?_
              cases completion with
              | normal =>
                  exact hsafe.enter hm htask (.nextRound htest htruthy hround)
              | returned value => exact ⟨hm₂.1, trivial⟩

/-- Every task that is reached is bound in its scopes. -/
theorem Reaches.sound
    {fuel' : Nat} {task task' : Task} {m' : Machine}
    (hreaches : Reaches fuel task m fuel' task' m') (hm : m.Sound chart)
    (htask : task.Sound chart m) : m'.Sound chart ∧ task'.Sound chart m' := by
  induction hreaches with
  | refl => exact ⟨hm, htask⟩
  | step henters _ ih =>
      have hnext := henters.sound (safe chart _) hm htask
      exact ih hnext.1 hnext.2

end

end LoxLang
