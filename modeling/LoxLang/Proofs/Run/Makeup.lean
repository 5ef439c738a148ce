import LoxLang.Proofs.Run.Parts

/-!
# What every task is made of

Every task is composed of its parts, and among these are all the tasks that it
hands over to.  This is the one place where the evaluation is taken apart,
construct by construct, for a statement about all machines.
-/

namespace LoxLang

section
variable {fuel : Nat} {task : Task} {start m : Machine} {hand : List Value}

theorem Handed.eval
    {expr : Expr} (h : Enters fuel task start (.eval expr) m) :
    Handed fuel task start (.eval expr) m hand :=
  ⟨h, List.nil_subset _, List.nil_subset _⟩

theorem Handed.evalAll
    {exprs : List Expr} (h : Enters fuel task start (.evalAll exprs) m) :
    Handed fuel task start (.evalAll exprs) m hand :=
  ⟨h, List.nil_subset _, List.nil_subset _⟩

theorem Handed.exec
    {stmt : Stmt} (h : Enters fuel task start (.exec stmt) m)
    (hnames : stmt.declares ⊆ task.declares) :
    Handed fuel task start (.exec stmt) m hand :=
  ⟨h, hnames, List.nil_subset _⟩

theorem Handed.call
    {callee : Expr} {line : Nat} {arguments : List Expr} {function : Value}
    {values : List Value} {m₁ m₂ : Machine}
    (hcallee : Step.eval fuel callee m = .ok function m₁)
    (harguments : Step.evalAll fuel arguments m₁ = .ok values m₂)
    (harity : m₂.store.arity? function = some values.length) :
    Handed fuel (.eval (.call callee line arguments)) m
      (.call function values line) m₂ (values ++ [function]) := by
  refine ⟨.call hcallee harguments harity, List.nil_subset _, ?_⟩
  simp [Task.arguments]

end

namespace Step

/-- How a task is made up. -/
structure Shape (fuel : Nat) (task : Task) (m : Machine) : Prop where
  composed :
    Composed fuel task m task.arguments (task.run (fuel + 1)) m task.values
  hands : ∀ {task' m'}, Enters fuel task m task' m' →
    Hands fuel task m task' m' task.arguments (task.run (fuel + 1)) m

section
variable {fuel : Nat} {task : Task} {start m : Machine} {hand : List Value}

/-! ## Expressions and calls -/

/-- What is done with the value that is asked for a property. -/
theorem Composed.property
    {object : Expr} {name : Ident} {target : Value} {m₁ : Machine}
    (hobject : eval fuel object m = .ok target m₁) :
    Composed fuel (.eval (.get object name)) m [target]
      (match target with
        | .object id => Step.getProperty id name
        | _ => Step.fail .notAnInstance name.line) m₁
      fun value => [value] := by
  cases target with
  | object id => exact .getProperty hobject (.hand List.mem_cons_self)
  | _ => exact .fail _ _

theorem Composed.store
    (object : Expr) (name : Ident) (value : Expr) (id : ObjectId)
    (result : Value) (m₂ : Machine) :
    Composed fuel (.eval (.set object name value)) m [result, .object id]
      (Step.setProperty id name.name result >>= fun _ => Pure.pure result) m₂
      fun value => [value] :=
  .bind (.setProperty id name.name (.hand List.mem_cons_self))
    fun _ _ _ => .give (.hand List.mem_cons_self)

theorem Composed.assignment
    {object : Expr} {name : Ident} {value : Expr} {target : Value}
    {m₁ : Machine} (hobject : eval fuel object m = .ok target m₁) :
    Composed fuel (.eval (.set object name value)) m [target]
      (match target with
        | .object id => do
            let result ← eval fuel value
            Step.setProperty id name.name result
            return result
        | _ => Step.fail .notAnInstance name.line) m₁
      fun value => [value] := by
  cases target with
  | object id =>
      exact .bind (.enter (.eval (.setValue hobject)))
        fun result m₂ _ => .store object name value id result m₂
  | _ => exact .fail _ _

theorem Composed.application
    {callee : Expr} {line : Nat} {arguments : List Expr} {function : Value}
    {values : List Value} {m₁ m₂ : Machine}
    (hcallee : eval fuel callee m = .ok function m₁)
    (harguments : evalAll fuel arguments m₁ = .ok values m₂) :
    Composed fuel (.eval (.call callee line arguments)) m
      (values ++ [function])
      (Step.ask (fun machine => machine.store.arity? function) >>= fun
        | none => Step.fail .notCallable line
        | some arity =>
            if values.length = arity then Step.call fuel function values line
            else Step.fail (.arityMismatch arity values.length) line) m₂
      fun value => [value] := by
  refine .ask (fun _ _ => rfl) ?_
  cases harity : m₂.store.arity? function with
  | none => exact .fail _ line
  | some arity =>
      by_cases hlength : values.length = arity
      · subst hlength
        simp only [↓reduceIte]
        exact .enter (.call hcallee harguments harity)
      · simp only [if_neg hlength]
        exact .fail _ line

theorem shape_eval (fuel : Nat) (expr : Expr) (m : Machine) :
    Shape fuel (.eval expr) m := by
  cases expr with
  | literal value =>
      refine ⟨.give (.plain (Value.refers_ofLiteral value)), ?_⟩
      intro task' m' henters
      cases henters
  | group inner =>
      refine ⟨.enter (.eval .group), ?_⟩
      intro task' m' henters
      cases henters with
      | group => exact .here (.eval .group)
  | unary op operand line =>
      have hrest (value : Value) (m₁ : Machine)
          (_ : eval fuel operand m = .ok value m₁) :
          Composed fuel (.eval (.unary op operand line)) m [value]
            (orMismatch line (Value.unary op value)) m₁ fun value => [value] :=
        .orMismatch line fun _ h => Value.refers_unary h
      refine ⟨.bind (.enter (.eval .unary)) hrest, ?_⟩
      intro task' m' henters
      cases henters with
      | unary => exact .first (.here (.eval .unary)) hrest
  | binary left op right line =>
      have hlast (a b : Value) (m₂ : Machine) :
          Composed fuel (.eval (.binary left op right line)) m [b, a]
            (orMismatch line (a.binary op b)) m₂ fun value => [value] :=
        .orMismatch line fun _ h => Value.refers_binary h
      have hrest (a : Value) (m₁ : Machine)
          (hleft : eval fuel left m = .ok a m₁) :
          Composed fuel (.eval (.binary left op right line)) m [a]
            (eval fuel right >>= fun b => orMismatch line (a.binary op b)) m₁
            fun value => [value] :=
        .bind (.enter (.eval (.binaryRight hleft))) fun b m₂ _ => hlast a b m₂
      refine ⟨.bind (.enter (.eval .binaryLeft)) hrest, ?_⟩
      intro task' m' henters
      cases henters with
      | binaryLeft => exact .first (.here (.eval .binaryLeft)) hrest
      | binaryRight hleft =>
          exact .second (.enter (.eval .binaryLeft)) hleft
            (.first (.here (.eval (.binaryRight hleft)))
              fun b m₂ _ => hlast _ b m₂)
  | logical left op right =>
      have hrest (value : Value) (m₁ : Machine)
          (hleft : eval fuel left m = .ok value m₁) :
          Composed fuel (.eval (.logical left op right)) m [value]
            (if Value.decides op value then pure value else eval fuel right)
            m₁ fun value => [value] := by
        cases hdecides : Value.decides op value with
        | true => exact .give (.hand List.mem_cons_self)
        | false => exact .enter (.eval (.logicalRight hleft hdecides))
      refine ⟨.bind (.enter (.eval .logicalLeft)) hrest, ?_⟩
      intro task' m' henters
      cases henters with
      | logicalLeft => exact .first (.here (.eval .logicalLeft)) hrest
      | logicalRight hleft hdecides =>
          refine .second (.enter (.eval .logicalLeft)) hleft ?_
          rw [if_neg (by simp [hdecides])]
          exact .here (.eval (.logicalRight hleft hdecides))
  | read id name =>
      refine ⟨.readName id name, ?_⟩
      intro task' m' henters
      cases henters
  | assign id name value =>
      have hrest (result : Value) (m₁ : Machine)
          (_ : eval fuel value m = .ok result m₁) :
          Composed fuel (.eval (.assign id name value)) m [result]
            (writeName id name result >>= fun _ => pure result) m₁
            fun value => [value] := by
        have hwrite : Composed fuel (.eval (.assign id name value)) m [result]
            (writeName id name result) m₁ fun _ => [] :=
          .writeName id (List.mem_singleton.mpr rfl) (.hand List.mem_cons_self)
        exact .bind hwrite fun _ _ _ => .give (.hand List.mem_cons_self)
      refine ⟨.bind (.enter (.eval .assigned)) hrest, ?_⟩
      intro task' m' henters
      cases henters with
      | assigned => exact .first (.here (.eval .assigned)) hrest
  | call callee line arguments =>
      have hrest (function : Value) (m₁ : Machine)
          (hcallee : eval fuel callee m = .ok function m₁) :
          Composed fuel (.eval (.call callee line arguments)) m [function]
            _ m₁ fun value => [value] :=
        .bind (.enter (.evalAll (.arguments hcallee)))
          fun values m₂ harguments => .application hcallee harguments
      refine ⟨.bind (.enter (.eval .callee)) hrest, ?_⟩
      intro task' m' henters
      cases henters with
      | callee => exact .first (.here (.eval .callee)) hrest
      | arguments hcallee =>
          refine .second (.enter (.eval .callee)) hcallee ?_
          exact .first (.here (.evalAll (.arguments hcallee)))
            fun values m₂ harguments => .application hcallee harguments
      | call hcallee harguments harity =>
          refine .second (.enter (.eval .callee)) hcallee ?_
          refine .second (.enter (.evalAll (.arguments hcallee))) harguments ?_
          refine .ask (fun _ _ => rfl) harity ?_
          simp only [↓reduceIte]
          exact .here (.call hcallee harguments harity)
  | get object name =>
      refine ⟨.bind (.enter (.eval .getObject))
        fun target m₁ hobject => .property hobject, ?_⟩
      intro task' m' henters
      cases henters with
      | getObject =>
          exact .first (.here (.eval .getObject))
            fun target m₁ hobject => .property hobject
  | set object name value =>
      refine ⟨.bind (.enter (.eval .setObject))
        fun target m₁ hobject => .assignment hobject, ?_⟩
      intro task' m' henters
      cases henters with
      | setObject =>
          exact .first (.here (.eval .setObject))
            fun target m₁ hobject => .assignment hobject
      | setValue hobject =>
          refine .second (.enter (.eval .setObject)) hobject ?_
          exact .first (.here (.eval (.setValue hobject)))
            fun result m₂ _ => .store object name value _ result m₂
  | this id line =>
      refine ⟨.readName id _, ?_⟩
      intro task' m' henters
      cases henters
  | super id line method =>
      refine ⟨.superMethod id line method, ?_⟩
      intro task' m' henters
      cases henters

theorem shape_evalAll (fuel : Nat) (exprs : List Expr) (m : Machine) :
    Shape fuel (.evalAll exprs) m := by
  cases exprs with
  | nil =>
      refine ⟨.pure (List.forall_mem_nil _), ?_⟩
      intro task' m' henters
      cases henters
  | cons expr exprs =>
      have hlast (value : Value) (values : List Value) (m₂ : Machine) :
          Composed fuel (.evalAll (expr :: exprs)) m (values ++ [value])
            (pure (value :: values)) m₂ fun values => values := by
        refine .pure fun other hother => .hand ?_
        exact List.mem_append.mpr ((List.mem_cons.mp hother).symm.imp_right
          List.mem_singleton.mpr)
      have hrest (value : Value) (m₁ : Machine)
          (hhead : eval fuel expr m = .ok value m₁) :
          Composed fuel (.evalAll (expr :: exprs)) m [value]
            (evalAll fuel exprs >>= fun values => pure (value :: values)) m₁
            fun values => values :=
        .bind (.enter (.evalAll (.tail hhead)))
          fun values m₂ _ => hlast value values m₂
      refine ⟨.bind (.enter (.eval .head)) hrest, ?_⟩
      intro task' m' henters
      cases henters with
      | head => exact .first (.here (.eval .head)) hrest
      | tail hhead =>
          refine .second (.enter (.eval .head)) hhead ?_
          exact .first (.here (.evalAll (.tail hhead)))
            fun values m₂ _ => hlast _ values m₂

theorem shape_call
    (fuel : Nat) (callee : Value) (arguments : List Value) (line : Nat)
    (m : Machine) : Shape fuel (.call callee arguments line) m := by
  cases callee with
  | native native =>
      refine ⟨.callNative native line (List.subset_cons_self _ _), ?_⟩
      intro task' m' henters
      cases henters
  | function id =>
      have hhanded {function : Function}
          (h : m.store.functions[id]? = some function) :
          Handed fuel (.call (.function id) arguments line) m
            (.invoke function arguments) m (.function id :: arguments) :=
        ⟨.callFunction h, List.nil_subset _, List.subset_cons_self _ _⟩
      constructor
      · refine .ask (fun _ _ => rfl) ?_
        cases hfunction : m.store.functions[id]? with
        | none => exact .fail _ line
        | some function => exact .enter (hhanded hfunction)
      · intro task' m' henters
        cases henters with
        | callFunction hfunction =>
            exact .ask (fun _ _ => rfl) hfunction (.here (hhanded hfunction))
  | classRef id =>
      have hobject :
          Composed fuel (.call (.classRef id) arguments line) m
            (.classRef id :: arguments)
            (onStore fun store => store.addObject ⟨id, .empty⟩) m
            fun object => [.object object] :=
        .part (quiet_onStore _) (.addObject (.hand List.mem_cons_self))
      have hhanded {method bound : Function} {m₂ : Machine}
          (hmethod : (m.withObject id).store.method? id initializerName =
            some method)
          (hbind : Step.bindMethod method m.store.objects.size
            (m.withObject id) = .ok bound m₂) :
          Handed fuel (.call (.classRef id) arguments line) m
            (.invoke bound arguments) m₂
            (.object m.store.objects.size :: .classRef id :: arguments) :=
        ⟨.construct hmethod hbind, List.nil_subset _,
          List.subset_cons_of_subset _ (List.subset_cons_self _ _)⟩
      have hlast (value : Value) (m₃ : Machine) :
          Composed fuel (.call (.classRef id) arguments line) m
            (value :: .object m.store.objects.size :: .classRef id ::
              arguments)
            (pure (.object m.store.objects.size)) m₃ fun value => [value] :=
        .give (.hand (List.mem_cons_of_mem _ List.mem_cons_self))
      constructor
      · refine .bind hobject fun object m₁ hnew => ?_
        obtain ⟨rfl, rfl⟩ :
            m.store.objects.size = object ∧ m.withObject id = m₁ := by
          cases hnew
          exact ⟨rfl, rfl⟩
        refine .ask (fun _ _ => rfl) ?_
        cases hmethod :
            (m.withObject id).store.method? id initializerName with
        | none => exact .give (.hand List.mem_cons_self)
        | some method =>
            refine .bind (.bindMethod hmethod (.hand List.mem_cons_self)) ?_
            intro bound m₂ hbind
            exact .bind (.enter (hhanded hmethod hbind))
              fun value m₃ _ => hlast value m₃
      · intro task' m' henters
        cases henters with
        | construct hmethod hbind =>
            refine .second hobject rfl ?_
            refine .ask (fun _ _ => rfl) hmethod ?_
            refine .second (.bindMethod hmethod (.hand List.mem_cons_self))
              hbind ?_
            exact .first (.here (hhanded hmethod hbind))
              fun value m₃ _ => hlast value m₃
  | nil | bool | number | string | object =>
      refine ⟨.fail _ line, ?_⟩
      intro task' m' henters
      cases henters

/-- What a call gives when the body has been carried out. -/
theorem Composed.outcome (function : Function) (completion : Completion) :
    (∀ value ∈ completion.values, value ∈ hand) →
    Composed fuel task start hand
      (if function.initializer then
        Step.ask (fun machine =>
          machine.store.readAt function.closure 0 "this") >>= orDefect
      else
        match completion with
        | .normal => Pure.pure .nil
        | .returned value => Pure.pure value) m fun value => [value] := by
  intro h
  split
  · exact .readAt 0 "this" fun _ _ => rfl
  · cases completion with
    | normal => exact .give (.plain rfl)
    | returned value => exact .give (.hand (h value List.mem_cons_self))

theorem shape_invoke
    (fuel : Nat) (function : Function) (arguments : List Value) (m : Machine) :
    Shape fuel (.invoke function arguments) m := by
  constructor
  · simp only [Task.run, Step.invoke_succ]
    exact .bind (.nest .body) fun completion m₁ _ =>
      .outcome function completion fun _ => List.mem_append_left arguments
  · intro task' m' henters
    cases henters with
    | body =>
        simp only [Task.run, Step.invoke_succ]
        exact .first (.nest .body rfl) fun completion m₁ _ =>
          .outcome function completion fun _ => List.mem_append_left arguments

/-! ## Statements -/

theorem Composed.done :
    Composed fuel task start hand (Pure.pure .normal) m Completion.values :=
  .pure (List.forall_mem_nil _)

theorem Composed.unlessReturned
    {next : Step Completion} (completion : Completion) :
    (∀ value ∈ completion.values, value ∈ hand) →
    (completion = .normal →
      Composed fuel task start hand next m Completion.values) →
    Composed fuel task start hand
      (match completion with
        | .normal => next
        | .returned value => Pure.pure (.returned value)) m
      Completion.values := by
  intro hhand hnext
  cases completion with
  | normal => exact hnext rfl
  | returned value => exact .pure fun value hvalue => .hand (hhand value hvalue)

theorem Composed.ite
    {test : Bool} {yes no : Step Completion}
    (hyes : test = true →
      Composed fuel task start hand yes m Completion.values)
    (hno : test = false →
      Composed fuel task start hand no m Completion.values) :
    Composed fuel task start hand (if test then yes else no) m
      Completion.values := by
  cases test with
  | true => exact hyes rfl
  | false => exact hno rfl

theorem Composed.branch
    {condition : Expr} {yes : Stmt} {no : Option Stmt} {value : Value}
    {m₁ : Machine} (hcondition : eval fuel condition m = .ok value m₁) :
    Composed fuel (.exec (.branch condition yes no)) m [value]
      (if value.isTruthy then exec fuel yes
        else match no with
          | some no => exec fuel no
          | none => Pure.pure .normal) m₁ Completion.values := by
  refine .ite (fun htruthy => ?_) fun htruthy => ?_
  · refine .enter (.exec (.thenBranch hcondition htruthy) ?_)
    cases no <;> simp [Task.declares, Stmt.declares]
  · cases no with
    | none => exact .done
    | some no =>
        exact .enter (.exec (.elseBranch hcondition htruthy)
          (List.subset_append_right _ _))

theorem Composed.subclass
    {name : Ident} {expr : Expr} {methods : List FunctionDecl} {value : Value}
    {m₁ m₂ : Machine} (hdefine : Step.define name.name .nil m = .ok () m₁)
    (heval : eval fuel expr m₁ = .ok value m₂) :
    Composed fuel (.exec (.classDecl name (some expr) methods)) m [value]
      (match value with
        | .classRef id =>
            declareClass name (some id) methods >>= fun _ =>
              Pure.pure Completion.normal
        | _ =>
            (Step.fail (.typeMismatch .classAsSuperclass) name.line :
              Step Unit) >>= fun _ => Pure.pure Completion.normal) m₂
      Completion.values := by
  cases value with
  | classRef id =>
      exact .bind (.declareDerived hdefine heval List.mem_cons_self)
        fun _ _ _ => .done
  | _ => exact .throw (by simp)

private theorem shape_exec (fuel : Nat) (stmt : Stmt) (m : Machine) :
    Shape fuel (.exec stmt) m := by
  cases stmt with
  | expression expr =>
      have hrest (value : Value) (m₁ : Machine)
          (_ : eval fuel expr m = .ok value m₁) :
          Composed fuel (.exec (.expression expr)) m [value]
            (pure .normal) m₁ Completion.values :=
        .done
      refine ⟨.bind (.enter (.eval .expression)) hrest, ?_⟩
      intro task' m' henters
      cases henters with
      | expression => exact .first (.here (.eval .expression)) hrest
  | print expr =>
      have hrest (value : Value) (m₁ : Machine)
          (heval : eval fuel expr m = .ok value m₁) :
          Composed fuel (.exec (.print expr)) m [value]
            (Step.print value >>= fun _ => pure Completion.normal) m₁
            Completion.values :=
        .bind (.print rfl heval) fun _ _ _ => .done
      refine ⟨.bind (.enter (.eval .print)) hrest, ?_⟩
      intro task' m' henters
      cases henters with
      | print => exact .first (.here (.eval .print)) hrest
  | var name initializer =>
      have hrest {value : Value} {hand : List Value} {m₁ : Machine}
          (hvalue : m₁.Offers hand value) :
          Composed fuel (.exec (.var name initializer)) m hand
            (Step.define name.name value >>= fun _ => pure Completion.normal)
            m₁ Completion.values :=
        .bind (.define (List.mem_singleton.mpr rfl) hvalue) fun _ _ _ => .done
      cases initializer with
      | none =>
          refine ⟨hrest (.plain rfl), ?_⟩
          intro task' m' henters
          cases henters
      | some initializer =>
          have hinitialize (value : Value) (m₁ : Machine)
              (_ : eval fuel initializer m = .ok value m₁) :
              Composed fuel (.exec (.var name (some initializer))) m [value]
                (Step.define name.name value >>= fun _ =>
                  pure Completion.normal) m₁ Completion.values :=
            hrest (.hand List.mem_cons_self)
          refine ⟨.bind (.enter (.eval .initializer)) hinitialize, ?_⟩
          intro task' m' henters
          cases henters with
          | initializer =>
              exact .first (.here (.eval .initializer)) hinitialize
  | block body =>
      constructor
      · simp only [Task.run, exec_block]
        exact .ask (fun _ _ => rfl) (.nest .block)
      · intro task' m' henters
        cases henters with
        | block =>
            simp only [Task.run, exec_block]
            exact .ask (fun _ _ => rfl) rfl (.nest .block rfl)
  | branch condition yes no =>
      refine ⟨.bind (.enter (.eval .condition))
        fun value m₁ hcondition => .branch hcondition, ?_⟩
      intro task' m' henters
      cases henters with
      | condition =>
          exact .first (.here (.eval .condition))
            fun value m₁ hcondition => .branch hcondition
      | thenBranch hcondition htruthy =>
          refine .second (.enter (.eval .condition)) hcondition ?_
          simp only [htruthy, ↓reduceIte]
          refine .here (.exec (.thenBranch hcondition htruthy) ?_)
          cases no <;> simp [Task.declares, Stmt.declares]
      | elseBranch hcondition htruthy =>
          refine .second (.enter (.eval .condition)) hcondition ?_
          simp only [htruthy, Bool.false_eq_true, ↓reduceIte]
          exact .here (.exec (.elseBranch hcondition htruthy)
            (List.subset_append_right _ _))
  | loop condition body =>
      have hhanded : Handed fuel (.exec (.loop condition body)) m
          (.rounds condition body) m [] :=
        ⟨.loop, List.Subset.refl _, List.nil_subset _⟩
      refine ⟨.enter hhanded, ?_⟩
      intro task' m' henters
      cases henters with
      | loop => exact .here hhanded
  | function declaration =>
      refine ⟨.bind (.declareFunction declaration) fun _ _ _ => .done, ?_⟩
      intro task' m' henters
      cases henters
  | ret line value =>
      cases value with
      | none =>
          refine ⟨.pure (List.forall_mem_singleton.mpr (.plain rfl)), ?_⟩
          intro task' m' henters
          cases henters
      | some value =>
          have hrest (result : Value) (m₁ : Machine) :
              Composed fuel (.exec (.ret line (some value))) m [result]
                (pure (.returned result)) m₁ Completion.values :=
            .pure fun other hother => .hand hother
          refine ⟨.bind (.enter (.eval .returned))
            fun result m₁ _ => hrest result m₁, ?_⟩
          intro task' m' henters
          cases henters with
          | returned =>
              exact .first (.here (.eval .returned))
                fun result m₁ _ => hrest result m₁
  | classDecl name superclass methods =>
      have hdefine :
          Composed fuel (.exec (.classDecl name superclass methods)) m []
            (Step.define name.name .nil) m fun _ => [] :=
        .define (List.mem_singleton.mpr rfl) (.plain rfl)
      cases superclass with
      | none =>
          refine ⟨.bind hdefine fun _ m₁ hdefined => ?_, ?_⟩
          · exact .bind (.declareBase hdefined) fun _ _ _ => .done
          · intro task' m' henters
            cases henters
      | some superclass =>
          refine ⟨.bind hdefine fun _ m₁ hdefined => ?_, ?_⟩
          · exact .bind (.enter (.eval (.superclass hdefined)))
              fun value m₂ heval => .subclass hdefined heval
          · intro task' m' henters
            cases henters with
            | superclass hdefined =>
                refine .second hdefine hdefined ?_
                exact .first (.here (.eval (.superclass hdefined)))
                  fun value m₂ heval => .subclass hdefined heval

private theorem shape_execAll (fuel : Nat) (stmts : List Stmt) (m : Machine) :
    Shape fuel (.execAll stmts) m := by
  cases stmts with
  | nil =>
      refine ⟨.done, ?_⟩
      intro task' m' henters
      cases henters
  | cons stmt stmts =>
      have hfirst {hand : List Value} :
          Handed fuel (.execAll (stmt :: stmts)) m (.exec stmt) m hand :=
        .exec .first (List.subset_append_left _ _)
      have hnext {m₁ : Machine} {hand : List Value}
          (h : exec fuel stmt m = .ok .normal m₁) :
          Handed fuel (.execAll (stmt :: stmts)) m (.execAll stmts) m₁ hand :=
        ⟨.next h, List.subset_append_right _ _, List.nil_subset _⟩
      have hrest (completion : Completion) (m₁ : Machine)
          (h : exec fuel stmt m = .ok completion m₁) :=
        Composed.unlessReturned completion
          (fun _ => List.mem_append_left []) fun hnormal =>
          .enter (hnext (hnormal ▸ h))
      refine ⟨.bind (.enter hfirst) hrest, ?_⟩
      intro task' m' henters
      cases henters with
      | first => exact .first (.here hfirst) hrest
      | next h => exact .second (.enter hfirst) h (.here (hnext h))

private theorem shape_rounds
    (fuel : Nat) (condition : Expr) (body : Stmt) (m : Machine) :
    Shape fuel (.rounds condition body) m := by
  have hround {value : Value} {m₁ : Machine} {hand : List Value}
      (htest : eval fuel condition m = .ok value m₁)
      (htruthy : value.isTruthy = true) :
      Handed fuel (.rounds condition body) m (.exec body) m₁ hand :=
    .exec (.roundBody htest htruthy) (List.Subset.refl _)
  have hagain {value : Value} {m₁ m₂ : Machine} {hand : List Value}
      (htest : eval fuel condition m = .ok value m₁)
      (htruthy : value.isTruthy = true)
      (hbody : exec fuel body m₁ = .ok .normal m₂) :
      Handed fuel (.rounds condition body) m (.rounds condition body) m₂
        hand :=
    ⟨.nextRound htest htruthy hbody, List.Subset.refl _, List.nil_subset _⟩
  have hnext (value : Value) (m₁ : Machine)
      (htest : eval fuel condition m = .ok value m₁)
      (htruthy : value.isTruthy = true) (completion : Completion)
      (m₂ : Machine) (hbody : exec fuel body m₁ = .ok completion m₂) :=
    Composed.unlessReturned completion
      (fun _ => List.mem_append_left [value]) fun hnormal =>
      .enter (hagain htest htruthy (hnormal ▸ hbody))
  have hrest (value : Value) (m₁ : Machine)
      (htest : eval fuel condition m = .ok value m₁) :
      Composed fuel (.rounds condition body) m [value] _ m₁
        Completion.values :=
    .ite (fun htruthy => .bind (.enter (hround htest htruthy))
      (hnext value m₁ htest htruthy)) fun _ => .done
  refine ⟨.bind (.enter (.eval .roundCondition)) hrest, ?_⟩
  intro task' m' henters
  cases henters with
  | roundCondition => exact .first (.here (.eval .roundCondition)) hrest
  | roundBody htest htruthy =>
      refine .second (.enter (.eval .roundCondition)) htest ?_
      simp only [htruthy, ↓reduceIte]
      exact .first (.here (hround htest htruthy)) (hnext _ _ htest htruthy)
  | nextRound htest htruthy hbody =>
      refine .second (.enter (.eval .roundCondition)) htest ?_
      simp only [htruthy, ↓reduceIte]
      exact .second (.enter (hround htest htruthy)) hbody
        (.here (hagain htest htruthy hbody))

/-- Every task is made up in this way. -/
theorem shape (fuel : Nat) (task : Task) (m : Machine) :
    Shape fuel task m := by
  cases task with
  | eval expr => exact shape_eval fuel expr m
  | evalAll exprs => exact shape_evalAll fuel exprs m
  | call callee arguments line => exact shape_call fuel callee arguments line m
  | invoke function arguments => exact shape_invoke fuel function arguments m
  | exec stmt => exact shape_exec fuel stmt m
  | execAll stmts => exact shape_execAll fuel stmts m
  | rounds condition body => exact shape_rounds fuel condition body m

end
end Step

/-! ## What a task leaves in place -/

theorem Part.later
    {fuel : Nat} {task : Task} {start m m₁ : Machine}
    {hand gained : List Value} (h : Part fuel task start hand m gained m₁) :
    m.Later task.declares m₁ := by
  cases h with
  | idle => exact .refl
  | tick => exact ⟨.refl, fun _ h => .inl h, rfl, rfl, rfl, rfl, rfl⟩
  | declare htask hname =>
      subst htask
      exact .define _ hname
  | assign _ hlocal => exact .overwrite _ hlocal
  | setField => exact .of_store (.setField ..) fun _ h => h
  | function | method => exact .of_store (.addFunction ..) fun _ h => h
  | this | super => exact .addFrame _
  | addClass => exact .of_store (.addClass ..) fun _ h => h
  | addObject => exact .of_store (.addObject ..) fun _ h => h

namespace Step

/-- Every task, however it ends, leaves in place what was there, comes back to
its frame and declares nothing but its own names in it. -/
theorem run_keeps (fuel : Nat) (task : Task) :
    (task.run fuel).Keeps task.declares := by
  induction fuel generalizing task with
  | zero =>
      intro m
      cases task <;> exact Machine.Later.refl
  | succ fuel ih =>
      intro m
      have hinv : Invariant fuel task m
          fun _ m₁ => m.Later task.declares m₁ := by
        constructor
        · exact fun _ h => h
        · exact fun hpart h => h.trans hpart.later
        · exact fun h => ⟨h.grows, h.gains, h.current, h.globals, h.distances,
            h.clock, h.host⟩
        · intro hand m₁ task' hhanded h
          refine (ih task' m₁).mono (fun _ _ _ h' => ?_) fun _ _ h' => ?_
          · exact h.trans (h'.mono hhanded.names)
          · exact h.trans (h'.mono hhanded.names)
        · intro task' parent names _ _
          exact (ih task' _).mono (fun _ _ _ h => h.within)
            fun _ _ h => h.within
      exact (shape fuel task m).composed.ends hinv .refl

end Step
end LoxLang
