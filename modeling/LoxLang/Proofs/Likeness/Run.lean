import LoxLang.Proofs.Likeness.Machine
import LoxLang.Proofs.Run.Task

/-!
# Running alike programs

Alike programs, run on alike machines, take the same steps: they print the
same, and they end in the same way and on alike machines.  The proof is by
induction on the bound of the runs, with one case for each kind of expression
and statement.
-/

namespace LoxLang

namespace Step

section
variable {like : Likeness}

/-! ## Methods and properties -/

theorem bindMethod_alike
    {method method' : Function} (hmethod : method.Alike like method')
    (object : ObjectId) :
    RunsAlike like (Function.Alike like) (bindMethod method object)
      (bindMethod method' object) := by
  unfold bindMethod
  rw [← hmethod.closure]
  refine (addFrame_alike _ _).bindSame fun frame => coupled_pure ?_
  exact ⟨hmethod.declaration, rfl, hmethod.initializer⟩

private theorem methodValue_alike
    {method method' : Function} (hmethod : method.Alike like method')
    (object : ObjectId) :
    RunsAlike like Eq (methodValue method object)
      (methodValue method' object) := by
  refine (bindMethod_alike hmethod object).bind fun bound bound' hbound => ?_
  have hadded : RunsAlike like Eq
      (onStore fun store => store.addFunction bound)
      (onStore fun store => store.addFunction bound') :=
    onStore_alike fun _ _ h => h.addFunction hbound
  exact hadded.bindSame fun id => coupled_pure rfl

theorem getProperty_alike
    {name name' : Ident} (object : ObjectId)
    (hname : name.Alike like name') :
    RunsAlike like Eq (getProperty object name)
      (getProperty object name') := by
  unfold getProperty
  rw [← hname.name]
  have hfield : RunsAlike like Eq
      (ask fun machine => machine.store.field? object name.name)
      (ask fun machine => machine.store.field? object name.name) :=
    ask_alike fun _ _ hm => hm.store.field? object name.name
  refine hfield.bindSame fun field => ?_
  cases field with
  | some value => exact coupled_pure rfl
  | none =>
      have hmethod : RunsAlike like (Paired (Function.Alike like))
          (ask fun machine => machine.store.objects[object]?.bind
            fun o => machine.store.method? o.classId name.name)
          (ask fun machine => machine.store.objects[object]?.bind
            fun o => machine.store.method? o.classId name.name) := by
        refine ask_alike fun m m' hm => ?_
        rw [← hm.store.objects]
        cases m.store.objects[object]? with
        | none => exact .none
        | some o => exact hm.store.method? o.classId name.name
      refine hmethod.bind fun found found' hfound => ?_
      cases hfound with
      | none => exact fail_alike _ hname.line
      | some hfound => exact methodValue_alike hfound object

theorem setProperty_alike
    (object : ObjectId) (name : String) (value : Value) :
    RunsAlike like Eq (setProperty object name value)
      (setProperty object name value) :=
  fun _ _ hm =>
    .ok rfl (hm.withStore (hm.store.setField object name value))

theorem superMethod_alike
    {id id' : PlaceId} {line line' : Nat} {method method' : Ident}
    (hplace : like.place id id') (hline : like.line line line')
    (hmethod : method.Alike like method') :
    RunsAlike like Eq (superMethod id line method)
      (superMethod id' line' method') := by
  have hdistance : RunsAlike like Eq (distance? id) (distance? id') :=
    ask_alike fun _ _ hm => hm.distances hplace
  have hread (distance : Nat) (name : String) : RunsAlike like Eq
      (orDefect =<< ask fun machine =>
        machine.store.readAt machine.current distance name)
      (orDefect =<< ask fun machine =>
        machine.store.readAt machine.current distance name) := by
    refine askDefect_alike fun m m' hm => ?_
    rw [← hm.current, Store.readAt_congr hm.store.frames]
  refine hdistance.bindSame fun distance => ?_
  cases distance with
  | none => exact fail_alike _ hline
  | some distance =>
      refine (hread distance "super").bindSame fun superclass => ?_
      refine (hread (innerDistance distance) "this").bindSame fun object => ?_
      have hslots : RunsAlike like (@Eq Value)
          (throw (.defect (.superSlots line)))
          (throw (.defect (.superSlots line'))) :=
        coupled_throw (.defect (.superSlots hline))
      cases superclass with
      | classRef superclass =>
          cases object with
          | object object =>
              have hfind := @askMethod_alike like _ _ superclass hmethod.name
              refine hfind.bind fun found found' hfound => ?_
              cases hfound with
              | none =>
                  dsimp only
                  rw [← hmethod.name]
                  exact fail_alike _ hmethod.line
              | some hfound => exact methodValue_alike hfound object
          | _ => exact hslots
      | _ => exact hslots

theorem orMismatch_alike
    {line line' : Nat} (hline : like.line line line')
    (result : Except Mismatch Value) :
    RunsAlike like Eq (orMismatch line result) (orMismatch line' result) := by
  cases result with
  | ok value => exact coupled_pure rfl
  | error mismatch => exact fail_alike _ hline

theorem callNative_alike
    {line line' : Nat} (native : Native) (arguments : List Value)
    (hline : like.line line line') :
    RunsAlike like Eq (callNative native arguments line)
      (callNative native arguments line') := by
  cases native with
  | clock => exact readClock_alike
  | lent id name arity =>
      refine (askHost_alike id arguments).bindSame fun given => ?_
      cases given with
      | ok value => exact coupled_pure rfl
      | error message => exact fail_alike _ hline

/-! ## Declarations -/

theorem bindParams_alike
    {params params' : List Ident}
    (hparams : List.Forall₂ (Ident.Alike like) params params')
    (arguments : List Value) :
    bindParams params arguments = bindParams params' arguments := by
  unfold bindParams
  generalize (Bindings.empty : Bindings Value) = names
  induction hparams generalizing arguments names with
  | nil => rfl
  | cons hparam _ ih =>
      cases arguments with
      | nil => rfl
      | cons value arguments =>
          simp only [List.zip_cons_cons, List.foldl_cons, hparam.name]
          exact ih arguments _

private theorem methodTable_alike
    {methods methods' : List FunctionDecl} (closure : FrameId)
    (hmethods : FunctionDecl.AllAlike like methods methods') :
    (methodTable closure methods).Related (Function.Alike like)
      (methodTable closure methods') := by
  have hfold {table table' : Bindings Function}
      (htable : table.Related (Function.Alike like) table') :
      Bindings.Related (Function.Alike like)
        (methods.foldl
          (fun table method => table.put method.name.name
            ⟨method, closure, method.name.name = initializerName⟩) table)
        (methods'.foldl
          (fun table method => table.put method.name.name
            ⟨method, closure, method.name.name = initializerName⟩)
          table') := by
    induction methods generalizing methods' table table' with
    | nil =>
        cases hmethods
        exact htable
    | cons method methods ih =>
        cases hmethods with
        | @cons _ method' _ methods' hmethod hmethods =>
            refine ih hmethods ?_
            dsimp only
            rw [← hmethod.name.name]
            exact htable.put _ ⟨hmethod, rfl, rfl⟩
  exact hfold .empty

theorem declareFunction_alike
    {declaration declaration' : FunctionDecl}
    (h : declaration.Alike like declaration') :
    RunsAlike like Eq (declareFunction declaration)
      (declareFunction declaration') := by
  refine askCurrent_alike.bindSame fun closure => ?_
  have hadded : RunsAlike like Eq
      (onStore fun store => store.addFunction ⟨declaration, closure, false⟩)
      (onStore fun store =>
        store.addFunction ⟨declaration', closure, false⟩) :=
    onStore_alike fun _ _ hs => hs.addFunction ⟨h, rfl, rfl⟩
  refine hadded.bindSame fun id => ?_
  exact define_alike h.name.name _

theorem declareClass_alike
    {name name' : Ident} {methods methods' : List FunctionDecl}
    (hname : name.Alike like name') (superclass : Option ClassId)
    (hmethods : FunctionDecl.AllAlike like methods methods') :
    RunsAlike like Eq (declareClass name superclass methods)
      (declareClass name' superclass methods') := by
  have hmade (closure : FrameId) : RunsAlike like Eq
      (do
        let id ← onStore fun store => store.addClass
          ⟨name.name, superclass, methodTable closure methods⟩
        assignHere name (.classRef id))
      (do
        let id ← onStore fun store => store.addClass
          ⟨name'.name, superclass, methodTable closure methods'⟩
        assignHere name' (.classRef id)) := by
    refine Coupled.bindSame ?_ fun id => assignHere_alike hname _
    exact onStore_alike fun _ _ hs =>
      hs.addClass ⟨hname.name, rfl, methodTable_alike closure hmethods⟩
  rw [declareClass_eq, declareClass_eq]
  refine askCurrent_alike.bindSame fun current => ?_
  cases superclass with
  | none => exact hmade current
  | some id => exact (addFrame_alike _ _).bindSame hmade

end

end Step

/-! ## Expressions and statements -/

/-- Each kind of task runs alike. -/
structure TasksAlike (like : Likeness) (fuel : Nat) : Prop where
  eval : ∀ {expr expr'}, expr.Alike like expr' →
    RunsAlike like Eq (Step.eval fuel expr) (Step.eval fuel expr')
  evalAll : ∀ {exprs exprs'}, Expr.AllAlike like exprs exprs' →
    RunsAlike like Eq (Step.evalAll fuel exprs) (Step.evalAll fuel exprs')
  call : ∀ {line line'} callee arguments, like.line line line' →
    RunsAlike like Eq (Step.call fuel callee arguments line)
      (Step.call fuel callee arguments line')
  invoke : ∀ {function function'} arguments,
    function.Alike like function' →
    RunsAlike like Eq (Step.invoke fuel function arguments)
      (Step.invoke fuel function' arguments)
  exec : ∀ {stmt stmt'}, stmt.Alike like stmt' →
    RunsAlike like Eq (Step.exec fuel stmt) (Step.exec fuel stmt')
  execAll : ∀ {stmts stmts'}, Stmt.AllAlike like stmts stmts' →
    RunsAlike like Eq (Step.execAll fuel stmts) (Step.execAll fuel stmts')
  repeatWhile : ∀ {test test' body body'}, test.Alike like test' →
    body.Alike like body' →
    RunsAlike like Eq (Step.repeatWhile fuel test body)
      (Step.repeatWhile fuel test' body')

namespace TasksAlike

section
variable {like : Likeness} {fuel : Nat}

theorem eval_succ
    {expr expr' : Expr} (ih : TasksAlike like fuel)
    (h : expr.Alike like expr') :
    RunsAlike like Eq (Step.eval (fuel + 1) expr)
      (Step.eval (fuel + 1) expr') := by
  unfold Step.eval
  cases h with
  | literal => exact coupled_pure rfl
  | group inner => exact ih.eval inner
  | unary operand line =>
      exact (ih.eval operand).bindSame fun value =>
        Step.orMismatch_alike line _
  | binary left right line =>
      exact (ih.eval left).bindSame fun a =>
        (ih.eval right).bindSame fun b => Step.orMismatch_alike line _
  | logical left right =>
      refine (ih.eval left).bindSame fun value => ?_
      split
      · exact coupled_pure rfl
      · exact ih.eval right
  | read place name => exact Step.readName_alike place name
  | assign place name value =>
      refine (ih.eval value).bindSame fun v => ?_
      exact (Step.writeName_alike place name v).bindSame fun _ =>
        coupled_pure rfl
  | call callee line arguments =>
      refine (ih.eval callee).bindSame fun v => ?_
      refine (ih.evalAll arguments).bindSame fun values => ?_
      have harity : RunsAlike like Eq
          (Step.ask fun machine => machine.store.arity? v)
          (Step.ask fun machine => machine.store.arity? v) :=
        Step.ask_alike fun _ _ hm => hm.store.arity? v
      refine harity.bindSame fun arity => ?_
      cases arity with
      | none => exact Step.fail_alike _ line
      | some arity =>
          dsimp only
          split
          · exact ih.call v values line
          · exact Step.fail_alike _ line
  | get object name =>
      refine (ih.eval object).bindSame fun v => ?_
      cases v with
      | object id => exact Step.getProperty_alike id name
      | _ => exact Step.fail_alike _ name.line
  | set object name value =>
      refine (ih.eval object).bindSame fun v => ?_
      cases v with
      | object id =>
          refine (ih.eval value).bindSame fun v => ?_
          rw [← name.name]
          exact (Step.setProperty_alike id _ v).bindSame fun _ =>
            coupled_pure rfl
      | _ => exact Step.fail_alike _ name.line
  | this place line => exact Step.readName_alike place ⟨rfl, line⟩
  | super place line name => exact Step.superMethod_alike place line name

theorem evalAll_succ
    {exprs exprs' : List Expr} (ih : TasksAlike like fuel)
    (h : Expr.AllAlike like exprs exprs') :
    RunsAlike like Eq (Step.evalAll (fuel + 1) exprs)
      (Step.evalAll (fuel + 1) exprs') := by
  cases h with
  | nil => exact coupled_pure rfl
  | cons first rest =>
      unfold Step.evalAll
      refine (ih.eval first).bindSame fun value => ?_
      exact (ih.evalAll rest).bindSame fun values => coupled_pure rfl

theorem call_succ
    {line line' : Nat} (ih : TasksAlike like fuel) (callee : Value)
    (arguments : List Value) (hline : like.line line line') :
    RunsAlike like Eq (Step.call (fuel + 1) callee arguments line)
      (Step.call (fuel + 1) callee arguments line') := by
  unfold Step.call
  cases callee with
  | native native => exact Step.callNative_alike native arguments hline
  | function id =>
      have hfind : RunsAlike like (Paired (Function.Alike like))
          (Step.ask fun machine => machine.store.functions[id]?)
          (Step.ask fun machine => machine.store.functions[id]?) :=
        Step.ask_alike fun _ _ hm => hm.store.functions id
      refine hfind.bind fun found found' hfound => ?_
      cases hfound with
      | none => exact Step.fail_alike _ hline
      | some hfunction => exact ih.invoke arguments hfunction
  | classRef id =>
      have hadded : RunsAlike like Eq
          (Step.onStore fun store => store.addObject ⟨id, .empty⟩)
          (Step.onStore fun store => store.addObject ⟨id, .empty⟩) :=
        Step.onStore_alike fun _ _ hs => hs.addObject _
      refine hadded.bindSame fun object => ?_
      refine (Step.askMethod_alike id rfl).bind fun found found' hfound => ?_
      cases hfound with
      | none => exact coupled_pure rfl
      | some hmethod =>
          refine (Step.bindMethod_alike hmethod object).bind
            fun bound bound' hbound => ?_
          exact (ih.invoke arguments hbound).bindSame fun _ =>
            coupled_pure rfl
  | _ => exact Step.fail_alike _ hline

theorem invoke_succ
    {function function' : Function} (ih : TasksAlike like fuel)
    (arguments : List Value) (h : function.Alike like function') :
    RunsAlike like Eq (Step.invoke (fuel + 1) function arguments)
      (Step.invoke (fuel + 1) function' arguments) := by
  unfold Step.invoke
  rw [← h.closure, ← h.initializer,
    ← Step.bindParams_alike h.declaration.params]
  refine (Step.addFrame_alike _ _).bindSame fun frame => ?_
  have hbody := Step.inFrame_alike frame (ih.execAll h.declaration.body)
  refine hbody.bindSame fun completion => ?_
  split
  · refine Step.askDefect_alike fun _ _ hm => ?_
    exact Store.readAt_congr hm.store.frames _ _ _
  · cases completion with
    | normal => exact coupled_pure rfl
    | returned value => exact coupled_pure rfl

private theorem exec_succ
    {stmt stmt' : Stmt} (ih : TasksAlike like fuel)
    (h : stmt.Alike like stmt') :
    RunsAlike like Eq (Step.exec (fuel + 1) stmt)
      (Step.exec (fuel + 1) stmt') := by
  cases h with
  | expression expr =>
      unfold Step.exec
      exact (ih.eval expr).bindSame fun _ => coupled_pure rfl
  | print expr =>
      unfold Step.exec
      refine (ih.eval expr).bindSame fun value => ?_
      exact (Step.print_alike value).bindSame fun _ => coupled_pure rfl
  | var name initial =>
      cases initial with
      | none =>
          unfold Step.exec
          exact (Step.define_alike name.name _).bindSame fun _ =>
            coupled_pure rfl
      | some initial =>
          unfold Step.exec
          refine (ih.eval initial).bindSame fun value => ?_
          exact (Step.define_alike name.name _).bindSame fun _ =>
            coupled_pure rfl
  | block body =>
      unfold Step.exec
      refine Step.askCurrent_alike.bindSame fun current => ?_
      refine (Step.addFrame_alike _ _).bindSame fun frame => ?_
      exact Step.inFrame_alike frame (ih.execAll body)
  | branch test yes no =>
      unfold Step.exec
      refine (ih.eval test).bindSame fun value => ?_
      split
      · exact ih.exec yes
      · cases no with
        | none => exact coupled_pure rfl
        | some no => exact ih.exec no
  | loop test body =>
      unfold Step.exec
      exact ih.repeatWhile test body
  | function declaration =>
      unfold Step.exec
      exact (Step.declareFunction_alike declaration).bindSame fun _ =>
        coupled_pure rfl
  | ret line value =>
      cases value with
      | none => exact coupled_pure rfl
      | some value =>
          unfold Step.exec
          exact (ih.eval value).bindSame fun _ => coupled_pure rfl
  | classDecl name parent methods =>
      unfold Step.exec
      refine (Step.define_alike name.name _).bindSame fun _ => ?_
      cases parent with
      | none =>
          exact (Step.declareClass_alike name none methods).bindSame
            fun _ => coupled_pure rfl
      | some parent =>
          refine (ih.eval parent).bindSame fun value => ?_
          cases value with
          | classRef id =>
              exact (Step.declareClass_alike name (some id) methods).bindSame
                fun _ => coupled_pure rfl
          | _ =>
              have hfail : RunsAlike like (@Eq Unit)
                  (Step.fail (.typeMismatch .classAsSuperclass) _)
                  (Step.fail (.typeMismatch .classAsSuperclass) _) :=
                Step.fail_alike _ name.line
              exact hfail.bindSame fun _ => coupled_pure rfl

private theorem execAll_succ
    {stmts stmts' : List Stmt} (ih : TasksAlike like fuel)
    (h : Stmt.AllAlike like stmts stmts') :
    RunsAlike like Eq (Step.execAll (fuel + 1) stmts)
      (Step.execAll (fuel + 1) stmts') := by
  cases h with
  | nil => exact coupled_pure rfl
  | cons first rest =>
      unfold Step.execAll
      refine (ih.exec first).bindSame fun completion => ?_
      cases completion with
      | normal => exact ih.execAll rest
      | returned value => exact coupled_pure rfl

private theorem repeatWhile_succ
    {test test' : Expr} {body body' : Stmt} (ih : TasksAlike like fuel)
    (htest : test.Alike like test') (hbody : body.Alike like body') :
    RunsAlike like Eq (Step.repeatWhile (fuel + 1) test body)
      (Step.repeatWhile (fuel + 1) test' body') := by
  unfold Step.repeatWhile
  refine (ih.eval htest).bindSame fun value => ?_
  split
  · refine (ih.exec hbody).bindSame fun completion => ?_
    cases completion with
    | normal => exact ih.repeatWhile htest hbody
    | returned value => exact coupled_pure rfl
  · exact coupled_pure rfl

end

end TasksAlike

theorem tasksAlike (like : Likeness) (fuel : Nat) : TasksAlike like fuel := by
  induction fuel with
  | zero =>
      have hout {α : Type} :
          RunsAlike like (@Eq α) (throw .outOfFuel) (throw .outOfFuel) :=
        coupled_throw .outOfFuel
      exact ⟨fun _ => hout, fun _ => hout, fun _ _ _ => hout,
        fun _ _ => hout, fun _ => hout, fun _ => hout, fun _ _ => hout⟩
  | succ fuel ih =>
      exact ⟨ih.eval_succ, ih.evalAll_succ, ih.call_succ, ih.invoke_succ,
        ih.exec_succ, ih.execAll_succ, ih.repeatWhile_succ⟩

theorem Step.runProgram_alike
    {like : Likeness} {program program' : Program} (fuel : Nat)
    (h : Stmt.AllAlike like program program') :
    RunsAlike like Eq (Step.runProgram fuel program)
      (Step.runProgram fuel program') := by
  intro m m' hm
  have hexec := (tasksAlike like fuel).execAll h m m' hm
  unfold Step.runProgram
  generalize Step.execAll fuel program m = result at hexec ⊢
  generalize Step.execAll fuel program' m' = result' at hexec ⊢
  cases hexec with
  | @ok completion _ _ _ hsame hafter =>
      subst hsame
      cases completion with
      | normal => exact Step.flush_alike _ _ hafter
      | returned value => exact .error (.defect .same) hafter
  | @error _ _ m₁ m₁' hhalt hafter =>
      cases hhalt with
      | fault he =>
          have hflush := @Step.flush_alike like _ _ hafter
          dsimp only
          generalize Step.flush m₁ = flushed at hflush ⊢
          generalize Step.flush m₁' = flushed' at hflush ⊢
          cases hflush with
          | ok _ hflushed => exact .error (.fault he) hflushed
          | error hhalt hflushed => exact .error hhalt hflushed
      | output => exact .error .output hafter
      | defect hd => exact .error (.defect hd) hafter
      | outOfFuel => exact .error .outOfFuel hafter

end LoxLang
