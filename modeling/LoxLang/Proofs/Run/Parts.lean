import LoxLang.Proofs.Run.Growth

/-!
# The parts of a task

What a task can do, said once for all tasks.  A task is a sequence of parts.
Each of them is the one write of a `print`, or another task, which may be
carried out in a frame of its own, or one of a few changes of the store, which
`Part` lists together with what is known when the change is made: which task
makes it, and that the values it makes use of are at hand.

A property that each part keeps is kept by all tasks (`Composed.ends`), and it
also holds where a task hands over to another one (`Hands.reach`).  What is
true of every run follows from here, without another look at the evaluation.
-/

namespace LoxLang

/-- The machine with another sink. -/
def Machine.onto (machine : Machine) (sink : Sink) : Machine :=
  { machine with sink := sink }

namespace Step

/-! ## Steps without a sink -/

/-- The same end, with another sink. -/
def endOnto (sink : Sink) :
    EStateM.Result Halt Machine α → EStateM.Result Halt Machine α
  | .ok a m => .ok a (m.onto sink)
  | .error halt m => .error halt (m.onto sink)

/-- The step neither writes nor looks at the sink. -/
def Quiet (step : Step α) : Prop :=
  ∀ m sink, step (m.onto sink) = endOnto sink (step m)

theorem Quiet.bind
    {α β : Type} {step : Step α} {next : α → Step β}
    (hstep : step.Quiet) (hnext : ∀ a, (next a).Quiet) :
    (step >>= next).Quiet := by
  intro m sink
  change EStateM.bind step next (m.onto sink) =
    endOnto sink (EStateM.bind step next m)
  unfold EStateM.bind
  rw [hstep m sink]
  cases step m with
  | ok a m₁ => exact hnext a m₁ sink
  | error halt m₁ => rfl

theorem quiet_pure (a : α) : (pure a : Step α).Quiet :=
  fun _ _ => rfl

theorem quiet_throw (halt : Halt) : (throw halt : Step α).Quiet :=
  fun _ _ => rfl

theorem quiet_ask
    {question : Machine → α}
    (h : ∀ m sink, question (m.onto sink) = question m) :
    (ask question).Quiet := by
  intro m sink
  change EStateM.Result.ok (question (m.onto sink)) (m.onto sink) = _
  rw [h m sink]
  rfl

theorem quiet_onStore (change : Store → α × Store) :
    (onStore change).Quiet :=
  fun _ _ => rfl

theorem quiet_define (name : String) (value : Value) :
    (define name value).Quiet :=
  fun _ _ => rfl

theorem quiet_orDefect (result : Except Defect α) :
    (orDefect result).Quiet := by
  cases result with
  | ok a => exact quiet_pure a
  | error d => exact quiet_throw _

theorem quiet_readName (id : PlaceId) (name : Ident) :
    (readName id name).Quiet := by
  intro m sink
  unfold readName
  dsimp only [Machine.onto]
  cases m.distances.find? id with
  | none =>
      dsimp only
      cases m.store.lookup m.globals name <;> rfl
  | some distance =>
      dsimp only
      cases m.store.readAt m.current distance name.name <;> rfl

theorem quiet_writeName (id : PlaceId) (name : Ident) (value : Value) :
    (writeName id name value).Quiet := by
  intro m sink
  have hholder : (m.onto sink).holder id name = m.holder id name := rfl
  unfold writeName
  rw [hholder]
  cases m.holder id name <;> rfl

theorem quiet_assignHere (name : Ident) (value : Value) :
    (assignHere name value).Quiet := by
  intro m sink
  unfold assignHere
  dsimp only [Machine.onto]
  cases m.store.holder m.current name <;> rfl

theorem quiet_bindMethod (method : Function) (object : ObjectId) :
    (bindMethod method object).Quiet :=
  (quiet_onStore _).bind fun _ => quiet_pure _

end Step

namespace Store

/-! ## What is read from a store -/

theorem local?_of_readAt
    {store : Store} {frame : FrameId} {distance : Nat} {name : String}
    {value : Value} (h : store.readAt frame distance name = .ok value) :
    ∃ holder, store.local? holder name = some value := by
  unfold readAt at h
  split at h
  · cases h
  · split at h
    · rename_i holder _ _ _ hlocal
      cases h
      exact ⟨holder, hlocal⟩
    · cases h

theorem local?_of_lookup
    {store : Store} {frame : FrameId} {name : Ident} {value : Value}
    (h : store.lookup frame name = .ok value) :
    ∃ holder, store.local? holder name.name = some value := by
  unfold lookup at h
  split at h
  · rename_i hfound
    cases h
    obtain ⟨holder, -, hlocal⟩ := Option.bind_eq_some_iff.mp hfound
    exact ⟨holder, hlocal⟩
  · cases h

/-- A slot that is not there is no `return`. -/
theorem slot_ne_strayReturn
    (store : Store) (frame : FrameId) (distance : Nat) (name : String) :
    store.slot frame distance name ≠ .error .strayReturn := by
  unfold slot
  cases store.ancestor frame distance with
  | error left => simp
  | ok holder =>
      dsimp only
      split <;> simp

theorem readAt_ne_strayReturn
    (store : Store) (frame : FrameId) (distance : Nat) (name : String) :
    store.readAt frame distance name ≠ .error .strayReturn := by
  unfold readAt
  cases hslot : store.slot frame distance name with
  | error d =>
      rintro ⟨⟩
      exact slot_ne_strayReturn store frame distance name hslot
  | ok holder =>
      dsimp only
      split <;> simp

end Store

theorem Machine.holder_ne_strayReturn
    (m : Machine) (id : PlaceId) (name : Ident) :
    m.holder id name ≠ .error (.defect .strayReturn) := by
  unfold Machine.holder
  cases m.distances.find? id with
  | none => cases m.store.holder m.globals name <;> rintro ⟨⟩
  | some distance =>
      dsimp only
      cases hslot : m.store.slot m.current distance name.name with
      | ok holder => rintro ⟨⟩
      | error d =>
          rintro ⟨⟩
          exact Store.slot_ne_strayReturn _ _ _ _ hslot

namespace Value

theorem refers_unary
    {op : UnaryOp} {operand value : Value}
    (h : unary op operand = .ok value) : value.refers = false := by
  unfold unary at h
  split at h <;> cases h <;> rfl

private theorem refers_arithmetic (op : BinaryOp) (a b : Float) :
    (arithmetic op a b).refers = false := by
  cases op <;> rfl

theorem refers_binary
    {left right value : Value} {op : BinaryOp}
    (h : left.binary op right = .ok value) : value.refers = false := by
  unfold binary at h
  split at h <;> cases h
  · rfl
  · rfl
  · exact refers_arithmetic _ _ _
  · rfl

theorem refers_ofLiteral (literal : Literal) :
    (ofLiteral literal).refers = false := by
  cases literal <;> rfl

end Value

/-- Every entry of a method table is one of the declarations. -/
theorem Step.find?_methodTable
    {closure : FrameId} {methods : List FunctionDecl} {name : String}
    {method : Function}
    (hfind : (methodTable closure methods).find? name = some method) :
    ∃ declaration ∈ methods,
      method = ⟨declaration, closure,
        declaration.name.name = initializerName⟩ := by
  have hfold (table : Bindings Function)
      (h : (methods.foldl
        (fun table method =>
          table.put method.name.name
            ⟨method, closure, method.name.name = initializerName⟩)
        table).find? name = some method) :
      table.find? name = some method ∨
        ∃ declaration ∈ methods,
          method = ⟨declaration, closure,
            declaration.name.name = initializerName⟩ := by
    clear hfind
    induction methods generalizing table with
    | nil => exact .inl h
    | cons first rest ih =>
        cases ih _ h with
        | inl htable =>
            rw [Bindings.find?_put] at htable
            split at htable
            · cases htable
              exact .inr ⟨first, by simp, rfl⟩
            · exact .inl htable
        | inr hrest =>
            obtain ⟨declaration, hmem, heq⟩ := hrest
            exact .inr ⟨declaration, List.mem_cons_of_mem _ hmem, heq⟩
  cases hfold .empty hfind with
  | inl h => cases h
  | inr h => exact h

/-! ## What a task makes, takes and gives -/

open Step (methodTable bindMethod innerDistance)

/-- The task declares the class `cls`.  Up to `made`, all that was done is to
find out the superclass. -/
inductive Makes : Nat → Task → Machine → Class → Machine → Prop where
  | base :
      Step.define name.name .nil m = .ok () made →
      Makes (fuel + 1) (.exec (.classDecl name none methods)) m
        ⟨name.name, none, methodTable made.current methods⟩ made
  | derived :
      Step.define name.name .nil m = .ok () m₁ →
      Step.eval fuel expr m₁ = .ok (.classRef superclass) made →
      Makes (fuel + 1) (.exec (.classDecl name (some expr) methods)) m
        ⟨name.name, some superclass,
          methodTable made.store.frames.size methods⟩ made

/-- The task fetches a method from an instance, which gives the function
`bound`. -/
inductive Fetches :
    Nat → Task → Machine → Function → ObjectId → Function → Prop where
  | get :
      Step.eval fuel target m = .ok (.object object) m₁ →
      m₁.store.field? object name.name = none →
      m₁.store.objects[object]? = some record →
      m₁.store.method? record.classId name.name = some method →
      bindMethod method object m₁ = .ok bound m₂ →
      Fetches (fuel + 1) (.eval (.get target name)) m method object bound
  | super :
      m.distances.find? place = some distance →
      m.store.readAt m.current distance "super" =
        .ok (.classRef superclass) →
      m.store.readAt m.current (innerDistance distance) "this" =
        .ok (.object object) →
      m.store.method? superclass name.name = some method →
      bindMethod method object m = .ok bound m₁ →
      Fetches (fuel + 1) (.eval (.super place line name)) m method object bound
  | construct :
      (m.withObject cls).store.method? cls initializerName = some method →
      bindMethod method m.store.objects.size (m.withObject cls) =
        .ok bound m₁ →
      Fetches (fuel + 1) (.call (.classRef cls) values line) m method
        m.store.objects.size bound

/-- The value that a statement returns. -/
def Completion.values : Completion → List Value
  | .normal => []
  | .returned value => [value]

namespace Task

/-- The values that a task is given. -/
def arguments : Task → List Value
  | .call callee arguments _ => callee :: arguments
  | .invoke _ arguments => arguments
  | .eval _ | .evalAll _ | .exec _ | .execAll _ | .rounds .. => []

/-- The values that a task gives. -/
def values : (task : Task) → task.Result → List Value
  | .eval _, value | .call .., value | .invoke .., value => [value]
  | .evalAll _, values => values
  | .exec _, completion | .execAll _, completion | .rounds .., completion =>
      completion.values

/-- The names that a task itself gives values to. -/
def writes : Task → List String
  | .eval (.assign _ name _) => [name.name]
  | .exec stmt => stmt.declares
  | _ => []

end Task

/-- The value can be had without making anything: it is at hand, or no
reference, or a frame or an instance holds it. -/
inductive Machine.Offers (m : Machine) (hand : List Value) (value : Value) :
    Prop where
  | hand : value ∈ hand → m.Offers hand value
  | plain : value.refers = false → m.Offers hand value
  | name {frame : FrameId} {name : String} :
      m.store.local? frame name = some value → m.Offers hand value
  | field {object : ObjectId} {name : String} :
      m.store.field? object name = some value → m.Offers hand value

/-- What one part of a task does that was taken up on `start` with `fuel + 1`.
At first the machine is `m` and some values are at hand; in the end others have
been gained. -/
inductive Part (fuel : Nat) (task : Task) (start : Machine)
    (hand : List Value) (m : Machine) : List Value → Machine → Prop where
  | idle :
      (∀ value ∈ gained, m.Offers hand value) →
      Part fuel task start hand m gained m
  | tick :
      value.refers = false →
      Part fuel task start hand m [value] { m with ticks := m.ticks + 1 }
  | declare :
      task = .exec stmt → name ∈ stmt.declares → m.Offers hand value →
      Part fuel task start hand m []
        { m with store := m.store.define m.current name value }
  | assign :
      name ∈ task.writes → (m.store.local? holder name).isSome →
      m.Offers hand value →
      Part fuel task start hand m []
        { m with store := m.store.define holder name value }
  | setField :
      m.Offers hand value →
      Part fuel task start hand m []
        { m with store := m.store.setField object name value }
  | function :
      task = .exec (.function declaration) → start = m →
      Part fuel task start hand m [.function m.store.functions.size]
        { m with store :=
          (m.store.addFunction ⟨declaration, m.current, false⟩).2 }
  | method :
      Fetches (fuel + 1) task start method object bound →
      bound.closure < m.store.frames.size →
      Part fuel task start hand m [.function m.store.functions.size]
        { m with store := (m.store.addFunction bound).2 }
  | this :
      m.store.method? cls name = some method →
      m.Offers hand (.object object) →
      Part fuel task start hand m []
        { m with store := (m.store.addFrame ⟨some method.closure,
          Bindings.empty.put "this" (.object object)⟩).2 }
  | super :
      m.Offers hand (.classRef superclass) →
      Part fuel task start hand m []
        { m with store := (m.store.addFrame ⟨some m.current,
          Bindings.empty.put "super" (.classRef superclass)⟩).2 }
  | addClass :
      Makes (fuel + 1) task start cls made →
      (∀ id, cls.superclass = some id → m.Offers hand (.classRef id)) →
      (∀ name method, cls.methods.find? name = some method →
        method.closure = m.current ∨ method.closure < m.store.frames.size) →
      Part fuel task start hand m [.classRef m.store.classes.size]
        { m with store := (m.store.addClass cls).2 }
  | addObject :
      m.Offers hand (.classRef cls) →
      Part fuel task start hand m [.object m.store.objects.size]
        (m.withObject cls)

/-- The task is handed over to.  It declares no more than the task at work,
and what it is given is at hand. -/
structure Handed (fuel : Nat) (task : Task) (start : Machine) (task' : Task)
    (m : Machine) (hand : List Value) : Prop where
  enters : Enters fuel task start task' m
  names : task'.declares ⊆ task.declares
  values : task'.arguments ⊆ hand

/-- The task hands over to another one in a new frame. -/
inductive Opens (m : Machine) :
    Task → Option FrameId → Bindings Value → Task → Prop where
  | body {function : Function} {values : List Value} :
      Opens m (.invoke function values) (some function.closure)
        (Step.bindParams function.declaration.params values)
        (.execAll function.declaration.body)
  | block {body : List Stmt} :
      Opens m (.exec (.block body)) (some m.current) .empty (.execAll body)

theorem Opens.enters
    {m : Machine} {task task' : Task} {parent : Option FrameId}
    {names : Bindings Value} (h : Opens m task parent names task')
    (fuel : Nat) : Enters fuel task m task' (m.within parent names) := by
  cases h with
  | body => exact .body
  | block => exact .block

namespace Step

/-- The step is part of a task that was taken up on `start` with `fuel + 1`.
When its turn comes, the machine is `m` and some values are at hand; `has` are
the values in what it gives. -/
inductive Composed (fuel : Nat) (task : Task) (start : Machine) :
    {α : Type} → List Value → Step α → Machine → (α → List Value) → Prop where
  | part {α : Type} {hand : List Value} {step : Step α} {m : Machine}
      {has : α → List Value} :
      step.Quiet →
      step.Ends m (fun a m₁ => Part fuel task start hand m (has a) m₁)
        (fun halt m₁ => m₁ = m ∧ halt ≠ .defect .strayReturn) →
      Composed fuel task start hand step m has
  | print {hand : List Value} {expr : Expr} {value : Value} {m : Machine} :
      task = .exec (.print expr) → eval fuel expr start = .ok value m →
      Composed fuel task start hand (Step.print value) m fun _ => []
  | enter {hand : List Value} {task' : Task} {m : Machine} :
      Handed fuel task start task' m hand →
      Composed fuel task start hand (task'.run fuel) m task'.values
  | nest {task' : Task} {parent : Option FrameId} {names : Bindings Value} :
      Opens start task parent names task' →
      Composed fuel task start task.arguments
        (nested parent names (task'.run fuel)) start task'.values
  | bind {α β : Type} {hand : List Value} {step : Step α}
      {next : α → Step β} {m : Machine} {gained : α → List Value}
      {has : β → List Value} :
      Composed fuel task start hand step m gained →
      (∀ a m₁, step m = .ok a m₁ →
        Composed fuel task start (gained a ++ hand) (next a) m₁ has) →
      Composed fuel task start hand (step >>= next) m has

/-- The step comes to the point where `task'` is taken up on `m'`. -/
inductive Hands (fuel : Nat) (task : Task) (start : Machine) (task' : Task)
    (m' : Machine) : {α : Type} → List Value → Step α → Machine → Prop where
  | here {hand : List Value} :
      Handed fuel task start task' m' hand →
      Hands fuel task start task' m' hand (task'.run fuel) m'
  | nest {parent : Option FrameId} {names : Bindings Value} :
      Opens start task parent names task' →
      m' = start.within parent names →
      Hands fuel task start task' m' task.arguments
        (nested parent names (task'.run fuel)) start
  | first {α β : Type} {hand : List Value} {step : Step α}
      {next : α → Step β} {m : Machine} {later : α → List Value}
      {has : β → List Value} :
      Hands fuel task start task' m' hand step m →
      (∀ a m₁, step m = .ok a m₁ →
        Composed fuel task start (later a) (next a) m₁ has) →
      Hands fuel task start task' m' hand (step >>= next) m
  | second {α β : Type} {hand : List Value} {step : Step α}
      {next : α → Step β} {m m₁ : Machine} {gained : α → List Value} {a : α} :
      Composed fuel task start hand step m gained → step m = .ok a m₁ →
      Hands fuel task start task' m' (gained a ++ hand) (next a) m₁ →
      Hands fuel task start task' m' hand (step >>= next) m

/-! ## What all parts keep -/

/-- A property of a machine and the values at hand that each part of the task
keeps. -/
structure Invariant (fuel : Nat) (task : Task) (start : Machine)
    (holds : List Value → Machine → Prop) : Prop where
  mono : ∀ {hand fewer m}, fewer ⊆ hand → holds hand m → holds fewer m
  part : ∀ {hand m gained m₁}, Part fuel task start hand m gained m₁ →
    holds hand m → holds (gained ++ hand) m₁
  print : ∀ {hand m sink}, holds hand m → holds hand (m.onto sink)
  enter : ∀ {hand m task'}, Handed fuel task start task' m hand →
    holds hand m →
    (task'.run fuel).Ends m
      (fun a m₁ => holds (task'.values a ++ hand) m₁) fun _ m₁ => holds [] m₁
  nest : ∀ {task' parent names}, Opens start task parent names task' →
    holds task.arguments start →
    (task'.run fuel).Ends (start.within parent names)
      (fun a m₁ => holds (task'.values a ++ task.arguments)
        { m₁ with current := start.current })
      fun _ m₁ => holds [] { m₁ with current := start.current }

section
variable {fuel : Nat} {task task' : Task} {start m m' : Machine} {α β : Type}
variable {hand : List Value} {step : Step α} {has : α → List Value}
variable {holds : List Value → Machine → Prop}

theorem ends_print
    {value : Value} {ok : Unit → Machine → Prop}
    {halted : Halt → Machine → Prop} (hok : ∀ sink, ok () (m.onto sink))
    (herror : ∀ e sink, halted (.output e) (m.onto sink)) :
    (Step.print value).Ends m ok halted := by
  apply ends_ask rfl
  simp only [Ends, write]
  cases (m.sink.write (m.store.printed value ++ "\n")).1 with
  | ok _ => exact hok _
  | error e => exact herror e _

/-- What all parts of a task keep holds wherever a step of the task ends. -/
theorem Composed.ends
    (hinv : Invariant fuel task start holds)
    (h : Composed fuel task start hand step m has) (hm : holds hand m) :
    step.Ends m (fun a m₁ => holds (has a ++ hand) m₁)
      fun _ m₁ => holds [] m₁ := by
  induction h with
  | part _ hends =>
      refine hends.mono (fun a m₁ _ hpart => hinv.part hpart hm) ?_
      rintro halt m₁ ⟨rfl, -⟩
      exact hinv.mono (List.nil_subset _) hm
  | print _ _ =>
      refine ends_print (fun sink => hinv.print hm) fun e sink => ?_
      exact hinv.mono (List.nil_subset _) (hinv.print hm)
  | enter hhanded => exact hinv.enter hhanded hm
  | nest hopens => exact ends_nested (hinv.nest hopens hm)
  | @bind α β hand step next m gained has _ _ ihstep ihnext =>
      refine (ihstep hm).bind fun a m₁ hrun hm₁ => ?_
      refine (ihnext a m₁ hrun hm₁).mono (fun b m₂ _ hm₂ => ?_)
        fun _ _ hm₂ => hm₂
      apply hinv.mono _ hm₂
      exact List.append_subset.mpr ⟨List.subset_append_left _ _,
        List.subset_append_of_subset_right _ (List.subset_append_right _ _)⟩

/-- It also holds where another task is taken up, if it is kept when a frame is
opened. -/
theorem Hands.reach
    (hinv : Invariant fuel task start holds)
    (hopen : ∀ {parent names}, Opens start task parent names task' →
      holds task.arguments start → holds [] (start.within parent names))
    (h : Hands fuel task start task' m' hand step m) (hm : holds hand m) :
    holds task'.arguments m' := by
  induction h with
  | here hhanded => exact hinv.mono hhanded.values hm
  | nest hopens hm' =>
      have hnone : task'.arguments = [] := by
        cases hopens <;> rfl
      rw [hnone, hm']
      exact hopen hopens hm
  | first _ _ ih => exact ih hm
  | second hstep hrun _ ih => exact ih ((hstep.ends hinv hm).of_ok hrun)

/-! ## Single steps -/

namespace Composed

theorem pure {a : α} (h : ∀ value ∈ has a, m.Offers hand value) :
    Composed fuel task start hand (Pure.pure a) m has :=
  .part (quiet_pure a) (.idle h)

/-- A value that is at hand is given. -/
theorem give {value : Value} (h : m.Offers hand value) :
    Composed fuel task start hand (Pure.pure value) m fun value => [value] :=
  .pure (List.forall_mem_singleton.mpr h)

theorem throw {halt : Halt} (h : halt ≠ .defect .strayReturn) :
    Composed fuel task start hand (MonadExcept.throw halt) m has :=
  .part (quiet_throw halt) ⟨rfl, h⟩

theorem fail (cause : RuntimeError.Cause) (line : Nat) :
    Composed fuel task start hand (Step.fail cause line) m has :=
  .throw (by simp)

theorem question
    {question : Machine → β}
    (hsame : ∀ m sink, question (m.onto sink) = question m) :
    Composed fuel task start hand (Step.ask question) m fun _ => [] :=
  .part (quiet_ask hsame) (.idle (List.forall_mem_nil _))

/-- A question, and what is done with the answer. -/
theorem ask
    {question : Machine → β} {next : β → Step α}
    (hsame : ∀ m sink, question (m.onto sink) = question m)
    (hnext : Composed fuel task start hand (next (question m)) m has) :
    Composed fuel task start hand (Step.ask question >>= next) m has := by
  refine .bind (.question hsame) fun a m₁ hasked => ?_
  cases hasked
  exact hnext

theorem orMismatch
    {result : Except Mismatch Value} (line : Nat)
    (h : ∀ value, result = .ok value → value.refers = false) :
    Composed fuel task start hand (Step.orMismatch line result) m
      fun value => [value] := by
  cases result with
  | ok value => exact .give (.plain (h value rfl))
  | error mismatch => exact .fail _ line

theorem readAt
    {frame : Machine → FrameId} (distance : Nat) (name : String)
    (hsame : ∀ m sink, frame (m.onto sink) = frame m) :
    Composed fuel task start hand
      (orDefect =<< Step.ask fun machine =>
        machine.store.readAt (frame machine) distance name) m
      fun value => [value] := by
  refine .part ((quiet_ask fun m sink => ?_).bind quiet_orDefect) ?_
  · rw [hsame]
    rfl
  · change (orDefect (m.store.readAt (frame m) distance name)).Ends m _ _
    cases hread : m.store.readAt (frame m) distance name with
    | ok value =>
        obtain ⟨holder, hlocal⟩ := Store.local?_of_readAt hread
        exact .idle (List.forall_mem_singleton.mpr (.name hlocal))
    | error d =>
        refine ⟨rfl, ?_⟩
        rintro ⟨⟩
        exact Store.readAt_ne_strayReturn _ _ _ _ hread

theorem readName (id : PlaceId) (name : Ident) :
    Composed fuel task start hand (Step.readName id name) m
      fun value => [value] := by
  refine .part (quiet_readName id name) ?_
  unfold Ends Step.readName
  cases m.distances.find? id with
  | none =>
      dsimp only
      cases hlookup : m.store.lookup m.globals name with
      | ok value =>
          obtain ⟨holder, hlocal⟩ := Store.local?_of_lookup hlookup
          exact .idle (List.forall_mem_singleton.mpr (.name hlocal))
      | error e => exact ⟨rfl, by simp⟩
  | some distance =>
      dsimp only
      cases hread : m.store.readAt m.current distance name.name with
      | ok value =>
          obtain ⟨holder, hlocal⟩ := Store.local?_of_readAt hread
          exact .idle (List.forall_mem_singleton.mpr (.name hlocal))
      | error d =>
          refine ⟨rfl, ?_⟩
          rintro ⟨⟩
          exact Store.readAt_ne_strayReturn _ _ _ _ hread

theorem writeName
    {name : Ident} {value : Value} (id : PlaceId)
    (hname : name.name ∈ task.writes) (hvalue : m.Offers hand value) :
    Composed fuel task start hand (Step.writeName id name value) m
      fun _ => [] := by
  refine .part (quiet_writeName id name value) ?_
  unfold Ends Step.writeName
  cases hholder : m.holder id name with
  | ok holder =>
      exact .assign hname (Machine.local?_of_holder hholder) hvalue
  | error halt =>
      refine ⟨rfl, ?_⟩
      rintro rfl
      exact m.holder_ne_strayReturn id name hholder

theorem assignHere
    {name : Ident} {value : Value} (hname : name.name ∈ task.writes)
    (hvalue : m.Offers hand value) :
    Composed fuel task start hand (Step.assignHere name value) m
      fun _ => [] := by
  refine .part (quiet_assignHere name value) ?_
  unfold Ends Step.assignHere
  cases hholder : m.store.holder m.current name with
  | ok holder => exact .assign hname (Store.local?_of_holder hholder) hvalue
  | error e => exact ⟨rfl, by simp⟩

theorem define
    {stmt : Stmt} {name : String} {value : Value}
    (hname : name ∈ stmt.declares) (hvalue : m.Offers hand value) :
    Composed fuel (.exec stmt) start hand (Step.define name value) m
      fun _ => [] :=
  .part (quiet_define name value) (.declare rfl hname hvalue)

theorem setProperty
    {value : Value} (object : ObjectId) (name : String)
    (hvalue : m.Offers hand value) :
    Composed fuel task start hand (Step.setProperty object name value) m
      fun _ => [] :=
  .part (fun _ _ => rfl) (.setField hvalue)

theorem bindMethod
    {cls : ClassId} {name : String} {method : Function} {object : ObjectId}
    (hmethod : m.store.method? cls name = some method)
    (hobject : m.Offers hand (.object object)) :
    Composed fuel task start hand (Step.bindMethod method object) m
      fun _ => [] :=
  .part (quiet_bindMethod method object) (.this hmethod hobject)

private theorem methodValue
    {cls : ClassId} {name : String} {method : Function} {object : ObjectId}
    (hmethod : m.store.method? cls name = some method)
    (hobject : m.Offers hand (.object object))
    (hfetches : ∀ bound m₁, Step.bindMethod method object m = .ok bound m₁ →
      Fetches (fuel + 1) task start method object bound) :
    Composed fuel task start hand (Step.methodValue method object) m
      fun value => [value] := by
  refine .bind (.bindMethod hmethod hobject) fun bound m₁ hbound => ?_
  have hclosure : bound.closure < m₁.store.frames.size := by
    cases hbound
    simp
  have hfunction : Composed fuel task start ([] ++ hand)
      (onStore fun store => store.addFunction bound) m₁
      fun id => [.function id] :=
    .part (quiet_onStore _) (.method (hfetches bound m₁ hbound) hclosure)
  exact .bind hfunction fun id _ _ => .give (.hand List.mem_cons_self)

theorem getProperty
    {target : Expr} {name : Ident} {object : ObjectId} {m₀ : Machine}
    (htarget : eval fuel target m₀ = .ok (.object object) m)
    (hobject : m.Offers hand (.object object)) :
    Composed fuel (.eval (.get target name)) m₀ hand
      (Step.getProperty object name) m fun value => [value] := by
  refine .ask (fun _ _ => rfl) ?_
  cases hfield : m.store.field? object name.name with
  | some value => exact .give (.field hfield)
  | none =>
      refine .ask (fun _ _ => rfl) ?_
      cases hfound : m.store.objects[object]?.bind fun o =>
          m.store.method? o.classId name.name with
      | none => exact .fail _ _
      | some method =>
          obtain ⟨record, hrecord, hmethod⟩ :=
            Option.bind_eq_some_iff.mp hfound
          refine .methodValue hmethod hobject fun bound m₁ hbound => ?_
          exact .get htarget hfield hrecord hmethod hbound

theorem superMethod (place : PlaceId) (line : Nat) (name : Ident) :
    Composed fuel (.eval (.super place line name)) m hand
      (Step.superMethod place line name) m fun value => [value] := by
  refine .ask (fun _ _ => rfl) ?_
  cases hplace : m.distances.find? place with
  | none => exact .fail _ line
  | some distance =>
      refine .bind (.readAt distance "super" fun _ _ => rfl) ?_
      intro superclass m₁ hclass
      obtain ⟨hsuper, rfl⟩ := askDefect_ok hclass
      refine .bind (.readAt (innerDistance distance) "this" fun _ _ => rfl) ?_
      intro object m₂ hobject
      obtain ⟨hthis, rfl⟩ := askDefect_ok hobject
      cases superclass with
      | classRef superclass =>
          cases object with
          | object object =>
              refine .ask (fun _ _ => rfl) ?_
              cases hmethod : m.store.method? superclass name.name with
              | none => exact .fail _ _
              | some method =>
                  refine .methodValue hmethod (.hand List.mem_cons_self) ?_
                  exact fun bound m₁ hbound =>
                    .super hplace hsuper hthis hmethod hbound
          | _ => exact .throw (by simp)
      | _ => exact .throw (by simp)

theorem callNative
    (native : Native) {arguments : List Value} (line : Nat)
    (harguments : arguments ⊆ hand) :
    Composed fuel task start hand (Step.callNative native arguments line) m
      fun value => [value] := by
  cases native with
  | clock => exact .part (fun _ _ => rfl) (.tick rfl)
  | lent id name arity =>
      refine .ask (fun _ _ => rfl) ?_
      cases hgiven : (m.host id).call m.store.view arguments with
      | error message => exact .fail _ line
      | ok value =>
          apply Composed.give
          rcases (m.host id).gives hgiven with hplain | hmem | hfield
          · exact .plain hplain
          · exact .hand (harguments hmem)
          · obtain ⟨object, name, hfield⟩ := hfield
            exact .field hfield

theorem declareFunction (declaration : FunctionDecl) :
    Composed fuel (.exec (.function declaration)) m hand
      (Step.declareFunction declaration) m fun _ => [] := by
  refine .ask (fun _ _ => rfl) ?_
  have hfunction : Composed fuel (.exec (.function declaration)) m hand
      (onStore fun store =>
        store.addFunction ⟨declaration, m.current, false⟩) m
      fun id => [.function id] :=
    .part (quiet_onStore _) (.function rfl rfl)
  refine .bind hfunction fun id m₁ _ => ?_
  exact .define (List.mem_singleton.mpr rfl) (.hand List.mem_cons_self)

private theorem finishClass
    {name : Ident} {superclass : Option ClassId} {closure : FrameId}
    {methods : List FunctionDecl} {made : Machine}
    (hname : name.name ∈ task.writes)
    (hmakes : Makes (fuel + 1) task start
      ⟨name.name, superclass, methodTable closure methods⟩ made)
    (hsuperclass : ∀ id, superclass = some id →
      m.Offers hand (.classRef id))
    (hclosure : closure = m.current ∨ closure < m.store.frames.size) :
    Composed fuel task start hand
      (onStore (fun store => store.addClass
          ⟨name.name, superclass, methodTable closure methods⟩) >>= fun id =>
        Step.assignHere name (.classRef id)) m fun _ => [] := by
  have hclass : Composed fuel task start hand
      (onStore fun store => store.addClass
        ⟨name.name, superclass, methodTable closure methods⟩) m
      fun id => [.classRef id] := by
    refine .part (quiet_onStore _) (.addClass hmakes hsuperclass ?_)
    intro other method hmethod
    obtain ⟨declaration, -, rfl⟩ := find?_methodTable hmethod
    exact hclosure
  refine .bind hclass fun id m₁ _ => ?_
  exact .assignHere hname (.hand List.mem_cons_self)

theorem declareBase
    {name : Ident} {methods : List FunctionDecl} {m₀ : Machine}
    (hdefine : Step.define name.name .nil m₀ = .ok () m) :
    Composed fuel (.exec (.classDecl name none methods)) m₀ hand
      (declareClass name none methods) m fun _ => [] := by
  rw [declareClass_eq]
  refine .ask (fun _ _ => rfl) ?_
  refine .finishClass (List.mem_singleton.mpr rfl) (.base hdefine) ?_ (.inl rfl)
  intro id hid
  cases hid

theorem declareDerived
    {name : Ident} {expr : Expr} {superclass : ClassId}
    {methods : List FunctionDecl} {m₀ m₁ : Machine}
    (hdefine : Step.define name.name .nil m₀ = .ok () m₁)
    (heval : eval fuel expr m₁ = .ok (.classRef superclass) m)
    (hsuperclass : .classRef superclass ∈ hand) :
    Composed fuel (.exec (.classDecl name (some expr) methods)) m₀ hand
      (declareClass name (some superclass) methods) m fun _ => [] := by
  rw [declareClass_eq]
  refine .ask (fun _ _ => rfl) ?_
  have hframe : Composed fuel (.exec (.classDecl name (some expr) methods)) m₀
      hand
      (addFrame (some m.current)
        (Bindings.empty.put "super" (.classRef superclass))) m fun _ => [] :=
    .part (quiet_onStore _) (.super (.hand hsuperclass))
  refine .bind hframe fun closure m₂ hadded => ?_
  obtain ⟨rfl, hnew⟩ : m.store.frames.size = closure ∧
      closure < m₂.store.frames.size := by
    cases hadded
    simp
  refine .finishClass (List.mem_singleton.mpr rfl) (.derived hdefine heval) ?_
    (.inr hnew)
  intro id hid
  cases hid
  exact .hand hsuperclass

end Composed

theorem Hands.ask
    {question : Machine → β} {next : β → Step α} {answer : β}
    (hsame : ∀ m sink, question (m.onto sink) = question m)
    (hanswer : question m = answer)
    (hnext : Hands fuel task start task' m' hand (next answer) m) :
    Hands fuel task start task' m' hand (Step.ask question >>= next) m := by
  refine .second (.question hsame) rfl ?_
  rw [hanswer]
  exact hnext

end
end Step
end LoxLang
