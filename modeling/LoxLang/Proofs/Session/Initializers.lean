import LoxLang.Proofs.Session.Methods

/-!
# Initializers

A method with the name of an initializer gives back the instance from which it
was fetched, whatever its body returns.  It is fetched when a class is called,
from an instance by its name, or through `super`, and may be kept as a value in
between.  The frame of `this` around it is never changed, so the instance is
found there at the end of every call.
-/

namespace LoxLang

open Step (bindParams bindMethod nested)

/-- The function is a method that was fetched from the instance. -/
def FetchedFrom (course : Nat → Task → Machine → Prop) (object : ObjectId)
    (bound : Function) : Prop :=
  ∃ f task m method, course f task m ∧ Fetches f task m method object bound

theorem Fetches.bound_eq
    {fuel : Nat} {task : Task} {m : Machine} {method bound : Function}
    {object : ObjectId} (h : Fetches fuel task m method object bound) :
    bound.declaration = method.declaration ∧
      bound.initializer = method.initializer := by
  cases h with
  | get _ _ _ _ hbind | super _ _ _ _ hbind | construct _ hbind =>
      cases hbind
      exact ⟨rfl, rfl⟩

/-- The methods of a class are marked by their names. -/
theorem Makes.initializer_iff
    {fuel : Nat} {task : Task} {m made : Machine} {cls : Class}
    {name : String} {method : Function} (h : Makes fuel task m cls made)
    (hmethod : cls.methods.find? name = some method) :
    method.initializer = true ↔
      method.declaration.name.name = initializerName := by
  cases h with
  | base | derived =>
      obtain ⟨declaration, -, rfl⟩ := Step.find?_methodTable hmethod
      exact decide_eq_true_iff

/-- The instance is found in the frame of `this` at every time. -/
theorem Machine.Endures.readAt_this
    {m final : Machine} {frame : FrameId} {value : Value}
    (h : m.Endures final) (hframe : frame < m.store.frames.size)
    (hthis : final.store.local? frame "this" = some value) :
    m.store.readAt frame 0 "this" = .ok value := by
  rw [h.words hframe (by decide)] at hthis
  simp [Store.readAt, Store.slot, Store.ancestor, hthis]

theorem Step.left_askDefect
    {question : Machine → Except Defect Value} (m : Machine) :
    (ask question >>= orDefect).left m = m := by
  rw [left_bind_of_ok (show ask question m = .ok (question m) m from rfl)]
  cases question m <;> rfl

theorem Step.eq_of_bind_pure
    {α β : Type} {step : Step α} {value result : β} {m m₁ : Machine}
    (h : (step >>= fun _ => pure value) m = .ok result m₁) :
    result = value := by
  cases hrun : step m with
  | error halt m₂ =>
      simp only [Bind.bind, EStateM.bind, hrun] at h
      cases h
  | ok a m₂ =>
      rw [bind_eq hrun] at h
      cases h
      rfl

theorem Step.grows_of_nested
    {fuel : Nat} {body : List Stmt} {parent : Option FrameId}
    {names : Bindings Value} {completion : Completion} {m m₁ : Machine}
    (h : nested parent names (execAll fuel body) m = .ok completion m₁) :
    m.store.Grows m₁.store := by
  rw [nested_eq] at h
  cases hrun : execAll fuel body (m.within parent names) with
  | error halt m₂ =>
      rw [hrun] at h
      cases h
  | ok completion m₂ =>
      rw [hrun] at h
      cases h
      exact (Store.Grows.addFrame ..).trans
        ((run_keeps fuel (.execAll body) _).of_ok hrun).grows

section
variable {fuel : Nat} {cls : ClassId} {values : List Value} {line : Nat}
variable {m m₁ : Machine}

theorem Step.call_construct
    {method bound : Function}
    (hmethod : (m.withObject cls).store.method? cls initializerName =
      some method)
    (hbind : bindMethod method m.store.objects.size (m.withObject cls) =
      .ok bound m₁) :
    call (fuel + 1) (.classRef cls) values line m =
      (invoke fuel bound values >>= fun _ =>
        pure (.object m.store.objects.size)) m₁ := by
  have hnew : onStore (fun store => store.addObject ⟨cls, .empty⟩) m =
      .ok m.store.objects.size (m.withObject cls) := rfl
  have hfound : ask (fun machine =>
      machine.store.method? cls initializerName) (m.withObject cls) =
        .ok (some method) (m.withObject cls) := by
    rw [ask, hmethod]
  rw [call, bind_eq hnew, bind_eq hfound]
  exact bind_eq hbind

theorem Step.call_bare
    (hmethod : (m.withObject cls).store.method? cls initializerName = none) :
    call (fuel + 1) (.classRef cls) values line m =
      .ok (.object m.store.objects.size) (m.withObject cls) := by
  have hnew : onStore (fun store => store.addObject ⟨cls, .empty⟩) m =
      .ok m.store.objects.size (m.withObject cls) := rfl
  have hfound : ask (fun machine =>
      machine.store.method? cls initializerName) (m.withObject cls) =
        .ok none (m.withObject cls) := by
    rw [ask, hmethod]
  rw [call, bind_eq hnew, bind_eq hfound]
  rfl

/-- A call of a class gives an instance that was not there before. -/
theorem Step.call_class
    {value : Value}
    (h : call fuel (.classRef cls) values line m = .ok value m₁) :
    value = .object m.store.objects.size ∧
      ∃ record, m₁.store.objects[m.store.objects.size]? = some record ∧
        record.classId = cls := by
  have hnew : (m.withObject cls).store.objects[m.store.objects.size]? =
      some ⟨cls, .empty⟩ := by
    simp [Machine.withObject, Store.addObject]
  cases fuel with
  | zero => cases h
  | succ fuel =>
      cases hmethod : (m.withObject cls).store.method? cls
          initializerName with
      | none =>
          rw [call_bare hmethod] at h
          cases h
          exact ⟨rfl, _, hnew, rfl⟩
      | some method =>
          obtain ⟨bound, m₂, hbind, hkept⟩ :
              ∃ bound m₂, bindMethod method m.store.objects.size
                  (m.withObject cls) = .ok bound m₂ ∧
                (m.withObject cls).store.Grows m₂.store :=
            ⟨_, _, rfl, .addFrame ..⟩
          rw [call_construct hmethod hbind] at h
          cases hrun : invoke fuel bound values m₂ with
          | error halt m₃ =>
              simp only [Bind.bind, EStateM.bind, hrun] at h
              cases h
          | ok result m₃ =>
              rw [bind_eq hrun] at h
              cases h
              have hgrows := hkept.trans
                ((run_keeps fuel (.invoke bound values) m₂).of_ok hrun).grows
              obtain ⟨record, hrecord, hclass, -⟩ := hgrows.objects hnew
              exact ⟨rfl, record, hrecord, hclass⟩

end

namespace Session

section
variable {programs : List Program} {session : Session} {inputs : List String}
variable {fuel f : Nat} {task : Task} {m : Machine}
variable {function bound : Function} {object : ObjectId}
variable {callee : Value} {values : List Value} {line : Nat}

theorem this_of_fetchedFrom
    (hsession : session.Settled programs)
    (h : FetchedFrom (Occurs fuel session inputs) object bound) :
    (session.after fuel inputs).machine.store.local? bound.closure "this" =
      some (.object object) := by
  obtain ⟨f, task, m, method, hcourse, hfetches⟩ := h
  exact (hcourse.fetched hsession hfetches).this

theorem initializer_iff_of_fetchedFrom
    (hsession : session.Settled programs)
    (hstems : (session.after fuel inputs).machine.store.Stems
      (Occurs fuel session inputs))
    (h : FetchedFrom (Occurs fuel session inputs) object bound) :
    bound.initializer = true ↔
      bound.declaration.name.name = initializerName := by
  obtain ⟨f, task, m, method, hcourse, hfetches⟩ := h
  obtain ⟨owner, cls, name, hcls, hmethod⟩ :=
    (hcourse.fetched hsession hfetches).owner
  obtain ⟨f', task', m', made, -, hmakes⟩ := hstems.classes hcls
  rw [hfetches.bound_eq.1, hfetches.bound_eq.2]
  exact hmakes.initializer_iff hmethod

/-- The functions that a task can call by name, and the one that it calls. -/
def Callable (task : Task) (m : Machine) (function : Function) : Prop :=
  (∃ id : FunctionId, m.store.functions[id]? = some function) ∨
    ∃ values, task = .invoke function values

theorem Occurs.stems_of_callable
    (hsession : session.Settled programs)
    (hstems : (session.after fuel inputs).machine.store.Stems
      (Occurs fuel session inputs))
    (h : Occurs fuel session inputs f task m)
    (hfunction : Callable task m function) :
    Stems (Occurs fuel session inputs) function := by
  rcases hfunction with ⟨id, hfound⟩ | ⟨values, rfl⟩
  · exact hstems.functions ((h.endures hsession).grows.functions hfound)
  · exact h.stems_of_invoke hsession hstems id

/-- A method has the frame of `this` around it wherever it can be called. -/
theorem Occurs.readAt_this
    (hsession : session.Settled programs)
    (h : Occurs fuel session inputs f task m)
    (hfunction : Callable task m function)
    (hfetched : FetchedFrom (Occurs fuel session inputs) object function) :
    m.store.readAt function.closure 0 "this" = .ok (.object object) := by
  obtain ⟨⟨chart, hsettled⟩, -⟩ := h.settled hsession
  have hsound : function.Sound chart m.globals m.store := by
    rcases hfunction with ⟨id, hfound⟩ | ⟨values, rfl⟩
    · exact hsettled.machine.store.functions hfound
    · exact hsettled.bound.1
  exact (h.endures hsession).readAt_this
    (closure_lt_of_sound hsettled.machine hsound)
    (this_of_fetchedFrom hsession hfetched)

/-- The call of an initializer carries out its body and gives the instance,
however the body ends. -/
theorem Occurs.invoke_initializer
    (hsession : session.Settled programs)
    (h : Occurs fuel session inputs (f + 1) (.invoke bound values) m)
    (hfetched : FetchedFrom (Occurs fuel session inputs) object bound)
    (hinitializer : bound.initializer = true) :
    Step.invoke (f + 1) bound values m =
      (nested (some bound.closure)
          (bindParams bound.declaration.params values)
          (Step.execAll f bound.declaration.body) >>= fun _ =>
        pure (.object object)) m := by
  obtain ⟨-, hleft⟩ := h.settled hsession
  change ((Step.invoke (f + 1) bound values).left m).Endures _ at hleft
  rw [Step.invoke_succ] at hleft ⊢
  simp only [hinitializer, if_true] at hleft ⊢
  cases hrun : nested (some bound.closure)
      (bindParams bound.declaration.params values)
      (Step.execAll f bound.declaration.body) m with
  | error halt m₁ => simp only [Bind.bind, EStateM.bind, hrun]
  | ok completion m₁ =>
      have hframe := Nat.lt_of_lt_of_le (h.closure_lt hsession)
        (Step.grows_of_nested hrun).size_le
      rw [Step.left_bind_of_ok hrun, Step.left_askDefect] at hleft
      rw [bind_eq hrun, bind_eq hrun]
      exact Step.askDefect_eq
        (hleft.readAt_this hframe (this_of_fetchedFrom hsession hfetched))

/-- The call that leads to an initializer is over when the body is, and gives
the instance. -/
theorem Occurs.call_initializer
    {m₁ : Machine} (hsession : session.Settled programs)
    (h : Occurs fuel session inputs (f + 2) (.call callee values line) m)
    (henters : Enters (f + 1) (.call callee values line) m
      (.invoke bound values) m₁)
    (hfetched : FetchedFrom (Occurs fuel session inputs) object bound)
    (hinitializer : bound.initializer = true) :
    Step.call (f + 2) callee values line m =
      (nested (some bound.closure)
          (bindParams bound.declaration.params values)
          (Step.execAll f bound.declaration.body) >>= fun _ =>
        pure (.object object)) m₁ := by
  have hinvoke := (h.enter henters).invoke_initializer hsession hfetched
    hinitializer
  cases henters with
  | callFunction hfunction =>
      rw [← hinvoke]
      exact bind_eq (show Step.ask _ m = .ok (some bound) m by
        rw [Step.ask, hfunction])
  | construct hmethod hbind =>
      have hself : FetchedFrom (Occurs fuel session inputs)
          m.store.objects.size bound :=
        ⟨_, _, _, _, h, .construct hmethod hbind⟩
      have hsame := this_of_fetchedFrom hsession hself
      rw [this_of_fetchedFrom hsession hfetched] at hsame
      cases hsame
      rw [Step.call_construct hmethod hbind]
      cases hrun : nested (some bound.closure)
          (bindParams bound.declaration.params values)
          (Step.execAll f bound.declaration.body) m₁ with
      | error halt m₂ =>
          simp only [Bind.bind, EStateM.bind, hrun] at hinvoke ⊢
          rw [hinvoke]
      | ok completion m₂ =>
          rw [bind_eq hrun] at hinvoke ⊢
          exact bind_eq hinvoke

end

/-- A call that leads to a method with the name of an initializer carries out
the body of the method, and then gives the very instance that the method was
fetched from, whatever the body has returned.  Every function that can be
called was declared as such, or it is a method that was fetched from an
instance, which is then found in the frame around it; and only the methods with
the name of an initializer are marked as initializers.  The call of a class
gives a new instance of that class, which nothing has referred to before. -/
theorem initializers_give_their_instance
    (fuel : Nat) (sink : Sink) (clock : Nat → Float) (inputs : List String) :
    let course := Occurs fuel (start sink clock) inputs
    (∀ f callee values line m bound m₁ object,
      course (f + 2) (.call callee values line) m →
      Enters (f + 1) (.call callee values line) m (.invoke bound values) m₁ →
      FetchedFrom course object bound →
      bound.declaration.name.name = initializerName →
      Step.call (f + 2) callee values line m =
        (nested (some bound.closure)
            (bindParams bound.declaration.params values)
            (Step.execAll f bound.declaration.body) >>= fun _ =>
          pure (.object object)) m₁) ∧
    (∀ f task m function, course f task m → Callable task m function →
      ((∃ f' m', course f' (.exec (.function function.declaration)) m') ∧
          function.initializer = false) ∨
        ∃ object, FetchedFrom course object function ∧
          m.store.readAt function.closure 0 "this" = .ok (.object object) ∧
          (function.initializer = true ↔
            function.declaration.name.name = initializerName)) ∧
    ∀ f cls values line m value m',
      course f (.call (.classRef cls) values line) m →
      Step.call f (.classRef cls) values line m = .ok value m' →
      ∃ object record, value = .object object ∧
        m'.store.objects[object]? = some record ∧ record.classId = cls ∧
        m.store.objects[object]? = none ∧
        (∀ frame name, m.store.local? frame name ≠ some (.object object)) ∧
        (∀ other name, m.store.field? other name ≠ some (.object object)) ∧
        .object object ∉ values := by
  intro course
  have hstart := settled_start sink clock
  have hstems := stems_start fuel sink clock inputs
  refine ⟨?_, ?_, ?_⟩
  · intro f callee values line m bound m₁ object h henters hfetched hname
    apply h.call_initializer hstart henters hfetched
    exact (initializer_iff_of_fetchedFrom hstart hstems hfetched).mpr hname
  · intro f task m function h hfunction
    rcases h.stems_of_callable hstart hstems hfunction with
      hdeclared | ⟨hcourse, hfetches⟩
    · exact .inl ⟨⟨_, _, hdeclared⟩, rfl⟩
    · have hfetched : FetchedFrom course _ function :=
        ⟨_, _, _, _, hcourse, hfetches⟩
      exact .inr ⟨_, hfetched, h.readAt_this hstart hfunction hfetched,
        initializer_iff_of_fetchedFrom hstart hstems hfetched⟩
  · intro f cls values line m value m' h hrun
    obtain ⟨⟨chart, hsettled⟩, -⟩ := h.settled hstart
    obtain ⟨hvalue, record, hrecord, hclass⟩ := Step.call_class hrun
    have hunknown : ¬ m.store.Knows (.object m.store.objects.size) :=
      Nat.lt_irrefl _
    refine ⟨_, record, hvalue, hrecord, hclass, ?_, ?_, ?_, ?_⟩
    · exact Array.getElem?_eq_none (Nat.le_refl _)
    · intro frame name hlocal
      exact hunknown (hsettled.closed.frames hlocal)
    · intro other name hfield
      exact hunknown (hsettled.closed.fields hfield)
    · intro hmem
      exact hunknown (hsettled.takes _ (List.mem_cons_of_mem _ hmem))

/-- The initializer of an instance is fetched once more, and called later on. -/
def keptInitializer : String :=
  "class A \x7b init() \x7b while (true) \x7b return; \x7d \x7d \x7d " ++
    "class B < A \x7b init() \x7b super.init(); \x7d \x7d " ++
    "var b = B(); var again = b.init; again();"

private theorem keptInitializer_constructs :
    (match (start .unlimited fun _ => 0).visit? keptInitializer 35
        [.past, .past, .into, .into, .into] with
      | some (.call (.classRef cls) [] line, m) =>
          ((Step.call 35 (.classRef cls) [] line).outcome? m).isSome
      | _ => false) = true := by
  decide +kernel

private theorem keptInitializer_calls_again :
    (match (start .unlimited fun _ => 0).visit? keptInitializer 33
        [.past, .past, .past, .past, .into, .into, .into] with
      | some (.call (.function id) [] line, m) =>
          ((Step.call 33 (.function id) [] line).outcome? m).isSome &&
            m.store.functions[id]?.any fun bound =>
              bound.initializer && decide
                (m.store.readAt bound.closure 0 "this" = .ok (.object 0))
      | _ => false) = true := by
  decide +kernel

theorem keptInitializer_gives_its_instance :
    let course := Occurs 40 (start .unlimited fun _ => 0) [keptInitializer]
    (∃ f callee line m bound m₁ m',
      course (f + 2) (.call callee [] line) m ∧
        Enters (f + 1) (.call callee [] line) m (.invoke bound []) m₁ ∧
        FetchedFrom course 0 bound ∧
        bound.declaration.name.name = initializerName ∧
        Step.call (f + 2) callee [] line m = .ok (.object 0) m') ∧
    ∃ f cls line m m' object,
      course f (.call (.classRef cls) [] line) m ∧
        Step.call f (.classRef cls) [] line m = .ok (.object object) m' ∧
        m.store.objects[object]? = none := by
  intro course
  obtain ⟨hcalls, hcallable, hclasses⟩ :=
    initializers_give_their_instance 40 .unlimited (fun _ => 0)
      [keptInitializer]
  have hnew := keptInitializer_constructs
  have hagain := keptInitializer_calls_again
  split at hnew <;> try contradiction
  next cls line m hvisit =>
  split at hagain <;> try contradiction
  next id line' m' hvisit' =>
  obtain ⟨⟨value, m₁⟩, hvalue⟩ := Option.isSome_iff_exists.mp hnew
  have hconstruct := Step.outcome?_eq_some_iff.mp hvalue
  have hclass : course 35 (.call (.classRef cls) [] line) m :=
    occurs_of_visit? hvisit
  obtain ⟨hdone, hfunction⟩ := Bool.and_eq_true_iff.mp hagain
  obtain ⟨⟨value', m₁'⟩, hvalue'⟩ := Option.isSome_iff_exists.mp hdone
  have hcall := Step.outcome?_eq_some_iff.mp hvalue'
  have hlast : course 33 (.call (.function id) [] line') m' :=
    occurs_of_visit? hvisit'
  obtain ⟨bound, hfound, hbound⟩ := (Option.any_eq_true _ _).mp hfunction
  obtain ⟨hinitializer, hread⟩ := Bool.and_eq_true_iff.mp hbound
  have hthis := of_decide_eq_true hread
  constructor
  · rcases hcallable 33 _ m' bound hlast (.inl ⟨id, hfound⟩) with
      ⟨-, hplain⟩ | ⟨object, hfetched, hobject, hname⟩
    · rw [hplain] at hinitializer
      cases hinitializer
    · rw [hthis] at hobject
      cases hobject
      have heq := hcalls 31 _ _ _ m' bound m' 0 hlast (.callFunction hfound)
        hfetched (hname.mp hinitializer)
      have hobject : value' = .object 0 := Step.eq_of_bind_pure (heq ▸ hcall)
      exact ⟨31, .function id, line', m', bound, m', m₁', hlast,
        .callFunction hfound, hfetched, hname.mp hinitializer,
        hobject ▸ hcall⟩
  · obtain ⟨object, record, hobject, -, -, hunseen, -⟩ :=
      hclasses 35 cls [] line m value m₁ hclass hconstruct
    exact ⟨35, cls, line, m, m₁, object, hclass, hobject ▸ hconstruct,
      hunseen⟩

end Session
end LoxLang
