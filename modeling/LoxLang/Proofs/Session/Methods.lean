import LoxLang.Proofs.Session.Provenance

/-!
# What `this` and `super` mean in a method

A method is made when its class is declared, and it is fetched from an instance
before it is called: by its name, through `super`, or as the initializer of a
new instance.  The fetch binds `this` in a frame of its own, right inside of
the frame in which the declaration of the class has bound `super`.  All of the
method's body is carried out inside of these two frames, the functions that are
declared in it included, however late they are called.
-/

namespace LoxLang

open Scope (Stack Chart)
open Step (bindParams bindMethod methodValue innerDistance)

/-! ## Methods and their bodies -/

/-- The function is a method of the class `cls`, fetched from an instance.  Up
to `made`, all that the declaration of the class has done is to find out the
superclass. -/
structure IsMethod (course : Nat → Task → Machine → Prop) (cls : Class)
    (made : Machine) (object : ObjectId) (bound : Function) : Prop where
  declared : ∃ f task m, course f task m ∧ Makes f task m cls made
  fetched : ∃ f task m method name, course f task m ∧
    Fetches f task m method object bound ∧
    cls.methods.find? name = some method

namespace Task

/-- The task is one of the text at hand, and not a call. -/
def isLocal : Task → Bool
  | .call .. | .invoke .. => false
  | .eval _ | .evalAll _ | .exec _ | .execAll _ | .rounds .. => true

/-- The uses of `this` and `super` in the text of a task. -/
def marks (depth : Nat) : Task → List Mark
  | .eval expr => expr.marks depth
  | .evalAll exprs => Expr.marksAll depth exprs
  | .exec stmt => stmt.marks depth
  | .execAll stmts => Stmt.marksAll depth stmts
  | .rounds condition body => condition.marks depth ++ body.marks depth
  | .call .. | .invoke .. => []

end Task

/-- The task belongs to the body of a bound method: it is that body, or a part
of something that belongs to it, or the body of a function that was declared in
it. -/
inductive Serves (course : Nat → Task → Machine → Prop) (bound : Function) :
    Nat → Task → Machine → Prop where
  | body :
      course (f + 1) (.invoke bound values) m →
      Serves course bound f (.execAll bound.declaration.body)
        (m.within (some bound.closure)
          (bindParams bound.declaration.params values))
  | step :
      Serves course bound (f + 1) task m → Enters f task m task' m' →
      task'.isLocal = true → Serves course bound f task' m'
  | nested :
      Serves course bound f (.exec (.function declaration)) m →
      course (f' + 1) (.invoke ⟨declaration, m.current, false⟩ values) m' →
      Serves course bound f' (.execAll declaration.body)
        (m'.within (some m.current) (bindParams declaration.params values))

/-! ## The frames around a body -/

/-- The machine knows the distances of the marks. -/
def Machine.Records (m : Machine) (marks : List Mark) : Prop :=
  ∀ mark ∈ marks, m.distances.find? mark.id = some mark.distance

theorem Store.ancestor_of_parent
    {store : Store} {frame parent : FrameId}
    (hparent : store.parent? frame = some parent) (distance : Nat) :
    store.ancestor frame (distance + 1) = store.ancestor parent distance := by
  simp only [Store.ancestor, hparent]

theorem Store.ancestor_succ
    {store : Store} {frame holder parent : FrameId} {distance : Nat}
    (hancestor : store.ancestor frame distance = .ok holder)
    (hparent : store.parent? holder = some parent) :
    store.ancestor frame (distance + 1) = .ok parent := by
  induction distance generalizing frame with
  | zero =>
      cases hancestor
      exact Store.ancestor_of_parent hparent 0
  | succ distance ih =>
      cases houter : store.parent? frame with
      | none => simp [Store.ancestor, houter] at hancestor
      | some outer =>
          rw [Store.ancestor_of_parent houter] at hancestor ⊢
          exact ih hancestor

theorem FunctionDecl.marks_eq (declaration : FunctionDecl) (depth : Nat) :
    declaration.marks depth = Stmt.marksAll (depth + 1) declaration.body := by
  cases declaration
  rfl

section
variable {fuel : Nat} {task task' : Task} {m m' : Machine}

theorem Machine.parent?_within
    (m : Machine) (frame : FrameId) (names : Bindings Value) :
    (m.within (some frame) names).store.parent?
      (m.within (some frame) names).current = some frame := by
  simp [Machine.within, Store.parent?, Store.frames_addFrame]

/-- A part of a text is carried out in the same frame, or, if it is the body of
a block, in a frame right inside. -/
theorem Enters.inside
    (henters : Enters fuel task m task' m') (htask : task.isLocal = true)
    (htask' : task'.isLocal = true) :
    (m'.current = m.current ∧
        ∀ depth, task'.marks depth ⊆ task.marks depth) ∨
      (m' = m.within (some m.current) .empty ∧
        ∀ depth, task'.marks (depth + 1) ⊆ task.marks depth) := by
  have heval {expr : Expr} {m₀ m₁ : Machine} {value : Value}
      (hrun : Step.eval fuel expr m₀ = .ok value m₁) :
      m₁.current = m₀.current :=
    ((Step.run_keeps fuel (.eval expr) m₀).of_ok hrun).current
  have hexec {stmt : Stmt} {m₀ m₁ : Machine} {completion : Completion}
      (hrun : Step.exec fuel stmt m₀ = .ok completion m₁) :
      m₁.current = m₀.current :=
    ((Step.run_keeps fuel (.exec stmt) m₀).of_ok hrun).current
  cases henters with
  | group | unary | assigned | getObject | expression | print | initializer
  | loop | returned => exact .inl ⟨rfl, fun _ => List.Subset.refl _⟩
  | binaryLeft | logicalLeft | callee | setObject | head | first
  | roundCondition => exact .inl ⟨rfl, fun _ => List.subset_append_left _ _⟩
  | binaryRight hrun | arguments hrun | setValue hrun | tail hrun =>
      exact .inl ⟨heval hrun, fun _ => List.subset_append_right _ _⟩
  | logicalRight hrun _ | roundBody hrun _ =>
      exact .inl ⟨heval hrun, fun _ => List.subset_append_right _ _⟩
  | next hrun => exact .inl ⟨hexec hrun, fun _ => List.subset_append_right _ _⟩
  | condition =>
      rename_i no
      refine .inl ⟨rfl, fun depth => ?_⟩
      cases no <;> exact List.subset_append_left _ _
  | thenBranch hrun _ =>
      rename_i no _
      refine .inl ⟨heval hrun, fun depth => ?_⟩
      cases no with
      | none => exact List.subset_append_right _ _
      | some no =>
          exact List.Subset.trans (List.subset_append_left _ _)
            (List.subset_append_right _ _)
  | elseBranch hrun _ =>
      exact .inl ⟨heval hrun, fun depth => List.Subset.trans
        (List.subset_append_right _ _) (List.subset_append_right _ _)⟩
  | superclass hdefine =>
      cases hdefine
      exact .inl ⟨rfl, fun _ => List.subset_append_left _ _⟩
  | nextRound htest _ hround =>
      exact .inl ⟨(hexec hround).trans (heval htest),
        fun _ => List.Subset.refl _⟩
  | block => exact .inr ⟨rfl, fun _ => List.Subset.refl _⟩
  | call | callFunction | construct => cases htask'
  | body => cases htask

/-- A word that the scopes around a place bind is found in the frame where it
was bound, as long as that frame lasts. -/
theorem Machine.Endures.readAt
    {final : Machine} {stack : Stack} {word : String} {distance : Nat}
    {holder : FrameId} (h : m.Endures final) (hword : ¬ Ordinary word)
    (hsituated : m.Situated stack)
    (hdistance : stack.distance? word = some distance)
    (hholder : final.store.ancestor m.current distance = .ok holder) :
    ∃ value, final.store.local? holder word = some value ∧
      m.store.readAt m.current distance word = .ok value := by
  obtain ⟨found, hslot⟩ := hsituated.fits.slot hdistance
  obtain ⟨hancestor, hsome⟩ := Store.slot_eq_ok hslot
  obtain ⟨value, hvalue⟩ := Option.isSome_iff_exists.mp hsome
  have hsame : found = holder := by
    have hfound := h.grows.ancestor hancestor
    rw [hholder] at hfound
    exact (Except.ok.inj hfound).symm
  subst hsame
  refine ⟨value, h.local?_eq hword hvalue, ?_⟩
  simp [Store.readAt, hslot, hvalue]

theorem Step.superMethod_eq
    {place : PlaceId} {distance : Nat} {superclass : ClassId}
    {object : ObjectId} (line : Nat) (name : Ident)
    (hplace : m.distances.find? place = some distance)
    (hsuper : m.store.readAt m.current distance "super" =
      .ok (.classRef superclass))
    (hthis : m.store.readAt m.current (innerDistance distance) "this" =
      .ok (.object object)) :
    superMethod place line name m =
      match m.store.method? superclass name.name with
      | some found => methodValue found object m
      | none => fail (.undefinedProperty name.name) name.line m := by
  have hdistance : distance? place m = .ok (some distance) m := by
    rw [distance?, ask, hplace]
  have hclass :
      (orDefect =<< ask fun machine =>
        machine.store.readAt machine.current distance "super") m =
        .ok (.classRef superclass) m :=
    askDefect_eq hsuper
  have hobject :
      (orDefect =<< ask fun machine => machine.store.readAt machine.current
        (innerDistance distance) "this") m = .ok (.object object) m :=
    askDefect_eq hthis
  have hfound :
      ask (fun machine => machine.store.method? superclass name.name) m =
        .ok (m.store.method? superclass name.name) m :=
    rfl
  rw [superMethod, bind_eq hdistance]
  dsimp only
  rw [bind_eq hclass, bind_eq hobject]
  dsimp only
  rw [bind_eq hfound]
  cases m.store.method? superclass name.name <;> rfl

/-! ## What lasts of a fetch -/

/-- A method that is bound to an instance, as it is found ever after. -/
structure BoundTo (final : Machine) (method : Function) (object : ObjectId)
    (bound : Function) : Prop where
  this : final.store.local? bound.closure "this" = some (.object object)
  parent : final.store.parent? bound.closure = some method.closure
  marks : final.Records (bound.declaration.marks 0)
  owner : ∃ (owner : ClassId) (cls : Class) (name : String),
    final.store.classes[owner]? = some cls ∧
      cls.methods.find? name = some method

theorem Machine.Sound.bound
    {chart : Chart} {method bound : Function} {object : ObjectId}
    {cls : ClassId} {name : String} {final m₁ : Machine} (hm : m.Sound chart)
    (hmethod : m.store.method? cls name = some method)
    (hbind : bindMethod method object m = .ok bound m₁)
    (hfinal : m₁.Endures final) : BoundTo final method object bound := by
  obtain ⟨stack, hbound, -⟩ := hm.store.method? hmethod
  obtain ⟨owner, record, hrecord, hfound⟩ :=
    Store.exists_class_of_method? hmethod
  let frame : Frame :=
    ⟨some method.closure, Bindings.empty.put "this" (.object object)⟩
  obtain ⟨rfl, rfl⟩ :
      bound = { method with closure := m.store.frames.size } ∧
        m₁ = { m with store := (m.store.addFrame frame).2 } := by
    cases hbind
    exact ⟨rfl, rfl⟩
  refine ⟨?_, ?_, ?_, owner, record, name, hfinal.grows.classes hrecord, hfound⟩
  · apply hfinal.local?_eq (by decide)
    simp [frame, Store.local?_addFrame, Bindings.find?_put_self]
  · apply hfinal.grows.parent?
    simp [frame, Store.parent?, Store.frames_addFrame]
  · intro mark hmark
    exact hfinal.distances
      (hm.distances
        (FunctionDecl.Bound.marks (.this stack) _ hbound mark hmark))

theorem Step.endures_methodValue
    {method bound : Function} {object : ObjectId} {m₁ : Machine}
    (hbind : bindMethod method object m = .ok bound m₁) :
    m₁.Endures ((methodValue method object).left m) :=
  endures_after hbind
    ((steady_addFunction bound).bind fun _ _ _ => steady_pure _)

end

/-- Every use of one of the words in an accepted text has the distance that its
depth tells. -/
theorem Analysis.find?_of_mem_marks
    {source : String} {firstId : PlaceId} {checked : Checked}
    (hverdict : (Analysis.ofSource source firstId).verdict = .ok checked)
    {mark : Mark} (hmark : mark ∈ Stmt.marksAll 0 checked.program) :
    checked.distances.find? mark.id = some mark.distance := by
  obtain ⟨⟨tokens, hnamed, hderives⟩, hresolve⟩ :=
    Analysis.of_verdict_eq_ok hverdict
  let chart : Chart :=
    ⟨fun id distance => checked.distances.find? id = distance, fun _ => True⟩
  have hbound : Stmt.BoundAll chart false [] checked.program :=
    Scope.resolve_bound hresolve (hderives.shaped hnamed)
      hderives.numbered.nodup (fun _ _ => rfl) fun _ _ => trivial
  have htop : Stack.AtDepth [] 0 := fun _ hthis => nomatch hthis
  exact Stmt.BoundAll.marks htop _ hbound mark hmark

namespace Session

section
variable {programs : List Program} {session : Session} {inputs : List String}
variable {fuel f : Nat} {task : Task} {m : Machine}
variable {method bound : Function} {object : ObjectId}

theorem Occurs.fetched
    (h : Occurs fuel session inputs f task m)
    (hsession : session.Settled programs)
    (hfetches : Fetches f task m method object bound) :
    BoundTo (session.after fuel inputs).machine method object bound := by
  obtain ⟨⟨chart, hsettled⟩, hleft⟩ := h.settled hsession
  have hm := hsettled.machine
  cases hfetches with
  | get htarget hfield hrecord hmethod hbind =>
      rename_i _ target _ _ _ _
      obtain ⟨stack, pending, hsituated, hbound⟩ := hsettled.bound
      have htargetBound : target.Bound chart stack pending := hbound
      have hafter :=
        (safe chart _).after_eval hm hsituated htargetBound htarget
      apply hafter.1.bound hmethod hbind
      refine Machine.Endures.trans ?_ hleft
      apply Step.endures_after htarget
      apply Step.endures_ask hfield
      refine Step.endures_ask (a := some method) ?_ ?_
      · simp [hrecord, hmethod]
      · exact Step.endures_methodValue hbind
  | super hplace hsuper hthis hmethod hbind =>
      apply hm.bound hmethod hbind
      refine Machine.Endures.trans ?_ hleft
      rename_i line name
      have hrun := Step.superMethod_eq line name hplace hsuper hthis
      simp only [hmethod] at hrun
      have hsame := Step.endures_methodValue hbind
      simp only [Step.left, ← hrun] at hsame
      exact hsame
  | construct hmethod hbind =>
      rename_i cls _ _
      have hobject : (m.withObject cls).Sound chart :=
        hm.withStore (hm.store.addObject _)
      apply hobject.bound hmethod hbind
      exact (h.enter (.construct hmethod hbind)).endures hsession

/-- The frame around the methods of a class binds `super` to the superclass
that was found when the class was declared, and what is found from that class
never changes. -/
theorem Occurs.made
    {cls : Class} {made : Machine} {name : String}
    (h : Occurs fuel session inputs f task m)
    (hsession : session.Settled programs) (hmakes : Makes f task m cls made)
    (hmethod : cls.methods.find? name = some method) :
    let final := (session.after fuel inputs).machine
    final.store.local? method.closure "super" =
        cls.superclass.map .classRef ∧
      ∀ superclass n, cls.superclass = some superclass →
        final.store.method? superclass n =
          made.store.method? superclass n := by
  intro final
  obtain ⟨⟨chart, hsettled⟩, hleft⟩ := h.settled hsession
  cases hmakes with
  | base hdefine =>
      -- The methods keep the frame of the declaration, which binds no `super`.
      obtain ⟨declaration, -, rfl⟩ := Step.find?_methodTable hmethod
      cases hdefine
      constructor
      · rw [(h.endures hsession).words hsettled.bare.inside (by decide)]
        exact hsettled.bare.unbound
      · intro superclass n hsuperclass
        cases hsuperclass
  | derived hdefine heval =>
      rename_i m₁ f expr superclass ident methods
      obtain ⟨declaration, -, rfl⟩ := Step.find?_methodTable hmethod
      obtain ⟨inFunction, stack, -, hbound⟩ := hsettled.bound
      have hname : Ordinary ident.name := hbound.1.1
      have hexpr := h.enter (.superclass hdefine)
      obtain ⟨⟨_, hready⟩, hmade⟩ := hexpr.settled hsession
      constructor
      · let frame : Frame :=
          ⟨some made.current,
            Bindings.empty.put "super" (.classRef superclass)⟩
        let framed : Machine :=
          { made with store := (made.store.addFrame frame).2 }
        have hclass : framed.Endures
            ((Step.declareClass ident (some superclass) methods).left
              made) := by
          rw [Step.declareClass_eq]
          exact Step.endures_ask rfl
            (Step.endures_after rfl (Step.steady_finishClass hname _))
        have hend : framed.Endures final := by
          refine Machine.Endures.trans ?_ hleft
          apply Step.endures_after hdefine
          apply Step.endures_after heval
          exact hclass.trans
            (Step.endures_bind fun _ _ _ => Step.steady_pure _)
        apply hend.local?_eq (by decide)
        simp [framed, frame, Store.local?_addFrame, Bindings.find?_put_self]
      · intro other n hother
        cases hother
        have hgiven := (closing f (.eval expr) m₁ hready.closed
          (List.forall_mem_nil _)).of_ok heval
        have hknown := hgiven.2 (.classRef superclass) List.mem_cons_self
        have hgrows : made.store.Grows final.store := by
          have hleft := hmade.grows
          rwa [show Task.run f (.eval expr) = Step.eval f expr from rfl,
            Step.left_of_ok heval] at hleft
        exact hgrows.method? hknown n

/-- A task of a bound method is carried out in a frame from which the frame of
`this` is as far away as the text tells. -/
theorem Serves.inside
    (hsession : session.Settled programs)
    (hbound : BoundTo (session.after fuel inputs).machine method object bound)
    (h : Serves (Occurs fuel session inputs) bound f task m) :
    let final := (session.after fuel inputs).machine
    Occurs fuel session inputs f task m ∧ task.isLocal = true ∧
      ∃ depth, final.store.ancestor m.current depth = .ok bound.closure ∧
        final.Records (task.marks depth) := by
  intro final
  induction h with
  | body hinvoke =>
      have hnext := hinvoke.enter .body
      have hparent := (hnext.endures hsession).grows.parent?
        (Machine.parent?_within _ _ _)
      refine ⟨hnext, rfl, 1, Store.ancestor_of_parent hparent 0, ?_⟩
      have hmarks := hbound.marks
      rw [FunctionDecl.marks_eq] at hmarks
      exact hmarks
  | step _ henters hlocal ih =>
      obtain ⟨hoccurs, hlocal₀, depth, hancestor, hmarks⟩ := ih
      have hnext := hoccurs.enter henters
      rcases henters.inside hlocal₀ hlocal with
        ⟨hcurrent, hsub⟩ | ⟨rfl, hsub⟩
      · refine ⟨hnext, hlocal, depth, ?_, fun mark hmark => ?_⟩
        · rw [hcurrent]
          exact hancestor
        · exact hmarks mark (hsub depth hmark)
      · refine ⟨hnext, hlocal, depth + 1, ?_, fun mark hmark => ?_⟩
        · have houter := (hnext.endures hsession).grows.parent?
            (Machine.parent?_within _ _ _)
          exact (Store.ancestor_of_parent houter depth).trans hancestor
        · exact hmarks mark (hsub depth hmark)
  | nested _ hinvoke ih =>
      rename_i declaration _ _ _ _ _
      obtain ⟨-, -, depth, hancestor, hmarks⟩ := ih
      have hnext := hinvoke.enter .body
      have hparent := (hnext.endures hsession).grows.parent?
        (Machine.parent?_within _ _ _)
      refine ⟨hnext, rfl, depth + 1,
        (Store.ancestor_of_parent hparent depth).trans hancestor, ?_⟩
      change final.Records (declaration.marks depth) at hmarks
      rw [FunctionDecl.marks_eq] at hmarks
      exact hmarks

theorem Serves.this
    {id : PlaceId} {line : Nat} (hsession : session.Settled programs)
    (hbound : BoundTo (session.after fuel inputs).machine method object bound)
    (h : Serves (Occurs fuel session inputs) bound (f + 1)
      (.eval (.this id line)) m) :
    Step.eval (f + 1) (.this id line) m = .ok (.object object) m := by
  obtain ⟨hoccurs, -, depth, hancestor, hmarks⟩ :=
    Serves.inside hsession hbound h
  obtain ⟨⟨chart, hsettled⟩, -⟩ := hoccurs.settled hsession
  obtain ⟨stack, pending, hsituated, distance, hthis, hplace⟩ :=
    hsettled.bound
  have hfinal := hoccurs.endures hsession
  have hdistance := hsettled.machine.distances hplace
  have hdepth : distance = depth := by
    have hmark := hmarks ⟨.this, id, depth⟩ List.mem_cons_self
    rw [hfinal.distances hdistance] at hmark
    exact Option.some.inj hmark
  subst hdepth
  obtain ⟨value, hvalue, hread⟩ :=
    hfinal.readAt (by decide) hsituated hthis hancestor
  rw [hbound.this] at hvalue
  cases hvalue
  change Step.readName id ⟨"this", line⟩ m = _
  simp only [Step.readName, hdistance, hread]

theorem Serves.super
    {id : PlaceId} {line : Nat} {n : Ident}
    (hsession : session.Settled programs)
    (hbound : BoundTo (session.after fuel inputs).machine method object bound)
    (h : Serves (Occurs fuel session inputs) bound (f + 1)
      (.eval (.super id line n)) m) :
    let final := (session.after fuel inputs).machine
    ∃ superclass,
      final.store.local? method.closure "super" =
          some (.classRef superclass) ∧
        Step.eval (f + 1) (.super id line n) m =
          match final.store.method? superclass n.name with
          | some found => methodValue found object m
          | none => Step.fail (.undefinedProperty n.name) n.line m := by
  intro final
  obtain ⟨hoccurs, -, depth, hancestor, hmarks⟩ :=
    Serves.inside hsession hbound h
  obtain ⟨⟨chart, hsettled⟩, -⟩ := hoccurs.settled hsession
  obtain ⟨stack, pending, hsituated, distance, hthis, hsuper, hplace⟩ :=
    hsettled.bound
  have hfinal := hoccurs.endures hsession
  have hdistance := hsettled.machine.distances hplace
  have hdepth : distance = depth := by
    have hmark := hmarks ⟨.super, id, depth⟩ List.mem_cons_self
    rw [hfinal.distances hdistance] at hmark
    exact Nat.succ.inj (Option.some.inj hmark)
  subst hdepth
  obtain ⟨value, hvalue, hread⟩ :=
    hfinal.readAt (by decide) hsituated hthis hancestor
  rw [hbound.this] at hvalue
  cases hvalue
  -- The frame of `super` is the one around that of `this`.
  obtain ⟨outer, houter, hreadOuter⟩ :=
    hfinal.readAt (by decide) hsituated hsuper
      (Store.ancestor_succ hancestor hbound.parent)
  obtain ⟨superclass, rfl⟩ : ∃ superclass, outer = .classRef superclass := by
    obtain ⟨holder, value, hsame, hlocal⟩ :=
      Step.readAt_of_fits hsituated.fits hsuper
    rw [hreadOuter] at hsame
    cases hsame
    exact hsettled.machine.store.super hlocal
  obtain ⟨holder, hlocal⟩ := Store.local?_of_readAt hreadOuter
  have hknown := hsettled.closed.frames hlocal
  refine ⟨superclass, houter, ?_⟩
  rw [hfinal.grows.method? hknown]
  have hinner : innerDistance (distance + 1) = distance := by
    simp [innerDistance]
  exact Step.superMethod_eq line n hdistance hreadOuter (hinner.symm ▸ hread)

end

/-! ## Every use belongs to a method -/

/-- No frame from here outwards holds an instance for `this`. -/
def Outside (final : Machine) (frame : FrameId) : Prop :=
  ∀ distance holder, final.store.ancestor frame distance = .ok holder →
    final.store.local? holder "this" = none

/-- The task belongs to some method that was fetched. -/
def Owned (course : Nat → Task → Machine → Prop) (f : Nat) (task : Task)
    (m : Machine) : Prop :=
  ∃ cls made object bound, IsMethod course cls made object bound ∧
    Serves course bound f task m

section
variable {programs : List Program} {start session : Session}
variable {sources inputs : List String} {fuel f : Nat} {task : Task}
variable {m final : Machine}

theorem Outside.within
    {parent : FrameId} {names : Bindings Value}
    (h : Outside final parent)
    (hfinal : (m.within (some parent) names).Endures final)
    (hnames : names.find? "this" = none) :
    Outside final (m.within (some parent) names).current := by
  intro distance holder hancestor
  cases distance with
  | zero =>
      cases hancestor
      rw [hfinal.words (by simp [Machine.within, Store.addFrame]) (by decide)]
      simp [Machine.within, Store.local?_addFrame, hnames]
  | succ distance =>
      have hparent := hfinal.grows.parent? (m.parent?_within parent names)
      rw [Store.ancestor_of_parent hparent] at hancestor
      exact h distance holder hancestor

/-- Outside of all instances, no scope binds `this`. -/
theorem Outside.unbound
    {stack : Stack} {distance : Nat} (h : Outside final m.current)
    (hfinal : m.Endures final) (hsituated : m.Situated stack)
    (hthis : stack.distance? "this" = some distance) : False := by
  obtain ⟨holder, hslot⟩ := hsituated.fits.slot hthis
  obtain ⟨hancestor, hsome⟩ := Store.slot_eq_ok hslot
  have hlater := hfinal.grows.local?_isSome hsome
  rw [h distance holder (hfinal.grows.ancestor hancestor)] at hlater
  cases hlater

theorem outside_start
    (fuel : Nat) (sink : Sink) (clock : Nat → Float) (inputs : List String) :
    Outside ((Session.start sink clock).after fuel inputs).machine
      (Session.start sink clock).machine.current := by
  have hfinal := (settled_start sink clock).endures_after fuel inputs
  intro distance holder hancestor
  cases distance with
  | zero =>
      cases hancestor
      exact hfinal.words Nat.zero_lt_one (by decide)
  | succ distance =>
      obtain ⟨frame, hframe, hparent, -⟩ := hfinal.grows.frames
        (show (Session.start sink clock).machine.store.frames[0]? = some _
          from rfl)
      have hnone : ((Session.start sink clock).after fuel
          inputs).machine.store.parent? 0 = none := by
        rw [Store.parent?, hframe]
        exact hparent
      change Store.ancestor _ 0 (distance + 1) = _ at hancestor
      simp [Store.ancestor, hnone] at hancestor

theorem stems_start
    (fuel : Nat) (sink : Sink) (clock : Nat → Float) (inputs : List String) :
    ((Session.start sink clock).after fuel inputs).machine.store.Stems
      (Occurs fuel (Session.start sink clock) inputs) := by
  refine stems_after (fun h henters => h.enter henters) fuel _ inputs id ?_
  constructor
  · intro id function hfound
    cases hfound
  · intro id cls hfound
    cases hfound

/-- A method that is fetched belongs to a class that was declared. -/
theorem Occurs.isMethod
    {method bound : Function} {object : ObjectId}
    (hstart : start.Settled programs)
    (hstems : (start.after fuel sources).machine.store.Stems
      (Occurs fuel start sources))
    (h : Occurs fuel start sources f task m)
    (hfetches : Fetches f task m method object bound) :
    ∃ cls made, IsMethod (Occurs fuel start sources) cls made object bound := by
  obtain ⟨owner, cls, name, hcls, hmethod⟩ :=
    (h.fetched hstart hfetches).owner
  obtain ⟨f', task', m', made, htask', hmakes⟩ := hstems.classes hcls
  exact ⟨cls, made, ⟨f', task', m', htask', hmakes⟩,
    ⟨f, task, m, method, name, h, hfetches, hmethod⟩⟩

theorem Occurs.stems_of_invoke
    {function : Function} {values : List Value}
    (hstart : start.Settled programs)
    (hstems : (start.after fuel sources).machine.store.Stems
      (Occurs fuel start sources))
    (hcourse : ∀ {f task m}, Occurs fuel session inputs f task m →
      Occurs fuel start sources f task m)
    (h : Occurs fuel session inputs f (.invoke function values) m) :
    Stems (Occurs fuel start sources) function := by
  generalize htask : Task.invoke function values = task at h
  induction h with
  | program => cases htask
  | later _ ih => exact ih (fun h => hcourse (.later h)) htask
  | enter hcaller henters _ =>
      subst htask
      have hcaller := hcourse hcaller
      cases henters with
      | callFunction hfunction =>
          exact hstems.functions
            ((hcaller.endures hstart).grows.functions hfunction)
      | construct hmethod hbind =>
          exact .fetched hcaller (.construct hmethod hbind)

/-- A function keeps a frame that is there. -/
theorem closure_lt_of_sound
    {chart : Chart} {function : Function} (hm : m.Sound chart)
    (h : function.Sound chart m.globals m.store) :
    function.closure < m.store.frames.size := by
  obtain ⟨⟨stack, -, hfits⟩, -⟩ := h
  cases stack with
  | nil =>
      have hglobals : function.closure = m.globals := hfits
      rw [hglobals]
      exact hm.store.outermost
  | cons names stack =>
      obtain ⟨-, parent, hparent, -⟩ := hfits
      cases hframe : m.store.frames[function.closure]? with
      | none => simp [Store.parent?, hframe] at hparent
      | some frame => exact (Array.getElem?_eq_some_iff.mp hframe).1

theorem Occurs.closure_lt
    {function : Function} {values : List Value}
    (hstart : start.Settled programs)
    (h : Occurs fuel start sources f (.invoke function values) m) :
    function.closure < m.store.frames.size := by
  obtain ⟨⟨chart, hsettled⟩, -⟩ := h.settled hstart
  exact closure_lt_of_sound hsettled.machine hsettled.bound.1

private theorem run_current (fuel : Nat) (session : Session) (source : String) :
    (session.run fuel source).2.machine.current =
      session.machine.current := by
  cases hverdict : (Analysis.ofSource source session.nextId).verdict with
  | error errors => rw [run_of_error fuel hverdict]
  | ok checked =>
      rw [run_of_ok fuel hverdict]
      exact (session.machine.run_later fuel checked).current

theorem Owned.step
    {course : Nat → Task → Machine → Prop} {task' : Task} {m' : Machine}
    (h : Owned course (f + 1) task m) (henters : Enters f task m task' m')
    (hlocal : task'.isLocal = true) : Owned course f task' m' := by
  obtain ⟨cls, made, object, bound, hmethod, hserves⟩ := h
  exact ⟨cls, made, object, bound, hmethod, hserves.step henters hlocal⟩

/-- A task of a text belongs to a method, or stands outside of all instances,
provided that this is so in the frames that are older than its own. -/
theorem Occurs.owned_or_outside_of_older
    (hstart : start.Settled programs)
    (hstems : (start.after fuel sources).machine.store.Stems
      (Occurs fuel start sources))
    (holder : ∀ {f' task' m'}, Occurs fuel start sources f' task' m' →
      task'.isLocal = true → m'.current < m.current →
      Owned (Occurs fuel start sources) f' task' m' ∨
        Outside (start.after fuel sources).machine m'.current)
    (h : Occurs fuel session inputs f task m) (hlocal : task.isLocal = true)
    (hcourse : ∀ {f task m}, Occurs fuel session inputs f task m →
      Occurs fuel start sources f task m)
    (hroot : Outside (start.after fuel sources).machine
      session.machine.current) :
    Owned (Occurs fuel start sources) f task m ∨
      Outside (start.after fuel sources).machine m.current := by
  induction h with
  | program => exact .inr hroot
  | later _ ih =>
      refine ih holder hlocal (fun h => hcourse (.later h)) ?_
      rw [run_current]
      exact hroot
  | enter hbefore henters ih =>
      have hcaller := hcourse hbefore
      have hfinal := (hcaller.enter henters).endures hstart
      rename_i f task m task' m'
      by_cases htask : task.isLocal = true
      · rcases henters.inside htask hlocal with ⟨hcurrent, -⟩ | ⟨rfl, -⟩
        · rw [hcurrent] at holder ⊢
          exact (ih holder htask hcourse hroot).imp_left
            fun howned => howned.step henters hlocal
        · obtain ⟨⟨chart, hsettled⟩, -⟩ := hcaller.settled hstart
          rcases holder hcaller htask hsettled.bare.inside with
            howned | houtside
          · exact .inl (howned.step henters hlocal)
          · exact .inr (houtside.within hfinal rfl)
      · cases henters with
        | body =>
            rename_i function values
            rcases hbefore.stems_of_invoke hstart hstems hcourse with
              hdeclared | ⟨hfetcher, hfetches⟩
            · rcases holder hdeclared rfl (hcaller.closure_lt hstart) with
                ⟨cls, made, object, bound, hmethod, hserves⟩ | houtside
              · exact .inl ⟨cls, made, object, bound, hmethod,
                  .nested hserves hcaller⟩
              · obtain ⟨⟨chart, hsettled⟩, -⟩ := hcaller.settled hstart
                exact .inr (houtside.within hfinal
                  (hsettled.bound.1.find?_bindParams hsettled.bound.2
                    (by decide)))
            · obtain ⟨cls, made, hmethod⟩ :=
                hfetcher.isMethod hstart hstems hfetches
              exact .inl ⟨cls, made, _, function, hmethod, .body hcaller⟩
        | call | callFunction | construct => cases hlocal
        | _ => exact absurd rfl htask

theorem Occurs.owned_or_outside
    (hstart : start.Settled programs)
    (hstems : (start.after fuel sources).machine.store.Stems
      (Occurs fuel start sources))
    (hroot : Outside (start.after fuel sources).machine start.machine.current)
    (h : Occurs fuel start sources f task m) (hlocal : task.isLocal = true) :
    Owned (Occurs fuel start sources) f task m ∨
      Outside (start.after fuel sources).machine m.current := by
  -- A body is carried out in a frame that is younger than the one in which its
  -- function was declared, however late the call is.
  generalize hframe : m.current = frame
  induction frame using Nat.strongRecOn generalizing f task m with
  | ind frame ih =>
      subst hframe
      apply Occurs.owned_or_outside_of_older hstart hstems _ h hlocal id hroot
      intro f' task' m' htask' hlocal' hlt
      exact ih m'.current hlt htask' hlocal' rfl

end

/-- In every method, `this` is the instance from which the method was fetched,
and `super` stands for what the superclass of the method's class was when that
class was declared, for the same instance.  This holds in the method's own body
and in the functions that it declares, for whatever class the instance has and
whatever has become of the names of the classes; and there is no other use of
the two words.  In the text, `this` is as far away as its depth tells, and
`super` always one further. -/
theorem this_and_super_are_bound_statically
    (fuel : Nat) (sink : Sink) (clock : Nat → Float) (inputs : List String) :
    let course := Occurs fuel (start sink clock) inputs
    (∀ cls made object bound, IsMethod course cls made object bound →
      (∀ f id line m,
        Serves course bound (f + 1) (.eval (.this id line)) m →
        Step.eval (f + 1) (.this id line) m = .ok (.object object) m) ∧
      ∀ f id line n m,
        Serves course bound (f + 1) (.eval (.super id line n)) m →
        ∃ superclass, cls.superclass = some superclass ∧
          Step.eval (f + 1) (.super id line n) m =
            match made.store.method? superclass n.name with
            | some found => methodValue found object m
            | none => Step.fail (.undefinedProperty n.name) n.line m) ∧
    (∀ f expr m, course f (.eval expr) m →
      (∃ id line, expr = .this id line) ∨
        (∃ id line n, expr = .super id line n) →
      ∃ cls made object bound, IsMethod course cls made object bound ∧
        Serves course bound f (.eval expr) m) ∧
    ∀ source firstId checked,
      (Analysis.ofSource source firstId).verdict = .ok checked →
      ∀ mark ∈ Stmt.marksAll 0 checked.program,
        checked.distances.find? mark.id =
          some (match mark.word with
            | .this => mark.depth
            | .super => mark.depth + 1) := by
  intro course
  have hstart := settled_start sink clock
  refine ⟨?_, ?_, fun source firstId checked hverdict mark hmark =>
    Analysis.find?_of_mem_marks hverdict hmark⟩
  · rintro cls made object bound ⟨⟨f₀, task₀, m₀, htask₀, hmakes⟩,
      ⟨f₁, task₁, m₁, method, name, htask₁, hfetches, hmethod⟩⟩
    have hbound := htask₁.fetched hstart hfetches
    obtain ⟨hsuper, hstable⟩ := htask₀.made hstart hmakes hmethod
    constructor
    · intro f id line m hserves
      exact Serves.this hstart hbound hserves
    · intro f id line n m hserves
      obtain ⟨superclass, hlocal, hrun⟩ :=
        Serves.super hstart hbound hserves
      rw [hsuper] at hlocal
      obtain ⟨other, hother, hsame⟩ := Option.map_eq_some_iff.mp hlocal
      cases hsame
      refine ⟨superclass, hother, ?_⟩
      rw [← hstable superclass n.name hother]
      exact hrun
  · intro f expr m hcourse hexpr
    rcases hcourse.owned_or_outside hstart (stems_start fuel sink clock inputs)
        (outside_start fuel sink clock inputs) rfl with howned | houtside
    · exact howned
    · exfalso
      obtain ⟨⟨chart, hsettled⟩, -⟩ := hcourse.settled hstart
      obtain ⟨stack, pending, hsituated, hbound⟩ := hsettled.bound
      have hfinal := hcourse.endures hstart
      rcases hexpr with ⟨id, line, rfl⟩ | ⟨id, line, n, rfl⟩
      · obtain ⟨distance, hthis, -⟩ := hbound
        exact houtside.unbound hfinal hsituated hthis
      · obtain ⟨distance, hthis, -⟩ := hbound
        exact houtside.unbound hfinal hsituated hthis

/-- The initializer of `B` is carried out for an instance of `C`, from which
`m` would be found in `B`. -/
def inherited : String :=
  "class A \x7b m() \x7b \x7d \x7d class B < A \x7b m() \x7b \x7d init() " ++
    "\x7b this; super.m; \x7d \x7d class C < B \x7b \x7d C();"

/-- The turns that lead to the body of the initializer. -/
def inheritedTurns : List Turn :=
  List.replicate 3 .past ++ List.replicate 5 .into

private theorem inherited_visits_this :
    (match (start .unlimited fun _ => 0).visit? inherited 10
        (inheritedTurns ++ [.into, .into]) with
      | some (.eval (.this _ _), _) => true
      | _ => false) = true := by
  decide +kernel

private theorem inherited_visits_super :
    (match (start .unlimited fun _ => 0).visit? inherited 9
        (inheritedTurns ++ [.past, .into, .into]) with
      | some (.eval (.super id line n), m) =>
          ((Step.eval 9 (.super id line n)).outcome? m).isSome
      | _ => false) = true := by
  decide +kernel

private theorem inherited_occurs :
    let course := Occurs 20 (start .unlimited fun _ => 0) [inherited]
    ∃ id line id' line' n m m' value m'',
      course 10 (.eval (.this id line)) m ∧
        course 9 (.eval (.super id' line' n)) m' ∧
        Step.eval 9 (.super id' line' n) m' = .ok value m'' := by
  intro course
  have hthis := inherited_visits_this
  have hsuper := inherited_visits_super
  split at hthis <;> try contradiction
  next id line m hvisit =>
  split at hsuper <;> try contradiction
  next id' line' n m' hvisit' =>
  obtain ⟨⟨value, m''⟩, hvalue⟩ := Option.isSome_iff_exists.mp hsuper
  exact ⟨id, line, id', line', n, m, m', value, m'', occurs_of_visit? hvisit,
    occurs_of_visit? hvisit', Step.outcome?_eq_some_iff.mp hvalue⟩

private theorem inherited_has_marks :
    (match (Analysis.ofSource inherited 0).verdict with
      | .error _ => true
      | .ok checked => (Stmt.marksAll 0 checked.program).isEmpty) = false := by
  decide +kernel

theorem inherited_words_are_bound_statically :
    let course := Occurs 20 (start .unlimited fun _ => 0) [inherited]
    (∃ f id line m cls made object bound,
      IsMethod course cls made object bound ∧
        Serves course bound (f + 1) (.eval (.this id line)) m ∧
        Step.eval (f + 1) (.this id line) m = .ok (.object object) m) ∧
      (∃ f id line n m cls made object bound superclass found,
        IsMethod course cls made object bound ∧
          Serves course bound (f + 1) (.eval (.super id line n)) m ∧
          cls.superclass = some superclass ∧
          made.store.method? superclass n.name = some found ∧
          Step.eval (f + 1) (.super id line n) m =
            methodValue found object m) ∧
      ∃ checked mark, (Analysis.ofSource inherited 0).verdict = .ok checked ∧
        mark ∈ Stmt.marksAll 0 checked.program ∧
        checked.distances.find? mark.id = some (match mark.word with
          | .this => mark.depth
          | .super => mark.depth + 1) := by
  have hbinding :=
    this_and_super_are_bound_statically 20 .unlimited (fun _ => 0) [inherited]
  obtain ⟨id, line, id', line', n, m, m', value, m'', hthis, hsuper, hvalue⟩ :=
    inherited_occurs
  have hmarks := inherited_has_marks
  split at hmarks <;> try contradiction
  next checked hverdict =>
  obtain ⟨mark, hmark⟩ := List.isEmpty_eq_false_iff_exists_mem.mp hmarks
  refine ⟨?_, ?_, checked, mark, hverdict, hmark,
    hbinding.2.2 inherited 0 checked hverdict mark hmark⟩
  · obtain ⟨cls, made, object, bound, hmethod, hserves⟩ :=
      hbinding.2.1 10 _ m hthis (.inl ⟨id, line, rfl⟩)
    exact ⟨9, id, line, m, cls, made, object, bound, hmethod, hserves,
      (hbinding.1 cls made object bound hmethod).1 9 id line m hserves⟩
  · obtain ⟨cls, made, object, bound, hmethod, hserves⟩ :=
      hbinding.2.1 9 _ m' hsuper (.inr ⟨id', line', n, rfl⟩)
    obtain ⟨superclass, hsuperclass, heval⟩ :=
      (hbinding.1 cls made object bound hmethod).2 8 id' line' n m' hserves
    cases hfound : made.store.method? superclass n.name with
    | none =>
        rw [hfound, hvalue] at heval
        contradiction
    | some found =>
        rw [hfound] at heval
        exact ⟨8, id', line', n, m', cls, made, object, bound, superclass,
          found, hmethod, hserves, hsuperclass, hfound, heval⟩

end Session

end LoxLang
