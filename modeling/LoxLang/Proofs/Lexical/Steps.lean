import LoxLang.Proofs.Lexical.Agreement
import LoxLang.Proofs.Scope.Safety

/-!
# Single steps on both sides

A machine and an evaluation by locations that agree still agree after a step
that reads or writes a name, declares something, makes a frame, fetches a
method or prints.  The rules for `Follows` put such steps together.
-/

namespace LoxLang

open Scope (Stack Chart)

theorem map_name_zip
    {params : List Ident} {arguments : List Value}
    (hlength : params.length = arguments.length) :
    ((params.zip arguments).map fun pair => pair.1.name) =
      params.map Ident.name := by
  have hfst : (params.zip arguments).map Prod.fst = params :=
    List.map_fst_zip (Nat.le_of_eq hlength)
  calc
    ((params.zip arguments).map fun pair => pair.1.name) =
        ((params.zip arguments).map Prod.fst).map Ident.name := by simp
    _ = params.map Ident.name := by rw [hfst]

theorem Step.find?_foldl_put
    {param : Ident} {value : Value} (pairs : List (Ident × Value))
    (names : Bindings Value)
    (hpairs : (pairs.map fun pair => pair.1.name).Nodup)
    (hmem : (param, value) ∈ pairs ∨
      names.find? param.name = some value ∧
        param.name ∉ pairs.map fun pair => pair.1.name) :
    (pairs.foldl (fun names (param, value) => names.put param.name value)
      names).find? param.name = some value := by
  induction pairs generalizing names with
  | nil =>
      cases hmem with
      | inl hmem => cases hmem
      | inr hfound => exact hfound.1
  | cons pair pairs ih =>
      rw [List.map_cons, List.nodup_cons] at hpairs
      refine ih _ hpairs.2 ?_
      cases hmem with
      | inl hmem =>
          cases hmem with
          | head => exact .inr ⟨Bindings.find?_put_self _ _ _, hpairs.1⟩
          | tail _ hmem => exact .inl hmem
      | inr hfound =>
          rw [List.map_cons, List.mem_cons, not_or] at hfound
          refine .inr ⟨?_, hfound.2.2⟩
          rw [Bindings.find?_put_of_ne _ _ hfound.2.1]
          exact hfound.1

/-- The value of a parameter is its argument, if no other one has its name. -/
theorem Step.find?_bindParams
    {params : List Ident} {arguments : List Value} {param : Ident}
    {value : Value} (hlength : params.length = arguments.length)
    (hnodup : (params.map Ident.name).Nodup)
    (hmem : (param, value) ∈ params.zip arguments) :
    (bindParams params arguments).find? param.name = some value := by
  refine find?_foldl_put _ _ ?_ (.inl hmem)
  rw [map_name_zip hlength]
  exact hnodup

namespace Lexical

/-! ## Runs that go the same way -/

/-- Both results are values that fit together and leave a state that agrees
with the machine, or both runs halt for the same reason. -/
inductive Follows
    {α β : Type} (chart : Chart) (owners : List Slot)
    (values : List Slot → Machine → α → β → Prop) :
    EStateM.Result Halt Machine α → EStateM.Result Halt State β → Prop where
  | ok :
      owners <+: owners₁ → Agree chart owners₁ m₁ s₁ →
      values owners₁ m₁ a b →
      Follows chart owners values (.ok a m₁) (.ok b s₁)
  | error :
      m₁.sink = s₁.sink →
      Follows chart owners values (.error halt m₁) (.error halt s₁)

/-- Both values are the same. -/
def Same {α : Type} (_ : List Slot) (_ : Machine) (a b : α) : Prop :=
  a = b

section
variable {α β γ δ : Type} {chart : Chart} {owners : List Slot} {m : Machine}
variable {s : State} {values : List Slot → Machine → α → β → Prop}
variable {others : List Slot → Machine → γ → δ → Prop}

theorem follows_pure
    {a : α} {b : β} (h : Agree chart owners m s)
    (hvalues : values owners m a b) :
    Follows chart owners values ((pure a : LoxLang.Step α) m)
      ((pure b : Step β) s) :=
  .ok (List.prefix_refl owners) h hvalues

theorem follows_throw (h : Agree chart owners m s) (halt : Halt) :
    Follows chart owners values ((throw halt : LoxLang.Step α) m)
      ((throw halt : Step β) s) :=
  .error h.sink

theorem Follows.weaken
    {first : List Slot} {x : EStateM.Result Halt Machine α}
    {y : EStateM.Result Halt State β} (h : Follows chart owners values x y)
    (hbegins : first <+: owners) : Follows chart first values x y := by
  cases h with
  | ok hmore hagree hvalues =>
      exact .ok (hbegins.trans hmore) hagree hvalues
  | error hsink => exact .error hsink

theorem Follows.bind
    {x : LoxLang.Step α} {y : Step β} {f : α → LoxLang.Step γ}
    {g : β → Step δ} (h : Follows chart owners values (x m) (y s))
    (hnext : ∀ {owners₁ a b m₁ s₁}, x m = .ok a m₁ → owners <+: owners₁ →
      Agree chart owners₁ m₁ s₁ → values owners₁ m₁ a b →
      Follows chart owners₁ others (f a m₁) (g b s₁)) :
    Follows chart owners others ((x >>= f) m) ((y >>= g) s) := by
  change Follows chart owners others (EStateM.bind x f m)
    (EStateM.bind y g s)
  unfold EStateM.bind
  cases hx : x m with
  | ok a m₁ =>
      cases hy : y s with
      | ok b s₁ =>
          rw [hx, hy] at h
          cases h with
          | ok hbegins hagree hvalues =>
              exact (hnext hx hbegins hagree hvalues).weaken hbegins
      | error halt s₁ =>
          rw [hx, hy] at h
          cases h
  | error halt m₁ =>
      cases hy : y s with
      | ok b s₁ =>
          rw [hx, hy] at h
          cases h
      | error halt' s₁ =>
          rw [hx, hy] at h
          cases h with
          | error hsink => exact .error hsink

theorem Follows.bind_ok
    {x : LoxLang.Step α} {y : Step β} {f : α → LoxLang.Step γ}
    {g : β → Step δ} {a : α} {b : β} {m₁ : Machine} {s₁ : State}
    (hx : x m = .ok a m₁) (hy : y s = .ok b s₁)
    (hnext : Follows chart owners others (f a m₁) (g b s₁)) :
    Follows chart owners others ((x >>= f) m) ((y >>= g) s) := by
  change Follows chart owners others (EStateM.bind x f m)
    (EStateM.bind y g s)
  unfold EStateM.bind
  rw [hx, hy]
  exact hnext

/-- A last change to the value of the second run. -/
theorem Follows.map_right
    {x : LoxLang.Step α} {y : Step β} {g : β → δ}
    {others : List Slot → Machine → α → δ → Prop}
    (h : Follows chart owners values (x m) (y s))
    (hmap : ∀ {owners₁ a b m₁}, x m = .ok a m₁ → owners <+: owners₁ →
      values owners₁ m₁ a b → others owners₁ m₁ a (g b)) :
    Follows chart owners others (x m)
      ((y >>= fun b => (pure (g b) : Step δ)) s) := by
  rw [show x = x >>= pure from (bind_pure x).symm]
  exact h.bind fun hrun hbegins hagree hvalues =>
    follows_pure hagree (hmap hrun hbegins hvalues)

/-- The first run is in a new frame meanwhile. -/
theorem Follows.nested
    {action : LoxLang.Step α} {y : Step β}
    {parent : Option FrameId} {names : Bindings Value}
    {others : List Slot → Machine → α → β → Prop}
    (h : Follows chart owners values (action (m.within parent names)) (y s))
    (hback : ∀ {owners₁ a b m₁}, values owners₁ m₁ a b →
      others owners₁ { m₁ with current := m.current } a b) :
    Follows chart owners others
      (LoxLang.Step.nested parent names action m) (y s) := by
  rw [LoxLang.Step.nested_eq]
  cases haction : action (m.within parent names) with
  | ok a m₁ =>
      cases hy : y s with
      | ok b s₁ =>
          rw [haction, hy] at h
          cases h with
          | ok hbegins hagree hvalues =>
              exact .ok hbegins (hagree.withCurrent m.current)
                (hback hvalues)
      | error halt s₁ =>
          rw [haction, hy] at h
          cases h
  | error halt m₁ =>
      cases hy : y s with
      | ok b s₁ =>
          rw [haction, hy] at h
          cases h
      | error halt' s₁ =>
          rw [haction, hy] at h
          cases h with
          | error hsink => exact .error hsink

/-- Both runs ask a question that has the same answer. -/
theorem Follows.ask
    {question : Machine → α} {question' : State → α}
    {f : α → LoxLang.Step γ} {g : α → Step δ}
    (hsame : question m = question' s)
    (hnext : ∀ a, question m = a →
      Follows chart owners others (f a m) (g a s)) :
    Follows chart owners others ((LoxLang.Step.ask question >>= f) m)
      ((Step.ask question' >>= g) s) := by
  change Follows chart owners others (f (question m) m) (g (question' s) s)
  rw [← hsame]
  exact hnext _ rfl

/-- Both runs look for something, and both find it or neither does. -/
theorem Follows.look
    {rel : α → β → Prop} {question : Machine → Option α}
    {question' : State → Option β} {f : Option α → LoxLang.Step γ}
    {g : Option β → Step δ} (hpaired : Paired rel (question m) (question' s))
    (hnone : Follows chart owners others (f none m) (g none s))
    (hsome : ∀ a b, question m = some a → rel a b →
      Follows chart owners others (f (some a) m) (g (some b) s)) :
    Follows chart owners others ((LoxLang.Step.ask question >>= f) m)
      ((Step.ask question' >>= g) s) := by
  change Follows chart owners others (f (question m) m) (g (question' s) s)
  cases hm : question m with
  | none =>
      cases hs : question' s with
      | none => exact hnone
      | some b =>
          rw [hm, hs] at hpaired
          cases hpaired
  | some a =>
      cases hs : question' s with
      | none =>
          rw [hm, hs] at hpaired
          cases hpaired
      | some b =>
          rw [hm, hs] at hpaired
          cases hpaired with
          | some hrel => exact hsome a b hm hrel

end

/-! ## Standing in scopes -/

/-- The machine and the state agree, and execute a place in the scopes of a
stack. -/
structure Stands
    (chart : Chart) (owners : List Slot) (m : Machine) (s : State)
    (stack : Stack) (env : Env) : Prop where
  sound : m.Sound chart
  agree : Agree chart owners m s
  situated : m.Situated stack
  env : env.Mirrors owners m.store m.globals m.current stack

section
variable {chart : Chart} {owners owners₁ : List Slot} {m m₁ : Machine}
variable {s s₁ : State} {stack : Stack} {env : Env} {fuel : Nat}

theorem Env.Mirrors.later
    {declared : List String}
    (h : env.Mirrors owners m.store m.globals m.current stack)
    (hbegins : owners <+: owners₁) (hlater : m.Later declared m₁) :
    env.Mirrors owners₁ m₁.store m₁.globals m₁.current stack := by
  rw [hlater.globals, hlater.current]
  exact h.grows hbegins hlater.grows

theorem Stands.after_eval
    {expr : Expr} {pending : Option String} {value : Value}
    (h : Stands chart owners m s stack env)
    (hbound : expr.Bound chart stack pending)
    (hrun : LoxLang.Step.eval fuel expr m = .ok value m₁)
    (hbegins : owners <+: owners₁) (hagree : Agree chart owners₁ m₁ s₁) :
    Stands chart owners₁ m₁ s₁ stack env := by
  have hafter := (safe chart fuel).after_eval h.sound h.situated hbound hrun
  have hlater := (LoxLang.Step.run_keeps fuel (.eval expr) m).of_ok hrun
  exact ⟨hafter.1, hagree, hafter.2, h.env.later hbegins hlater⟩

theorem Stands.after_evalAll
    {exprs : List Expr} {pending : Option String} {values : List Value}
    (h : Stands chart owners m s stack env)
    (hbound : Expr.BoundAll chart stack pending exprs)
    (hrun : LoxLang.Step.evalAll fuel exprs m = .ok values m₁)
    (hbegins : owners <+: owners₁) (hagree : Agree chart owners₁ m₁ s₁) :
    Stands chart owners₁ m₁ s₁ stack env := by
  have hafter :=
    (safe chart fuel).after_evalAll h.sound h.situated hbound hrun
  have hlater := (LoxLang.Step.run_keeps fuel (.evalAll exprs) m).of_ok hrun
  exact ⟨hafter.1, hagree, hafter.2, h.env.later hbegins hlater⟩

/-! ## Names -/

/-- The outermost frame has no other one around it. -/
theorem Agree.holder? (h : Agree chart owners m s) (name : String) :
    m.store.holder? m.globals name =
      if s.globals.has name then some m.globals else none := by
  obtain ⟨frame, hframe, hparent⟩ := h.outermost
  have hnone : m.store.parent? m.globals = none := by
    simp [Store.parent?, hframe, hparent]
  rw [Store.holder?, hnone, h.globals name]
  rfl

theorem Agree.readGlobal (h : Agree chart owners m s) (name : Ident) :
    m.store.lookup m.globals name =
      match s.globals.find? name.name with
      | some value => .ok value
      | none => .error ⟨.undefinedVariable name.name, name.line⟩ := by
  rw [Store.lookup, h.holder? name.name, Bindings.has]
  cases hfound : s.globals.find? name.name with
  | none => rfl
  | some value => simp [h.globals name.name, hfound]

/-- A name with a distance has the same value in its slot and at its
location. -/
theorem Stands.slot
    {name : String} {distance : Nat} (h : Stands chart owners m s stack env)
    (hdistance : stack.distance? name = some distance) :
    ∃ holder location value,
      m.store.slot m.current distance name = .ok holder ∧
        m.store.readAt m.current distance name = .ok value ∧
        m.store.local? holder name = some value ∧
        env.find? name = some location ∧
        owners[location]? = some (holder, name) ∧
        s.cells[location]? = some value := by
  obtain ⟨holder, location, hholder, hlocation, howner⟩ :=
    h.env.present hdistance
  obtain ⟨value, hvalue, hcell⟩ := h.agree.cell howner
  have hslot : m.store.slot m.current distance name = .ok holder := by
    simp [Store.slot, hholder, hvalue]
  refine ⟨holder, location, value, hslot, ?_, hvalue, hlocation, howner,
    hcell⟩
  simp [Store.readAt, hslot, hvalue]

theorem Stands.readName
    {id : PlaceId} {name : Ident} (h : Stands chart owners m s stack env)
    (hdistance : m.distances.find? id = stack.distance? name.name) :
    Follows chart owners Same (LoxLang.Step.readName id name m)
      (Step.readName env name s) := by
  unfold LoxLang.Step.readName Step.readName
  rw [hdistance]
  cases hfound : stack.distance? name.name with
  | none =>
      rw [h.env.absent hfound, h.agree.readGlobal name]
      cases s.globals.find? name.name with
      | none => exact .error h.agree.sink
      | some value => exact .ok (List.prefix_refl owners) h.agree rfl
  | some distance =>
      obtain ⟨holder, location, value, -, hread, -, hlocation, -, hcell⟩ :=
        h.slot hfound
      rw [hlocation]
      dsimp only
      rw [hread]
      refine .ok (List.prefix_refl owners) h.agree ?_
      simp [Same, Array.getD_eq_getD_getElem?, hcell]

theorem Stands.writeName
    {id : PlaceId} {name : Ident} (h : Stands chart owners m s stack env)
    (hdistance : m.distances.find? id = stack.distance? name.name)
    (value : Value) :
    Follows chart owners Same (LoxLang.Step.writeName id name value m)
      (Step.writeName env name value s) := by
  unfold LoxLang.Step.writeName Step.writeName Machine.holder
  rw [hdistance]
  cases hfound : stack.distance? name.name with
  | none =>
      rw [h.env.absent hfound]
      dsimp only
      rw [Store.holder, h.agree.holder? name.name]
      cases s.globals.has name.name with
      | false => exact .error h.agree.sink
      | true =>
          exact .ok (List.prefix_refl owners)
            (h.agree.putGlobal name.name value) rfl
  | some distance =>
      obtain ⟨holder, location, old, hslot, -, -, hlocation, howner, -⟩ :=
        h.slot hfound
      rw [hlocation]
      dsimp only
      rw [hslot]
      exact .ok (List.prefix_refl owners) (h.agree.overwrite value howner) rfl

/-! ## New slots -/

/-- No location belongs to a frame that is still to be made. -/
theorem Agree.not_mem_owners
    (h : Agree chart owners m s) (name : String) :
    (m.store.frames.size, name) ∉ owners := by
  intro hmem
  obtain ⟨location, howner⟩ := List.getElem?_of_mem hmem
  exact Nat.lt_irrefl _ (h.owner_lt howner)

theorem Agree.bindName
    {frame : FrameId} {scope : List String} {name : String} {value : Value}
    (h : Agree chart owners m s)
    (henv : env.Mirrors owners m.store m.globals frame (scope :: stack))
    (hframe : frame ≠ m.globals)
    (hvalue : m.store.local? frame name = some value)
    (hnew : (frame, name) ∉ owners) :
    Agree chart (owners ++ [(frame, name)]) m
        { s with cells := s.cells.push value } ∧
      (env.bind name s.cells.size).Mirrors (owners ++ [(frame, name)])
        m.store m.globals frame ((name :: scope) :: stack) := by
  have henv := henv.grows (List.prefix_append owners [(frame, name)]) .refl
  refine ⟨h.allocate hframe hvalue hnew, henv.bind ?_ ?_⟩
  · simp [hvalue]
  · simp [h.cells]

/-- A new frame around which an environment lies. -/
theorem Agree.enter
    {parent : FrameId} (h : Agree chart owners m s)
    (henv : env.Mirrors owners m.store m.globals parent stack)
    (names : Bindings Value) :
    Agree chart owners
        { m with store := (m.store.addFrame ⟨some parent, names⟩).2 } s ∧
      env.inner.Mirrors owners (m.store.addFrame ⟨some parent, names⟩).2
        m.globals m.store.frames.size ([] :: stack) := by
  refine ⟨h.addFrame _, ?_⟩
  refine (henv.grows (List.prefix_refl owners) (.addFrame ..)).enter ?_
  simp [Store.parent?, Store.frames_addFrame]

/-- A new frame with one name. -/
theorem Agree.enterWith
    {parent : FrameId} (h : Agree chart owners m s)
    (henv : env.Mirrors owners m.store m.globals parent stack)
    (name : String) (value : Value) :
    Agree chart (owners ++ [(m.store.frames.size, name)])
        { m with store :=
          (m.store.addFrame ⟨some parent, Bindings.empty.put name value⟩).2 }
        { s with cells := s.cells.push value } ∧
      (env.bind name s.cells.size).Mirrors
        (owners ++ [(m.store.frames.size, name)])
        (m.store.addFrame ⟨some parent, Bindings.empty.put name value⟩).2
        m.globals m.store.frames.size ([name] :: stack) := by
  obtain ⟨hagree, hinner⟩ :=
    h.enter henv (Bindings.empty.put name value)
  have hvalue :
      (m.store.addFrame
        ⟨some parent, Bindings.empty.put name value⟩).2.local?
          m.store.frames.size name = some value := by
    simp [Store.local?_addFrame]
  have hbind := hagree.bindName hinner (Nat.ne_of_gt h.globals_lt) hvalue
    (h.not_mem_owners name)
  exact hbind

theorem bindParams_inner (env : Env) (pairs : List (Ident × Value)) :
    (Step.bindParams env.inner pairs : Step Env) =
      Step.bindParams env pairs := by
  cases pairs <;> rfl

/-- The parameters of a function, whose values are already in its frame. -/
theorem Agree.bindParams
    {frame : FrameId} {scope : List String} (pairs : List (Ident × Value))
    (h : Agree chart owners m s)
    (henv : env.Mirrors owners m.store m.globals frame (scope :: stack))
    (hframe : frame ≠ m.globals)
    (hvalues : ∀ pair ∈ pairs,
      m.store.local? frame pair.1.name = some pair.2)
    (hnodup : (pairs.map fun pair => pair.1.name).Nodup)
    (hnew : ∀ pair ∈ pairs, (frame, pair.1.name) ∉ owners) :
    ∃ owners₁ env₁ s₁ scope₁,
      Step.bindParams env pairs s = .ok env₁ s₁ ∧ owners <+: owners₁ ∧
        Agree chart owners₁ m s₁ ∧
        env₁.Mirrors owners₁ m.store m.globals frame (scope₁ :: stack) ∧
        ∀ name, name ∈ scope₁ ↔
          name ∈ scope ∨ name ∈ pairs.map fun pair => pair.1.name := by
  induction pairs generalizing owners env s scope with
  | nil =>
      have hinner : env.inner = env := by
        have hlocal : env.isLocal = true := henv.isLocal
        rw [Env.inner, ← hlocal]
      exact ⟨owners, env, s, scope, by rw [← hinner]; rfl,
        List.prefix_refl owners, h, henv, by simp⟩
  | cons pair pairs ih =>
      obtain ⟨param, value⟩ := pair
      rw [List.map_cons, List.nodup_cons] at hnodup
      obtain ⟨hagree, henv⟩ := h.bindName henv hframe
        (hvalues _ List.mem_cons_self) (hnew _ List.mem_cons_self)
      have hlater : ∀ other ∈ pairs, (frame, other.1.name) ∉
          owners ++ [(frame, param.name)] := by
        intro other hother hmem
        cases List.mem_append.mp hmem with
        | inl hold => exact hnew other (List.mem_cons_of_mem _ hother) hold
        | inr hlast =>
            have hsame : other.1.name = param.name :=
              congrArg Prod.snd (List.mem_singleton.mp hlast)
            exact hnodup.1 (hsame ▸ List.mem_map_of_mem hother)
      obtain ⟨owners₁, env₁, s₁, scope₁, hrun, hbegins, hagree₁, henv₁,
        hscope⟩ := ih hagree henv
          (fun other hother => hvalues other (List.mem_cons_of_mem _ hother))
          hnodup.2 hlater
      refine ⟨owners₁, env₁, s₁, scope₁, hrun,
        (List.prefix_append ..).trans hbegins, hagree₁, henv₁, ?_⟩
      intro name
      rw [hscope name, List.map_cons, List.mem_cons, List.mem_cons]
      constructor
      · rintro ((hname | hname) | hname)
        · exact .inr (.inl hname)
        · exact .inl hname
        · exact .inr (.inr hname)
      · rintro (hname | hname | hname)
        · exact .inl (.inr hname)
        · exact .inl (.inl hname)
        · exact .inr hname

/-- A frame with scopes around it is not the outermost one. -/
theorem Agree.ne_globals
    {frame : FrameId} {scope : List String} (h : Agree chart owners m s)
    (hfits : m.store.Fits m.globals frame (scope :: stack)) :
    frame ≠ m.globals := by
  obtain ⟨-, parent, hparent, -⟩ := hfits
  obtain ⟨outermost, houtermost, hnone⟩ := h.outermost
  rintro rfl
  simp [Store.parent?, houtermost, hnone] at hparent

/-- A declaration in the current frame. -/
theorem Stands.declare
    {name : String} (h : Stands chart owners m s stack env)
    (hname : Ordinary name) (hfresh : stack.Fresh name) (value : Value) :
    ∃ owners₁ env₁ s₁,
      Step.declare env name value s = .ok env₁ s₁ ∧ owners <+: owners₁ ∧
        Stands chart owners₁
          { m with store := m.store.define m.current name value } s₁
          (stack.declare [name]) env₁ := by
  obtain ⟨hsound, hsituated⟩ := h.sound.define value h.situated hname
  have hlocal := h.env.isLocal
  cases stack with
  | nil =>
      have htop : m.current = m.globals := h.situated.fits
      refine ⟨owners, env, { s with globals := s.globals.put name value },
        ?_, List.prefix_refl owners, hsound, ?_, hsituated, ?_⟩
      · simp [Step.declare, hlocal]
      · rw [htop]
        exact (h.agree.putGlobal name value).withCurrent m.globals
      · exact h.env.grows (List.prefix_refl owners) (.define ..)
  | cons scope outer =>
      have hframe := h.agree.ne_globals h.situated.fits
      have hnew : m.store.local? m.current name = none := by
        cases hold : m.store.local? m.current name with
        | none => rfl
        | some old =>
            exact absurd (h.situated.exact rfl (by simp [hold])) hfresh
      have hslot : (m.current, name) ∉ owners := by
        intro hmem
        obtain ⟨location, howner⟩ := List.getElem?_of_mem hmem
        obtain ⟨old, hold, -⟩ := h.agree.cell howner
        rw [hnew] at hold
        cases hold
      have hvalue :
          (m.store.define m.current name value).local? m.current name =
            some value := by
        simp [Store.local?_define, h.situated.current_lt]
      have henv := h.env.grows (List.prefix_refl owners)
        (.define m.store m.current name value)
      obtain ⟨hagree, henv⟩ := (h.agree.define value hframe hnew).bindName
        henv hframe hvalue hslot
      refine ⟨owners ++ [(m.current, name)], env.bind name s.cells.size,
        { s with cells := s.cells.push value }, ?_, List.prefix_append ..,
        hsound, hagree, hsituated, henv⟩
      simp [Step.declare, hlocal, Step.allocate]

/-! ## Methods, classes and natives -/

theorem Agree.bindMethod
    {method : LoxLang.Function} {mirror : Function}
    (h : Agree chart owners m s)
    (hmethod : Function.MethodMirrors chart owners m.store m.globals method
      mirror) (object : ObjectId) :
    Follows chart owners
      (fun owners₁ m₁ bound mirror =>
        Function.Mirrors chart owners₁ m₁.store m₁.globals bound mirror)
      (LoxLang.Step.bindMethod method object m)
      (Step.bindMethod mirror object s) := by
  obtain ⟨stack, hbound, hmirrors⟩ := hmethod.scopes
  obtain ⟨hagree, henv⟩ := h.enterWith hmirrors "this" (.object object)
  refine .ok (List.prefix_append ..) hagree ?_
  refine ⟨hmethod.declaration, hmethod.initializer, ⟨_, hbound, henv⟩, ?_⟩
  intro _
  refine ⟨s.cells.size, Bindings.find?_put_self .., ?_⟩
  simp [h.cells]

theorem Agree.methodValue
    {method : LoxLang.Function} {mirror : Function}
    (h : Agree chart owners m s)
    (hmethod : Function.MethodMirrors chart owners m.store m.globals method
      mirror) (object : ObjectId) :
    Follows chart owners Same (LoxLang.Step.methodValue method object m)
      (Step.methodValue mirror object s) := by
  refine (h.bindMethod hmethod object).bind fun _ _ hagree hbound => ?_
  refine .ok (List.prefix_refl _) (hagree.addFunction hbound) ?_
  exact congrArg Value.function hagree.functions.size_eq

theorem Agree.getProperty
    (h : Agree chart owners m s) (object : ObjectId) (name : Ident) :
    Follows chart owners Same (LoxLang.Step.getProperty object name m)
      (Step.getProperty object name s) := by
  refine Follows.ask (h.field? object name.name) fun field _ => ?_
  cases field with
  | some value => exact follows_pure h rfl
  | none =>
      have hmethod :
          Paired (Function.MethodMirrors chart owners m.store m.globals)
            (m.store.objects[object]?.bind fun o =>
              m.store.method? o.classId name.name)
            (s.objects[object]?.bind fun o =>
              s.method? o.classId name.name) := by
        rw [h.objects]
        cases s.objects[object]? with
        | none => exact .none
        | some o => exact h.method? o.classId name.name
      exact Follows.look hmethod (follows_throw h _)
        fun method mirror _ hmethod => h.methodValue hmethod object

theorem Agree.callNative
    (h : Agree chart owners m s) (native : Native) (arguments : List Value)
    (line : Nat) :
    Follows chart owners Same
      (LoxLang.Step.callNative native arguments line m)
      (Step.callNative native arguments line s) := by
  cases native with
  | clock =>
      refine .ok (List.prefix_refl owners) h.tick ?_
      simp [Same, h.clock, h.ticks]
  | lent id name arity =>
      have hcall : (m.host id).call m.store.view arguments =
          (s.host id).call s.view arguments := by
        rw [h.host, h.view]
      refine Follows.ask hcall fun given _ => ?_
      cases given with
      | ok value => exact follows_pure h rfl
      | error message => exact follows_throw h _

theorem Agree.print (h : Agree chart owners m s) (value : Value) :
    Follows chart owners Same (LoxLang.Step.print value m)
      (Step.print value s) := by
  change Follows chart owners Same
    (LoxLang.Step.write (m.store.printed value ++ "\n") m) _
  unfold LoxLang.Step.write Step.print
  rw [h.printed value, h.sink]
  cases s.sink.write (s.printed value ++ "\n") with
  | mk result sink =>
      cases result with
      | ok _ => exact .ok (List.prefix_refl owners) (h.withSink sink) rfl
      | error e => exact .error rfl

/-- A method of the superclass, for the instance at hand. -/
theorem Stands.superMethod
    {id : PlaceId} {distance : Nat} (h : Stands chart owners m s stack env)
    (hthis : stack.distance? "this" = some distance)
    (hsuper : stack.distance? "super" = some (distance + 1))
    (hplace : m.distances.find? id = some (distance + 1))
    (line : Nat) (method : Ident) :
    Follows chart owners Same (LoxLang.Step.superMethod id line method m)
      (Step.superMethod env line method s) := by
  obtain ⟨_, classAt, superclass, _, hclass, hslot, hclassAt, _, hclassCell⟩ :=
    h.slot hsuper
  obtain ⟨_, objectAt, object, _, hobject, hinstance, hobjectAt, _,
    hobjectCell⟩ := h.slot hthis
  obtain ⟨superclass, rfl⟩ := h.sound.store.super hslot
  obtain ⟨object, rfl⟩ := h.sound.store.this hinstance
  have hplaceRead :
      LoxLang.Step.distance? id m = .ok (some (distance + 1)) m := by
    rw [LoxLang.Step.distance?, LoxLang.Step.ask, hplace]
  have hclassName : Step.readName env ⟨"super", line⟩ s =
      .ok (.classRef superclass) s := by
    simp [Step.readName, hclassAt, Array.getD_eq_getD_getElem?, hclassCell]
  have hobjectName : Step.readName env ⟨"this", line⟩ s =
      .ok (.object object) s := by
    simp [Step.readName, hobjectAt, Array.getD_eq_getD_getElem?,
      hobjectCell]
  unfold LoxLang.Step.superMethod Step.superMethod
  rw [bind_eq hplaceRead]
  refine Follows.bind_ok (LoxLang.Step.askDefect_eq hclass) hclassName ?_
  refine Follows.bind_ok (LoxLang.Step.askDefect_eq hobject) hobjectName ?_
  exact Follows.look (h.agree.method? superclass method.name)
    (follows_throw h.agree _)
    fun found mirror _ hmethod => h.agree.methodValue hmethod object

theorem Stands.declareFunction
    {declaration : FunctionDecl} (h : Stands chart owners m s stack env)
    (hname : Ordinary declaration.name.name)
    (hfresh : stack.Fresh declaration.name.name)
    (hbound : declaration.Bound chart
      (stack.declare [declaration.name.name])) :
    Follows chart owners
      (fun owners₁ m₁ _ env₁ => env₁.Mirrors owners₁ m₁.store m₁.globals
        m₁.current (stack.declare [declaration.name.name]))
      (LoxLang.Step.declareFunction declaration m)
      (Step.declareFunction env declaration s) := by
  obtain ⟨owners₁, env₁, s₁, hdeclare, hbegins, hstands⟩ :=
    h.declare hname hfresh (.function m.store.functions.size)
  have hmirror : Function.Mirrors chart owners₁
      (m.store.define m.current declaration.name.name
        (.function m.store.functions.size)) m.globals
      ⟨declaration, m.current, false⟩ ⟨declaration, env₁, false⟩ :=
    ⟨rfl, rfl, ⟨_, hbound, hstands.env⟩, fun h => nomatch h⟩
  have hrun : Step.declareFunction env declaration s =
      .ok env₁ { s₁ with
        functions := s₁.functions.push ⟨declaration, env₁, false⟩ } := by
    rw [h.agree.functions.size_eq] at hdeclare
    simp [Step.declareFunction, Step.ask, Bind.bind, EStateM.bind, hdeclare,
      Step.addFunction, Pure.pure, EStateM.pure]
  rw [hrun]
  refine .ok hbegins (hstands.agree.addFunction hmirror) ?_
  exact hstands.env.grows (List.prefix_refl owners₁) (.addFunction ..)

private theorem methodTable_related
    {closure : FrameId} {methods : List FunctionDecl}
    (henv : env.Mirrors owners m.store m.globals closure stack)
    (hmethods : FunctionDecl.BoundAll chart (["this"] :: stack) methods) :
    Bindings.Related
      (Function.MethodMirrors chart owners m.store m.globals)
      (LoxLang.Step.methodTable closure methods)
      (Step.methodTable env methods) := by
  unfold LoxLang.Step.methodTable Step.methodTable
  have hempty : Bindings.Related
      (Function.MethodMirrors chart owners m.store m.globals)
      .empty .empty := .empty
  generalize (Bindings.empty : Bindings LoxLang.Function) = table at hempty ⊢
  generalize (Bindings.empty : Bindings Function) = table' at hempty ⊢
  induction methods generalizing table table' with
  | nil => exact hempty
  | cons method methods ih =>
      exact ih hmethods.2 _ _
        (hempty.put method.name.name ⟨rfl, rfl, stack, hmethods.1, henv⟩)

/-- A name that the current frame declares gets another value. -/
theorem Agree.assignHere
    {name : Ident} (h : Agree chart owners m s)
    (henv : env.Mirrors owners m.store m.globals m.current
      (stack.declare [name.name]))
    (hlocal : (m.store.local? m.current name.name).isSome)
    (value : Value) :
    Follows chart owners Same (LoxLang.Step.assignHere name value m)
      (Step.writeName env name value s) := by
  have hholder : m.store.holder m.current name = .ok m.current := by
    rw [Store.holder, Store.holder?, if_pos hlocal]
  unfold LoxLang.Step.assignHere Step.writeName
  rw [hholder]
  dsimp only
  cases stack with
  | nil =>
      have htop : m.current = m.globals := henv.fits
      have hhas : s.globals.has name.name = true := by
        rw [Bindings.has, ← h.globals, ← htop]
        exact hlocal
      rw [henv.absent rfl, hhas, htop]
      exact .ok (List.prefix_refl owners)
        ((h.putGlobal name.name value).withCurrent m.globals) rfl
  | cons scope outer =>
      have hdistance :
          Stack.distance? (Stack.declare [name.name] (scope :: outer))
            name.name = some 0 := by
        simp [Stack.declare, Stack.distance?_cons]
      obtain ⟨holder, location, hzero, hlocation, howner⟩ :=
        henv.present hdistance
      cases hzero
      rw [hlocation]
      exact .ok (List.prefix_refl owners) (h.overwrite value howner) rfl

theorem Agree.finishClass
    {closure : FrameId} {scopes : Stack} {methodEnv : Env} {name : Ident}
    {methods : List FunctionDecl} (h : Agree chart owners m s)
    (henv : env.Mirrors owners m.store m.globals m.current
      (stack.declare [name.name]))
    (hlocal : (m.store.local? m.current name.name).isSome)
    (hclosure : methodEnv.Mirrors owners m.store m.globals closure scopes)
    (hmethods : FunctionDecl.BoundAll chart (["this"] :: scopes) methods)
    (superclass : Option ClassId) :
    Follows chart owners Same
      ((do
        let id ← LoxLang.Step.onStore fun store => store.addClass
          ⟨name.name, superclass,
            LoxLang.Step.methodTable closure methods⟩
        LoxLang.Step.assignHere name (.classRef id) : LoxLang.Step Unit) m)
      ((do
        let id ← Step.addClass
          ⟨name.name, superclass, Step.methodTable methodEnv methods⟩
        Step.writeName env name (.classRef id) : Step Unit) s) := by
  have hagree := @Agree.addClass chart owners m s
    ⟨name.name, superclass, LoxLang.Step.methodTable closure methods⟩
    ⟨name.name, superclass, Step.methodTable methodEnv methods⟩ h
    ⟨rfl, rfl, methodTable_related hclosure hmethods⟩
  refine Follows.bind_ok rfl rfl ?_
  rw [← h.classes.size_eq]
  exact hagree.assignHere
    (henv.grows (List.prefix_refl owners) (.addClass ..)) hlocal _

theorem Agree.declareClass
    {name : Ident} {methods : List FunctionDecl}
    (h : Agree chart owners m s)
    (henv : env.Mirrors owners m.store m.globals m.current
      (stack.declare [name.name]))
    (hlocal : (m.store.local? m.current name.name).isSome)
    (hmethods : FunctionDecl.BoundAll chart
      (["this"] :: stack.declare [name.name]) methods) :
    Follows chart owners Same
      (LoxLang.Step.declareClass name none methods m)
      (Step.declareClass env name none methods s) := by
  rw [LoxLang.Step.declareClass_eq]
  exact h.finishClass henv hlocal henv hmethods none

/-- The frame of `super` lies around the methods. -/
theorem Agree.declareSubclass
    {name : Ident} {methods : List FunctionDecl}
    (h : Agree chart owners m s)
    (henv : env.Mirrors owners m.store m.globals m.current
      (stack.declare [name.name]))
    (hlocal : (m.store.local? m.current name.name).isSome)
    (hmethods : FunctionDecl.BoundAll chart
      (["this"] :: ["super"] :: stack.declare [name.name]) methods)
    (superclass : ClassId) :
    Follows chart owners Same
      (LoxLang.Step.declareClass name (some superclass) methods m)
      (Step.declareClass env name (some superclass) methods s) := by
  obtain ⟨hagree, hsuper⟩ := h.enterWith henv "super" (.classRef superclass)
  have hgrows := Store.Grows.addFrame m.store
    ⟨some m.current, Bindings.empty.put "super" (.classRef superclass)⟩
  have hbegins := List.prefix_append owners [(m.store.frames.size, "super")]
  have hfinish := hagree.finishClass (henv.grows hbegins hgrows)
    (hgrows.local?_isSome hlocal) hsuper hmethods (some superclass)
  rw [LoxLang.Step.declareClass_eq]
  exact hfinish.weaken hbegins

end

end Lexical
end LoxLang
