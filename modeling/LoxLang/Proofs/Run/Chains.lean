import LoxLang.Proofs.Run.Growth

/-!
# Chains of frames

Frames that share their parents form a tree, and each frame sees the names of
the frames from itself outwards.  A search for a name ends at the nearest frame
that binds it, and a counted walk of that length comes to the same frame.  So
all reads and writes, from whichever frame they start, are those of one store:
what is written in a frame is read back wherever that frame is the nearest one
that binds the name, and nowhere else.
-/

namespace LoxLang
namespace Store

/-! ## Walks outwards -/

/-- Every frame lies inside an older one. -/
def Ordered (store : Store) : Prop :=
  ∀ ⦃id parent : FrameId⦄, store.parent? id = some parent → parent < id

/-- The frame `target` is `distance` steps outwards from a frame. -/
inductive Outwards (store : Store) : FrameId → Nat → FrameId → Prop where
  | here : Outwards store frame 0 frame
  | step :
      store.parent? frame = some parent →
      Outwards store parent distance target →
      Outwards store frame (distance + 1) target

/-- Of all frames from `id` outwards, `holder` is the first that binds the
name, and it is `distance` steps away. -/
structure Nearest (store : Store) (id : FrameId) (name : String)
    (distance : Nat) (holder : FrameId) : Prop where
  outwards : store.Outwards id distance holder
  holds : (store.local? holder name).isSome
  first : ∀ ⦃d frame⦄, d < distance → store.Outwards id d frame →
    store.local? frame name = none

/-- Some frame from `id` outwards binds the name. -/
def Visible (store : Store) (id : FrameId) (name : String) : Prop :=
  ∃ distance frame, store.Outwards id distance frame ∧
    (store.local? frame name).isSome

section
variable {store : Store} {id parent target holder : FrameId}
variable {distance : Nat} {name : String}

theorem ancestor_eq_ok_iff :
    store.ancestor id distance = .ok target ↔
      store.Outwards id distance target := by
  constructor
  · intro h
    induction distance generalizing id with
    | zero =>
        cases h
        exact .here
    | succ distance ih =>
        unfold ancestor at h
        split at h
        · rename_i hparent
          exact .step hparent (ih h)
        · cases h
  · intro h
    induction h with
    | here => rfl
    | step hparent _ ih =>
        unfold ancestor
        rw [hparent]
        exact ih

/-- The frame at a distance is one and the same. -/
theorem Outwards.target_eq
    {other : FrameId} (h : store.Outwards id distance target)
    (hother : store.Outwards id distance other) : target = other := by
  have hsame := ancestor_eq_ok_iff.mpr h
  rw [ancestor_eq_ok_iff.mpr hother] at hsame
  cases hsame
  rfl

theorem Outwards.of_zero (h : store.Outwards id 0 target) : id = target := by
  cases h
  rfl

theorem Outwards.of_succ
    (h : store.Outwards id (distance + 1) target)
    (hparent : store.parent? id = some parent) :
    store.Outwards parent distance target := by
  cases h with
  | step hstep hrest =>
      rw [hparent] at hstep
      cases hstep
      exact hrest

/-! ## The nearest frame -/

theorem Nearest.here (h : (store.local? id name).isSome) :
    store.Nearest id name 0 id where
  outwards := .here
  holds := h
  first _ _ hlt := absurd hlt (Nat.not_lt_zero _)

theorem Nearest.further
    (hlocal : store.local? id name = none)
    (hparent : store.parent? id = some parent)
    (h : store.Nearest parent name distance holder) :
    store.Nearest id name (distance + 1) holder where
  outwards := .step hparent h.outwards
  holds := h.holds
  first d frame hlt houtwards := by
    cases d with
    | zero =>
        rw [← houtwards.of_zero]
        exact hlocal
    | succ d =>
        exact h.first (Nat.lt_of_succ_lt_succ hlt) (houtwards.of_succ hparent)

/-- No two frames are the nearest one. -/
theorem Nearest.unique
    {d : Nat} {other : FrameId} (h : store.Nearest id name distance holder)
    (hother : store.Nearest id name d other) : holder = other := by
  have hholds := h.holds
  have hother' := hother.holds
  rcases Nat.lt_trichotomy distance d with hlt | rfl | hlt
  · rw [hother.first hlt h.outwards] at hholds
    cases hholds
  · exact h.outwards.target_eq hother.outwards
  · rw [h.first hlt hother.outwards] at hother'
    cases hother'

/-- A search comes to the nearest frame that binds the name, or to the end of
a chain on which no frame does. -/
theorem holder?_cases (hordered : store.Ordered) (id : FrameId)
    (name : String) :
    (∃ distance holder, store.holder? id name = some holder ∧
        store.Nearest id name distance holder) ∨
      (store.holder? id name = none ∧ ¬ store.Visible id name) := by
  induction id using Nat.strongRecOn with
  | ind id ih =>
      rw [holder?]
      split
      · rename_i hlocal
        exact .inl ⟨0, id, rfl, .here hlocal⟩
      · rename_i hlocal
        have hnone : store.local? id name = none :=
          Option.not_isSome_iff_eq_none.mp hlocal
        split
        · rename_i parent hparent
          have hlt : parent < id := hordered hparent
          rw [dif_pos hlt]
          rcases ih parent hlt with ⟨d, holder, hfound, hnearest⟩ |
            ⟨hfound, hlost⟩
          · exact .inl ⟨d + 1, holder, hfound, hnearest.further hnone hparent⟩
          · refine .inr ⟨hfound, ?_⟩
            rintro ⟨d, frame, houtwards, hholds⟩
            cases houtwards with
            | here => exact hlocal hholds
            | step hstep hrest =>
                rw [hparent] at hstep
                cases hstep
                exact hlost ⟨_, _, hrest, hholds⟩
        · rename_i hparent
          refine .inr ⟨rfl, ?_⟩
          rintro ⟨d, frame, houtwards, hholds⟩
          cases houtwards with
          | here => exact hlocal hholds
          | step hstep _ =>
              rw [hparent] at hstep
              cases hstep

theorem Nearest.visible (h : store.Nearest id name distance holder) :
    store.Visible id name :=
  ⟨_, _, h.outwards, h.holds⟩

theorem Nearest.holder?_eq
    (hordered : store.Ordered)
    (h : store.Nearest id name distance holder) :
    store.holder? id name = some holder := by
  rcases holder?_cases hordered id name with
    ⟨d, other, hfound, hnearest⟩ | ⟨-, hlost⟩
  · rw [hfound, hnearest.unique h]
  · exact absurd h.visible hlost

theorem holder?_eq_none
    (hordered : store.Ordered) (h : ¬ store.Visible id name) :
    store.holder? id name = none := by
  rcases holder?_cases hordered id name with
    ⟨d, other, -, hnearest⟩ | ⟨hfound, -⟩
  · exact absurd hnearest.visible h
  · exact hfound

theorem Visible.nearest
    (hordered : store.Ordered) (h : store.Visible id name) :
    ∃ distance holder, store.Nearest id name distance holder := by
  rcases holder?_cases hordered id name with
    ⟨d, other, -, hnearest⟩ | ⟨-, hlost⟩
  · exact ⟨d, other, hnearest⟩
  · exact absurd h hlost

end

/-! ## Reading and writing -/

section
variable {store : Store} {id target holder : FrameId} {distance : Nat}
variable {value : Value}

theorem slot_of_outwards
    {name : String} (h : store.Outwards id distance target)
    (hholds : (store.local? target name).isSome) :
    store.slot id distance name = .ok target := by
  unfold slot
  rw [ancestor_eq_ok_iff.mpr h]
  exact if_pos hholds

/-- A counted walk reads what the frame at its end binds. -/
theorem readAt_eq (id : FrameId) (distance : Nat) (name : String) :
    store.readAt id distance name =
      match store.ancestor id distance with
      | .error left => .error (.chainTooShort name left)
      | .ok frame =>
          match store.local? frame name with
          | some value => .ok value
          | none => .error (.missing name) := by
  unfold readAt slot
  cases store.ancestor id distance with
  | error left => rfl
  | ok frame => cases hlocal : store.local? frame name <;> simp [hlocal]

theorem readAt_of_local
    {name : String} (h : store.Outwards id distance target)
    (hvalue : store.local? target name = some value) :
    store.readAt id distance name = .ok value := by
  rw [readAt_eq, ancestor_eq_ok_iff.mpr h]
  dsimp only
  rw [hvalue]

theorem Nearest.lookup_of_local
    {name : Ident} (h : store.Nearest id name.name distance holder)
    (hordered : store.Ordered)
    (hvalue : store.local? holder name.name = some value) :
    store.lookup id name = .ok value := by
  unfold lookup
  rw [h.holder?_eq hordered, Option.bind_some, hvalue]

theorem lookup_of_not_visible
    {name : Ident} (hordered : store.Ordered)
    (h : ¬ store.Visible id name.name) :
    store.lookup id name =
      .error ⟨.undefinedVariable name.name, name.line⟩ := by
  unfold lookup
  rw [holder?_eq_none hordered h]
  rfl

/-- Reading by name and reading at the distance of the nearest frame give the
same value. -/
theorem Nearest.read
    {name : Ident} (h : store.Nearest id name.name distance holder)
    (hordered : store.Ordered) :
    ∃ value, store.lookup id name = .ok value ∧
      store.readAt id distance name.name = .ok value := by
  obtain ⟨value, hvalue⟩ := Option.isSome_iff_exists.mp h.holds
  exact ⟨value, h.lookup_of_local hordered hvalue,
    readAt_of_local h.outwards hvalue⟩

/-- Writing by name and writing at the distance of the nearest frame come to
the same. -/
theorem Nearest.write
    {name : Ident} (h : store.Nearest id name.name distance holder)
    (hordered : store.Ordered) (value : Value) :
    store.assign id name value = .ok (store.define holder name.name value) ∧
      store.writeAt id distance name.name value =
        .ok (store.define holder name.name value) := by
  constructor
  · unfold assign Store.holder
    rw [h.holder?_eq hordered]
  · unfold writeAt
    rw [slot_of_outwards h.outwards h.holds]

private theorem assign_of_not_visible
    {name : Ident} (hordered : store.Ordered)
    (h : ¬ store.Visible id name.name) (value : Value) :
    store.assign id name value =
      .error ⟨.undefinedVariable name.name, name.line⟩ := by
  unfold assign Store.holder
  rw [holder?_eq_none hordered h]

theorem lookup_eq_ok_iff
    {name : Ident} (hordered : store.Ordered) :
    (∃ value, store.lookup id name = .ok value) ↔
      store.Visible id name.name := by
  constructor
  · rintro ⟨value, hvalue⟩
    by_cases hvisible : store.Visible id name.name
    · exact hvisible
    · rw [lookup_of_not_visible hordered hvisible] at hvalue
      cases hvalue
  · intro hvisible
    obtain ⟨_, _, hnearest⟩ := hvisible.nearest hordered
    obtain ⟨value, hvalue, -⟩ := hnearest.read hordered
    exact ⟨value, hvalue⟩

theorem assign_eq_ok
    {name : Ident} {after : Store} (hordered : store.Ordered)
    (h : store.assign id name value = .ok after) :
    ∃ distance holder, store.Nearest id name.name distance holder ∧
      after = store.define holder name.name value := by
  by_cases hvisible : store.Visible id name.name
  · obtain ⟨distance, holder, hnearest⟩ := hvisible.nearest hordered
    rw [(hnearest.write hordered value).1] at h
    cases h
    exact ⟨distance, holder, hnearest, rfl⟩
  · rw [assign_of_not_visible hordered hvisible] at h
    cases h

theorem writeAt_eq_ok
    {name : String} {after : Store}
    (h : store.writeAt id distance name value = .ok after) :
    ∃ target, store.Outwards id distance target ∧
      (store.local? target name).isSome ∧
      after = store.define target name value := by
  unfold writeAt at h
  split at h
  · cases h
  · rename_i target hslot
    obtain ⟨hancestor, hholds⟩ := slot_eq_ok hslot
    cases h
    exact ⟨target, ancestor_eq_ok_iff.mp hancestor, hholds, rfl⟩

end

/-! ## After a binding -/

section
variable {store : Store} {target : FrameId} {name : String} {value : Value}

theorem parent?_define (id : FrameId) :
    (store.define target name value).parent? id = store.parent? id := by
  unfold parent?
  rw [frames_define]
  split
  · cases store.frames[id]? <;> rfl
  · rfl

theorem outwards_define {id frame : FrameId} {distance : Nat} :
    (store.define target name value).Outwards id distance frame ↔
      store.Outwards id distance frame := by
  constructor
  · intro h
    induction h with
    | here => exact .here
    | step hparent _ ih => exact .step (parent?_define _ ▸ hparent) ih
  · intro h
    induction h with
    | here => exact .here
    | step hparent _ ih => exact .step ((parent?_define _).trans hparent) ih

theorem Ordered.define (h : store.Ordered) :
    (store.define target name value).Ordered := by
  intro id parent hparent
  rw [parent?_define] at hparent
  exact h hparent

/-- The nearest frame of a name stays the nearest one, unless the name was
bound in another one. -/
theorem Nearest.of_define
    {id holder : FrameId} {other : String} {distance : Nat}
    (h : (store.define target name value).Nearest id other distance holder)
    (haway : holder ≠ target ∨ other ≠ name) :
    store.Nearest id other distance holder ∧
      (store.define target name value).local? holder other =
        store.local? holder other := by
  have hsame : (store.define target name value).local? holder other =
      store.local? holder other := by
    rw [local?_define, if_neg]
    rintro ⟨rfl, rfl, -⟩
    exact haway.elim (fun hne => hne rfl) fun hne => hne rfl
  refine ⟨⟨outwards_define.mp h.outwards, hsame ▸ h.holds, ?_⟩, hsame⟩
  intro d frame hlt houtwards
  have hnone := h.first hlt (outwards_define.mpr houtwards)
  rw [local?_define] at hnone
  split at hnone
  · cases hnone
  · exact hnone

theorem Visible.define {id : FrameId} {other : String}
    (h : store.Visible id other) :
    (store.define target name value).Visible id other := by
  obtain ⟨distance, frame, houtwards, hholds⟩ := h
  exact ⟨distance, frame, outwards_define.mpr houtwards,
    (Grows.define store target name value).local?_isSome hholds⟩

end

/-- The name was bound in the frame `target`: it has its new value wherever
that frame is read, and no other read is any different. -/
structure Bound (before : Store) (target : FrameId) (name : String)
    (value : Value) (after : Store) : Prop where
  found : ∀ id line distance, after.Nearest id name distance target →
    after.lookup id ⟨name, line⟩ = .ok value
  kept : ∀ id line, (∀ distance, ¬ after.Nearest id name distance target) →
    after.lookup id ⟨name, line⟩ = before.lookup id ⟨name, line⟩
  others : ∀ id other, other.name ≠ name →
    after.lookup id other = before.lookup id other
  foundAt : ∀ id distance, before.Outwards id distance target →
    after.readAt id distance name = .ok value
  keptAt : ∀ id distance, ¬ before.Outwards id distance target →
    after.readAt id distance name = before.readAt id distance name
  othersAt : ∀ id distance other, other ≠ name →
    after.readAt id distance other = before.readAt id distance other

section
variable {store : Store} {target : FrameId} {name : String} {value : Value}

/-- A name of which the frame `target` is not the nearest one is found where
it was found. -/
theorem lookup_define_of_away
    {id : FrameId} {other : Ident} (hordered : store.Ordered)
    (haway : other.name ≠ name ∨ ∀ distance,
      ¬ (store.define target name value).Nearest id name distance target) :
    (store.define target name value).lookup id other =
      store.lookup id other := by
  by_cases hvisible : (store.define target name value).Visible id other.name
  · obtain ⟨distance, holder, hnearest⟩ := hvisible.nearest hordered.define
    have hother : holder ≠ target ∨ other.name ≠ name := by
      rcases haway with hne | hlost
      · exact .inr hne
      · by_cases hname : other.name = name
        · refine .inl ?_
          rintro rfl
          exact hlost distance (hname ▸ hnearest)
        · exact .inr hname
    obtain ⟨hbefore, hsame⟩ := hnearest.of_define hother
    obtain ⟨found, hfound⟩ := Option.isSome_iff_exists.mp hbefore.holds
    rw [hbefore.lookup_of_local hordered hfound,
      hnearest.lookup_of_local hordered.define (hsame.trans hfound)]
  · have hbefore : ¬ store.Visible id other.name :=
      fun h => hvisible h.define
    rw [lookup_of_not_visible hordered hbefore,
      lookup_of_not_visible hordered.define hvisible]

private theorem ancestor_define (id : FrameId) (distance : Nat) :
    (store.define target name value).ancestor id distance =
      store.ancestor id distance := by
  induction distance generalizing id with
  | zero => rfl
  | succ distance ih =>
      unfold ancestor
      rw [parent?_define]
      cases store.parent? id with
      | none => rfl
      | some parent => exact ih parent

/-- A counted walk that ends elsewhere, or for another name, reads what it has
read. -/
theorem readAt_define_of_away
    {id : FrameId} {distance : Nat} {other : String}
    (haway : other ≠ name ∨ ¬ store.Outwards id distance target) :
    (store.define target name value).readAt id distance other =
      store.readAt id distance other := by
  rw [readAt_eq, readAt_eq, ancestor_define]
  cases hancestor : store.ancestor id distance with
  | error left => rfl
  | ok frame =>
      have hsame : (store.define target name value).local? frame other =
          store.local? frame other := by
        rw [local?_define, if_neg]
        rintro ⟨rfl, rfl, -⟩
        exact haway.elim (fun hne => hne rfl) fun hne =>
          hne (ancestor_eq_ok_iff.mp hancestor)
      dsimp only
      rw [hsame]

/-- Binding a name in a frame is seen where this frame is read, and nowhere
else. -/
theorem Ordered.bound
    (hordered : store.Ordered) (htarget : target < store.frames.size) :
    store.Bound target name value (store.define target name value) := by
  have hlocal :
      (store.define target name value).local? target name = some value := by
    rw [local?_define, if_pos ⟨rfl, rfl, htarget⟩]
  refine ⟨?_, ?_, ?_, ?_, ?_, ?_⟩
  · intro id line distance hnearest
    exact Nearest.lookup_of_local hnearest hordered.define hlocal
  · intro id line hlost
    exact lookup_define_of_away hordered (.inr hlost)
  · intro id other hne
    exact lookup_define_of_away hordered (.inl hne)
  · intro id distance houtwards
    exact readAt_of_local (outwards_define.mpr houtwards) hlocal
  · intro id distance hlost
    exact readAt_define_of_away (.inr hlost)
  · intro id distance other hne
    exact readAt_define_of_away (.inl hne)

/-- A name that a frame has already is not bound anywhere new. -/
theorem nearest_define_iff
    {id holder : FrameId} {other : String} {distance : Nat}
    (hholds : (store.local? target name).isSome) :
    (store.define target name value).Nearest id other distance holder ↔
      store.Nearest id other distance holder := by
  have hsome (frame : FrameId) :
      ((store.define target name value).local? frame other).isSome =
        (store.local? frame other).isSome := by
    rw [local?_define]
    split
    · rename_i h
      rw [← h.1, h.2.1, hholds]
      rfl
    · rfl
  have hnone (frame : FrameId) :
      (store.define target name value).local? frame other = none ↔
        store.local? frame other = none := by
    rw [← Option.not_isSome_iff_eq_none, ← Option.not_isSome_iff_eq_none,
      hsome]
  constructor
  · intro h
    exact ⟨outwards_define.mp h.outwards, hsome holder ▸ h.holds,
      fun d frame hlt houtwards =>
        (hnone frame).mp (h.first hlt (outwards_define.mpr houtwards))⟩
  · intro h
    exact ⟨outwards_define.mpr h.outwards, (hsome holder).symm ▸ h.holds,
      fun d frame hlt houtwards =>
        (hnone frame).mpr (h.first hlt (outwards_define.mp houtwards))⟩

theorem lt_size_of_local?
    {id : FrameId} (h : (store.local? id name).isSome) :
    id < store.frames.size := by
  cases hframe : store.frames[id]? with
  | none => simp [local?, hframe] at h
  | some frame => exact (Array.getElem?_eq_some_iff.mp hframe).1

end

/-! ## Sequences of operations -/

/-- What can be done with frames. -/
inductive Act where
  | enter (parent : Option FrameId)
  | define (frame : FrameId) (name : String) (value : Value)
  | read (frame : FrameId) (name : Ident)
  | assign (frame : FrameId) (name : Ident) (value : Value)
  | readAt (frame : FrameId) (distance : Nat) (name : String)
  | writeAt (frame : FrameId) (distance : Nat) (name : String) (value : Value)

/-- What comes of it. -/
inductive Reply where
  | entered (frame : FrameId)
  | done
  | found (value : Value)
  | failed (e : RuntimeError)
  | broken (d : Defect)

def Reply.isFailure : Reply → Bool
  | .failed _ | .broken _ => true
  | .entered _ | .done | .found _ => false

/-- One operation, after which the next one may follow however it went. -/
def perform (store : Store) : Act → Reply × Store
  | .enter parent =>
      let (frame, after) := store.addFrame ⟨parent, .empty⟩
      (.entered frame, after)
  | .define frame name value => (.done, store.define frame name value)
  | .read frame name =>
      match store.lookup frame name with
      | .ok value => (.found value, store)
      | .error e => (.failed e, store)
  | .assign frame name value =>
      match store.assign frame name value with
      | .ok after => (.done, after)
      | .error e => (.failed e, store)
  | .readAt frame distance name =>
      match store.readAt frame distance name with
      | .ok value => (.found value, store)
      | .error d => (.broken d, store)
  | .writeAt frame distance name value =>
      match store.writeAt frame distance name value with
      | .ok after => (.done, after)
      | .error d => (.broken d, store)

/-- The frames that an operation names are there. -/
def Act.Fits (store : Store) : Act → Prop
  | .enter parent => ∀ frame, parent = some frame → frame < store.frames.size
  | .define frame .. | .read frame _ | .assign frame .. | .readAt frame ..
  | .writeAt frame .. => frame < store.frames.size

/-- The store after some operations. -/
def performAll (store : Store) (acts : List Act) : Store :=
  acts.foldl (fun store act => (store.perform act).2) store

/-- Each operation names frames that are there when its turn comes. -/
def FitAll : Store → List Act → Prop
  | _, [] => True
  | store, act :: acts => act.Fits store ∧ FitAll (store.perform act).2 acts

theorem ordered_empty : empty.Ordered := by
  intro id parent hparent
  cases hparent

theorem Ordered.addFrame
    {store : Store} {frame : Frame} (h : store.Ordered)
    (hparent : ∀ id, frame.parent = some id → id < store.frames.size) :
    (store.addFrame frame).2.Ordered := by
  intro id parent hfound
  unfold parent? at hfound
  rw [frames_addFrame] at hfound
  split at hfound
  · rename_i hid
    rw [hid]
    exact hparent parent hfound
  · exact h hfound

/-- An operation leaves the store as it is, adds a frame, or binds a name in
one frame. -/
theorem perform_cases {store : Store} (act : Act) (h : store.Ordered) :
    (store.perform act).2 = store ∨
      (∃ parent, act = .enter parent) ∨
      ∃ target name value,
        store.perform act = (.done, store.define target name value) := by
  cases act with
  | enter parent => exact .inr (.inl ⟨parent, rfl⟩)
  | define frame name value => exact .inr (.inr ⟨frame, name, value, rfl⟩)
  | read frame name =>
      simp only [perform]
      split <;> exact .inl rfl
  | assign frame name value =>
      simp only [perform]
      split
      · rename_i hassign
        obtain ⟨_, holder, -, rfl⟩ := assign_eq_ok h hassign
        exact .inr (.inr ⟨holder, name.name, value, rfl⟩)
      · exact .inl rfl
  | readAt frame distance name =>
      simp only [perform]
      split <;> exact .inl rfl
  | writeAt frame distance name value =>
      simp only [perform]
      split
      · rename_i hwrite
        obtain ⟨target, -, -, rfl⟩ := writeAt_eq_ok hwrite
        exact .inr (.inr ⟨target, name, value, rfl⟩)
      · exact .inl rfl

/-- An operation leaves every frame inside an older one. -/
theorem Ordered.perform
    {store : Store} {act : Act} (h : store.Ordered) (hfits : act.Fits store) :
    (store.perform act).2.Ordered := by
  rcases perform_cases act h with hsame | ⟨parent, rfl⟩ | ⟨_, _, _, hbinds⟩
  · rw [hsame]
    exact h
  · exact h.addFrame hfits
  · rw [hbinds]
    exact h.define

theorem Ordered.performAll
    {store : Store} {acts : List Act} (h : store.Ordered)
    (hfit : FitAll store acts) : (store.performAll acts).Ordered := by
  induction acts generalizing store with
  | nil => exact h
  | cons act acts ih => exact ih (h.perform hfit.1) hfit.2

theorem Ordered.perform_of_isFailure
    {store : Store} {act : Act} (h : store.Ordered)
    (hfailure : (store.perform act).1.isFailure = true) :
    (store.perform act).2 = store := by
  rcases perform_cases act h with hsame | ⟨parent, rfl⟩ | ⟨_, _, _, hbinds⟩
  · exact hsame
  · cases hfailure
  · rw [hbinds] at hfailure
    cases hfailure

/-- Whatever was done with the frames of a tree before: reading a name gives
the value at the least distance at which it is bound, and assigning to it
writes there; both succeed whenever there is such a distance.  Whatever binds a
name in a frame is seen where this frame is the nearest one that binds it, and
no other read changes.  An assignment binds no name anew, and an operation that
fails changes nothing. -/
theorem frames_act_as_one_store
    {start : Store} {acts : List Act} (hstart : start.Ordered)
    (hfit : FitAll start acts) :
    let store := start.performAll acts
    (∀ id name,
      ((∃ value, store.lookup id name = .ok value) ↔
        store.Visible id name.name) ∧
      (∀ value, (∃ after, store.assign id name value = .ok after) ↔
        store.Visible id name.name) ∧
      (store.Visible id name.name →
        ∃ distance holder, store.Nearest id name.name distance holder) ∧
      ∀ distance holder, store.Nearest id name.name distance holder →
        (∃ value, store.lookup id name = .ok value ∧
          store.readAt id distance name.name = .ok value) ∧
        ∀ value, ∃ after, store.assign id name value = .ok after ∧
          store.writeAt id distance name.name value = .ok after) ∧
    (∀ id name value after, store.assign id name value = .ok after →
      ∃ distance target, store.Nearest id name.name distance target ∧
        store.Bound target name.name value after ∧
        ∀ u n d t, after.Nearest u n d t ↔ store.Nearest u n d t) ∧
    (∀ id distance name value after,
      store.writeAt id distance name value = .ok after →
      ∃ target, store.Outwards id distance target ∧
        store.Bound target name value after ∧
        ∀ u n d t, after.Nearest u n d t ↔ store.Nearest u n d t) ∧
    (∀ target name value, target < store.frames.size →
      store.Bound target name value (store.define target name value)) ∧
    ∀ act, (store.perform act).1.isFailure = true →
      (store.perform act).2 = store := by
  have hordered : (start.performAll acts).Ordered := hstart.performAll hfit
  generalize start.performAll acts = store at hordered
  refine ⟨fun id name => ⟨lookup_eq_ok_iff hordered, fun value => ?_,
    fun hvisible => hvisible.nearest hordered, ?_⟩, ?_, ?_, ?_, ?_⟩
  · constructor
    · rintro ⟨after, hafter⟩
      obtain ⟨_, _, hnearest, -⟩ := assign_eq_ok hordered hafter
      exact hnearest.visible
    · intro hvisible
      obtain ⟨_, _, hnearest⟩ := hvisible.nearest hordered
      exact ⟨_, (hnearest.write hordered value).1⟩
  · intro distance holder hnearest
    exact ⟨hnearest.read hordered,
      fun value => ⟨_, hnearest.write hordered value⟩⟩
  · intro id name value after hafter
    obtain ⟨distance, target, hnearest, rfl⟩ := assign_eq_ok hordered hafter
    exact ⟨distance, target, hnearest,
      hordered.bound (lt_size_of_local? hnearest.holds),
      fun _ _ _ _ => nearest_define_iff hnearest.holds⟩
  · intro id distance name value after hafter
    obtain ⟨target, houtwards, hholds, rfl⟩ := writeAt_eq_ok hafter
    exact ⟨target, houtwards, hordered.bound (lt_size_of_local? hholds),
      fun _ _ _ _ => nearest_define_iff hholds⟩
  · exact fun target name value htarget => hordered.bound htarget
  · exact fun act hfailure => hordered.perform_of_isFailure hfailure

/-- Two frames inside a third one; the first of them hides the name of the
third. -/
def siblings : List Act :=
  [.enter none, .define 0 "a" (.bool true), .enter (some 0), .enter (some 0),
    .define 1 "a" (.bool false)]

/-- What the second of the two frames assigns is written in the frame around
them, and the first one does not see it. -/
theorem siblings_act_as_one_store :
    empty.Ordered ∧ FitAll empty siblings ∧
      ∃ after, (empty.performAll siblings).assign 2 ⟨"a", 1⟩ .nil = .ok after ∧
        after.lookup 0 ⟨"a", 1⟩ = .ok .nil ∧
        after.lookup 1 ⟨"a", 1⟩ =
          (empty.performAll siblings).lookup 1 ⟨"a", 1⟩ := by
  have hfit : FitAll empty siblings := by
    simp [siblings, FitAll, Act.Fits, perform, addFrame, define, empty]
  obtain ⟨hreads, hassigns, -⟩ := frames_act_as_one_store ordered_empty hfit
  have hvisible : (empty.performAll siblings).Visible 2 "a" :=
    ⟨1, 0, .step rfl .here, rfl⟩
  obtain ⟨after, hafter⟩ := ((hreads 2 ⟨"a", 1⟩).2.1 .nil).mpr hvisible
  obtain ⟨distance, target, hnearest, hbound, hsame⟩ :=
    hassigns 2 ⟨"a", 1⟩ .nil after hafter
  have houter : (empty.performAll siblings).Nearest 2 "a" 1 0 :=
    .further rfl rfl (.here rfl)
  obtain rfl : target = 0 := hnearest.unique houter
  refine ⟨ordered_empty, hfit, after, hafter, ?_, ?_⟩
  · exact hbound.found 0 1 0 ((hsame ..).mpr (.here rfl))
  · refine hbound.kept 1 1 fun d hnear => ?_
    have hown : (empty.performAll siblings).Nearest 1 "a" 0 1 := .here rfl
    exact absurd (((hsame ..).mp hnear).unique hown) (by decide)

end Store
end LoxLang
