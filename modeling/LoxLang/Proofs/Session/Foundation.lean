import LoxLang.Proofs.Run.Building
import LoxLang.Proofs.Session.Course

/-!
# The foundation of every machine

A new machine is founded, and it stays so whatever trees it carries out, with
whatever distances and in whatever frames of its own, and however these runs
end.  All its searches therefore go along chains of ever older frames and
classes, and nothing that it has made is ever exchanged or removed.
-/

namespace LoxLang

/-- One machine comes about from another one: a task that is carried out takes
it to the start and to the end of all tasks on its way.  Before the next task,
all but the store can be exchanged, the distances above all, and a new frame
can be made for it.  Of a tree, nothing is asked; `Ready` is about calls. -/
inductive Machine.Leads (origin : Machine) : Machine → Prop where
  | refl : origin.Leads origin
  | start :
      origin.Leads m → task.Ready m.store →
      Reaches fuel task m fuel' task' m' →
      origin.Leads m'
  | finish :
      origin.Leads m → task.Ready m.store →
      Reaches fuel task m fuel' task' m' →
      origin.Leads ((task'.run fuel').left m')
  | exchange :
      origin.Leads m → m'.store = m.store →
      m'.current < m.store.frames.size →
      origin.Leads m'
  | within :
      origin.Leads m →
      (∀ id, parent = some id → id < m.store.frames.size) →
      (∀ name value, names.find? name = some value → m.store.Knows value) →
      origin.Leads (m.within parent names)

namespace Machine

variable {origin m : Machine}

theorem founded_start (sink : Sink) (clock : Nat → Float) :
    (start sink clock).Founded := by
  have hsettled := Session.settled_start sink clock
  constructor
  · apply Store.founded_empty.change
    apply Store.Change.addFrame
    intro parent hparent
    cases hparent
  · exact hsettled.closed
  · exact hsettled.bare.inside

theorem Leads.founded (h : origin.Leads m) (horigin : origin.Founded) :
    m.Founded ∧ origin.store.Becomes m.store := by
  induction h with
  | refl => exact ⟨horigin, .refl⟩
  | start _ hready hreaches ih =>
      obtain ⟨hm', -, hbecomes⟩ := hreaches.founded ih.1 hready
      exact ⟨hm', ih.2.trans hbecomes⟩
  | finish _ hready hreaches ih =>
      -- A task that is reached has been given what is there.
      obtain ⟨hm', hready', hfirst⟩ := hreaches.founded ih.1 hready
      obtain ⟨hleft, hrest⟩ := Task.founded_left _ _ hm' hready'
      exact ⟨hleft, ih.2.trans (hfirst.trans hrest)⟩
  | exchange _ hstore hcurrent ih =>
      have hclosed := ih.1.closed
      have hfounded := ih.1.store
      rw [← hstore] at hclosed hfounded hcurrent
      exact ⟨⟨hfounded, hclosed, hcurrent⟩, hstore ▸ ih.2⟩
  | within _ hparent hnames ih =>
      exact ⟨ih.1.within hparent (hnames _ _),
        ih.2.tail (.addFrame hparent)⟩

theorem Leads.trans
    {later : Machine} (h : origin.Leads m) (hlater : m.Leads later) :
    origin.Leads later := by
  induction hlater with
  | refl => exact h
  | start _ hready hreaches ih => exact ih.start hready hreaches
  | finish _ hready hreaches ih => exact ih.finish hready hreaches
  | exchange _ hstore hcurrent ih => exact ih.exchange hstore hcurrent
  | within _ hparent hnames ih => exact ih.within hparent hnames

end Machine

namespace Session

private theorem leads_run
    (fuel : Nat) (session : Session) (source : String)
    (h : session.machine.Founded) :
    session.machine.Leads (session.run fuel source).2.machine := by
  cases hverdict : (Analysis.ofSource source session.nextId).verdict with
  | error errors =>
      rw [run_of_error fuel hverdict]
      exact .refl
  | ok checked =>
      rw [run_of_ok fuel hverdict, session.machine.run_left]
      have hextend : session.machine.Leads
          (session.machine.extend checked.distances) :=
        Machine.Leads.refl.exchange rfl h.current
      have hready : (Task.execAll checked.program).Ready
          session.machine.store := trivial
      exact hextend.finish hready .refl

/-- Whatever the inputs are, a session leads on from its machine. -/
theorem leads_after
    (fuel : Nat) (session : Session) (inputs : List String)
    (h : session.machine.Founded) :
    session.machine.Leads (session.after fuel inputs).machine := by
  induction inputs generalizing session with
  | nil => exact .refl
  | cons source inputs ih =>
      have hrun := session.leads_run fuel source h
      exact hrun.trans (ih _ (hrun.founded h).1)

end Session

/-- Whatever a machine has carried out: the frame around a frame and the
superclass of a class are older.  All searches for names and methods go along
the chains of them, which end.  On the way to any later machine, each single
change of the store leaves in place what was there. -/
theorem Machine.ancestors_are_older_and_nothing_is_exchanged
    {sink : Sink} {clock : Nat → Float} {m later : Machine}
    (hm : (start sink clock).Leads m) (hlater : m.Leads later) :
    m.store.Founded ∧
      (∀ id : FrameId, ∃ ids,
        Chain m.store.parent? id ids ∧ ids.Pairwise (· > ·) ∧
          (∀ name, m.store.holder? id name =
            ids.find? fun frame => (m.store.local? frame name).isSome) ∧
          ∀ distance, m.store.ancestor id distance =
            ids[distance]?.elim (.error (distance + 1 - ids.length)) .ok) ∧
      (∀ id : ClassId, ∃ ids,
        Chain m.store.superclass? id ids ∧ ids.Pairwise (· > ·) ∧
          ∀ name, m.store.method? id name =
            ids.findSome? fun cls => m.store.ownMethod? cls name) ∧
      m.store.Grows later.store ∧
      Relation.ReflTransGen
        (fun older newer =>
          older.Change newer ∧ older.Grows newer ∧ newer.Founded)
        m.store later.store := by
  have hfounded := (hm.founded (founded_start sink clock)).1
  have hbecomes := (hlater.founded hfounded).2
  refine ⟨hfounded.store, ?_, ?_, hbecomes.grows, hfounded.store.path hbecomes⟩
  · intro id
    obtain ⟨ids, hids⟩ := Chain.exists_of_lt hfounded.store.frames id
    exact ⟨ids, hids, hids.descending hfounded.store.frames,
      Store.holder?_eq_find? hfounded.store.frames hids,
      Store.ancestor_eq_getElem? hids⟩
  · intro id
    obtain ⟨ids, hids⟩ := Chain.exists_of_lt hfounded.store.classes id
    exact ⟨ids, hids, hids.descending hfounded.store.classes,
      Store.method?_eq_findSome? hfounded.store.classes hids⟩

namespace Session

/-- The second class `A` inherits from a subclass of the first one. -/
def rebuilt : List String :=
  ["class A \x7b m() \x7b \x7d \x7d", "class B < A \x7b \x7d",
    "class A < B \x7b \x7d"]

private theorem rebuilt_class_inherits :
    let store := ((start .unlimited fun _ => 0).after 20 rebuilt).machine.store
    store.superclass? 2 = some 1 ∧ store.superclass? 1 = some 0 ∧
      store.superclass? 0 = none ∧ store.ownMethod? 2 "m" = none ∧
      store.ownMethod? 1 "m" = none ∧ (store.ownMethod? 0 "m").isSome := by
  decide +kernel

theorem rebuilt_ancestors_are_older :
    let session := (start .unlimited fun _ => 0).after 20 rebuilt
    let next := session.after 20 ["var a = A(); a.m(); a.m = nil;"]
    session.machine.store.Founded ∧
      Chain session.machine.store.superclass? 2 [2, 1, 0] ∧
      session.machine.store.method? 2 "m" =
        session.machine.store.ownMethod? 0 "m" ∧
      (session.machine.store.ownMethod? 0 "m").isSome ∧
      session.machine.store.Grows next.machine.store := by
  intro session next
  obtain ⟨htwo, hone, hzero, hnone, hnone', hsome⟩ := rebuilt_class_inherits
  have hstart := Machine.founded_start .unlimited fun _ => 0
  have hsession := leads_after 20 (start .unlimited fun _ => 0) rebuilt hstart
  have hfounded := (hsession.founded hstart).1
  have hnext := leads_after 20 session ["var a = A(); a.m(); a.m = nil;"]
    hfounded
  obtain ⟨hstore, -, hclasses, hgrows, -⟩ :=
    Machine.ancestors_are_older_and_nothing_is_exchanged hsession hnext
  have hchain : Chain session.machine.store.superclass? 2 [2, 1, 0] :=
    .link htwo (.link hone (.last hzero))
  obtain ⟨ids, hids, -, hmethod⟩ := hclasses 2
  cases hchain.eq_of_chain hids
  refine ⟨hstore, hchain, ?_, hsome, hgrows⟩
  rw [hmethod, List.findSome?_cons, hnone, List.findSome?_cons, hnone',
    List.findSome?_singleton]

end Session
end LoxLang
