import LoxLang.Session
import LoxLang.Proofs.Likeness.Grammar
import LoxLang.Proofs.Run.Return
import LoxLang.Proofs.Scope.Resolution
import LoxLang.Proofs.Scope.Safety
import LoxLang.Proofs.Token.Words

/-!
# Where a session can break

The machine of a session keeps functions, classes and instances of all earlier
inputs, and the distances of all their places.  The distances of a new input
leave those of the earlier ones as they are, since its places have new
numbers.  So everything that the machine keeps stays bound in the scopes that
its frames stand for, whatever the inputs were and however far they came.
-/

namespace LoxLang

open Scope (Chart)

theorem Analysis.firstId_le_nextId (source : String) (firstId : PlaceId) :
    firstId ≤ (Analysis.ofSource source firstId).nextId := by
  unfold Analysis.ofSource
  split
  · exact Nat.le_refl firstId
  · dsimp only
    split <;> exact Grammar.firstId_le_nextId _ _

theorem Analysis.exists_checked
    {analysis : Analysis} (h : analysis.verdict.isOk = true) :
    ∃ checked, analysis.verdict = .ok checked := by
  cases hverdict : analysis.verdict with
  | ok checked => exact ⟨checked, rfl⟩
  | error errors =>
      rw [hverdict] at h
      cases h

section
variable {source : String} {firstId id : PlaceId} {checked : Checked}

theorem Analysis.places_bounds
    (hverdict : (Analysis.ofSource source firstId).verdict = .ok checked)
    (hid : id ∈ Stmt.placesAll checked.program) :
    firstId ≤ id ∧ id < (Analysis.ofSource source firstId).nextId := by
  obtain ⟨⟨tokens, _, hderives⟩, _⟩ := Analysis.of_verdict_eq_ok hverdict
  exact hderives.numbered.bounds id hid

/-- Only the places of the text itself have distances. -/
theorem Analysis.find?_eq_none
    (hverdict : (Analysis.ofSource source firstId).verdict = .ok checked)
    (hid : id < firstId ∨ (Analysis.ofSource source firstId).nextId ≤ id) :
    checked.distances.find? id = none := by
  obtain ⟨_, hresolve⟩ := Analysis.of_verdict_eq_ok hverdict
  refine Scope.resolve_find? hresolve fun hmem => ?_
  obtain ⟨hfirst, hnext⟩ := Analysis.places_bounds hverdict hmem
  cases hid with
  | inl hlt => exact Nat.not_le_of_lt hlt hfirst
  | inr hle => exact Nat.not_le_of_lt hnext hle

end

/-! ## Another chart -/

section
variable {chart other : Chart} {globals : FrameId} {store : Store}

theorem Function.Sound.mono
    {function : Function} (hle : chart.Below other)
    (h : function.Sound chart globals store) :
    function.Sound other globals store where
  bound := by
    obtain ⟨stack, hbound, hfits⟩ := h.bound
    exact ⟨stack, FunctionDecl.Bound.mono hle _ hbound, hfits⟩
  this := h.this

theorem Function.MethodSound.mono
    {method : Function} (hle : chart.Below other)
    (h : method.MethodSound chart globals store) :
    method.MethodSound other globals store := by
  obtain ⟨stack, hbound, hfits⟩ := h
  exact ⟨stack, FunctionDecl.Bound.mono hle _ hbound, hfits⟩

theorem Store.Sound.mono
    (hle : chart.Below other) (h : store.Sound chart globals) :
    store.Sound other globals where
  outermost := h.outermost
  functions hfunction := (h.functions hfunction).mono hle
  methods hcls hmethod := (h.methods hcls hmethod).mono hle
  this := h.this
  super := h.super

end

/-! ## Sessions -/

namespace Session

/-- The sessions that inputs lead to, with the programs that were run on the
way, the latest first. -/
inductive Reached : List Program → Session → Prop where
  | start (sink : Sink) (clock : Nat → Float) :
      Reached [] (Session.start sink clock)
  | emptied : Reached programs session → Reached programs session.emptied
  | accepted (fuel : Nat) :
      Reached programs session →
      (Analysis.ofSource source session.nextId).verdict = .ok checked →
      Reached (checked.program :: programs) (session.run fuel source).2
  | rejected (fuel : Nat) :
      Reached programs session →
      (Analysis.ofSource source session.nextId).verdict = .error errors →
      Reached programs (session.run fuel source).2

/-- The places of all inputs so far have the distances that the machine knows.
The assignments to a pending name are those of the programs. -/
def chart (programs : List Program) (session : Session) : Chart where
  distance id distance :=
    id < session.nextId ∧ session.machine.distances.find? id = distance
  mayAssign expr := ∃ program ∈ programs, expr ∈ program.selfAssignments

/-- Between two inputs. -/
structure Sound (programs : List Program) (session : Session) : Prop where
  machine : session.machine.Sound (session.chart programs)
  unseen : ∀ id, session.nextId ≤ id →
    session.machine.distances.find? id = none
  top : session.machine.current = session.machine.globals

/-- The session right before the run of a checked program. -/
def ready (session : Session) (checked : Checked) (nextId : PlaceId) :
    Session :=
  ⟨session.machine.extend checked.distances, nextId⟩

section
variable {programs : List Program} {session : Session} {checked : Checked}
variable {source : String}

theorem sound_start (sink : Sink) (clock : Nat → Float) :
    (start sink clock).Sound [] := by
  have hword (word : String) (hword : word ≠ Native.clock.name)
      (frame : FrameId) :
      (start sink clock).machine.store.local? frame word = none := by
    change (Store.empty.addFrame ⟨none, _⟩).2.local? frame word = none
    rw [Store.local?_addFrame]
    split
    · exact Bindings.find?_put_of_ne _ _ hword
    · rfl
  refine ⟨⟨⟨Nat.zero_lt_one, ?_, ?_, ?_, ?_⟩, fun h => h.2⟩, ?_, rfl⟩
  · intro id function hfunction
    cases hfunction
  · intro id cls name method hcls
    cases hcls
  · intro frame value hvalue
    rw [hword "this" (by decide) frame] at hvalue
    cases hvalue
  · intro frame value hvalue
    rw [hword "super" (by decide) frame] at hvalue
    cases hvalue
  · exact fun id _ => Distances.find?_empty id

/-- A session whose machine differs in the store, the sink and the clock. -/
theorem Sound.withMachine
    {machine : Machine} (h : session.Sound programs)
    (hmachine : machine.Sound (session.chart programs))
    (hdistances : machine.distances = session.machine.distances)
    (htop : machine.current = machine.globals) :
    Sound programs ⟨machine, session.nextId⟩ := by
  have hchart :
      chart programs ⟨machine, session.nextId⟩ = session.chart programs := by
    simp only [chart, hdistances]
  refine ⟨hchart ▸ hmachine, ?_, htop⟩
  intro id hid
  exact hdistances ▸ h.unseen id hid

/-- The places of a new input have numbers that no earlier one has. -/
theorem Sound.ready
    (h : session.Sound programs)
    (hverdict : (Analysis.ofSource source session.nextId).verdict =
      .ok checked) :
    (session.ready checked
        (Analysis.ofSource source session.nextId).nextId).Sound
        (checked.program :: programs) ∧
      Stmt.BoundAll
        ((session.ready checked
          (Analysis.ofSource source session.nextId).nextId).chart
          (checked.program :: programs)) false [] checked.program := by
  obtain ⟨⟨tokens, hnamed, hderives⟩, hresolve⟩ :=
    Analysis.of_verdict_eq_ok hverdict
  have hnone (id : PlaceId) := @Analysis.find?_eq_none _ _ id _ hverdict
  generalize (Analysis.ofSource source session.nextId).nextId = nextId
    at hderives hnone ⊢
  have hnumbered := hderives.numbered
  have hfind (id : PlaceId) :
      (session.ready checked nextId).machine.distances.find? id =
        (checked.distances.find? id).or
          (session.machine.distances.find? id) :=
    Distances.find?_merge _ _ _
  have hbelow :
      (session.chart programs).Below
        ((session.ready checked nextId).chart
          (checked.program :: programs)) := by
    constructor
    · rintro id distance ⟨hid, hdistance⟩
      refine ⟨Nat.lt_of_lt_of_le hid hnumbered.le, ?_⟩
      rw [hfind, hnone id (.inl hid)]
      exact hdistance
    · rintro expr ⟨program, hmem, hexpr⟩
      exact ⟨program, List.mem_cons_of_mem _ hmem, hexpr⟩
  refine ⟨⟨⟨h.machine.store.mono hbelow, fun hid => hid.2⟩, ?_, h.top⟩, ?_⟩
  · intro id hid
    rw [hfind, hnone id (.inr hid)]
    exact h.unseen id (Nat.le_trans hnumbered.le hid)
  · refine Scope.resolve_bound hresolve (hderives.shaped hnamed)
      hnumbered.nodup ?_ ?_
    · intro id hmem
      have hbounds := hnumbered.bounds id hmem
      refine ⟨hbounds.2, ?_⟩
      rw [hfind, h.unseen id hbounds.1, Option.or_none]
    · exact fun expr hexpr => ⟨checked.program, List.mem_cons_self, hexpr⟩

/-- Nothing happens to the machine of a rejected input. -/
theorem Sound.skip
    {nextId : PlaceId} (h : session.Sound programs)
    (hle : session.nextId ≤ nextId) :
    Sound programs ⟨session.machine, nextId⟩ := by
  have hbelow :
      (session.chart programs).Below
        (chart programs ⟨session.machine, nextId⟩) :=
    ⟨fun hid => ⟨Nat.lt_of_lt_of_le hid.1 hle, hid.2⟩, id⟩
  exact ⟨⟨h.machine.store.mono hbelow, fun hid => hid.2⟩,
    fun id hid => h.unseen id (Nat.le_trans hle hid), h.top⟩

end

end Session

/-- The machine after a run is the one that the statements leave behind, and it
is broken only by them. -/
theorem Machine.run_ends
    (fuel : Nat) (machine : Machine) (checked : Checked) :
    (Step.execAll fuel checked.program).Ends
      (machine.extend checked.distances)
      (fun completion m₁ => (machine.run fuel checked).2 = m₁ ∧
        ∀ d, (machine.run fuel checked).1 = .broken d →
          completion ≠ .normal)
      fun halt m₁ => (machine.run fuel checked).2 = m₁ ∧
        ∀ d, (machine.run fuel checked).1 = .broken d →
          halt = .defect d := by
  refine Step.ends_of ?_ ?_
  · intro completion m₁ hrun
    cases completion with
    | normal =>
        cases hflush : m₁.sink.flush <;>
          simp [Machine.run, Step.runProgram, hrun, Step.flush, hflush,
            Outcome.ofHalt]
    | returned value => simp [Machine.run, Step.runProgram, hrun]
  · intro halt m₁ hrun
    cases halt with
    | fault e =>
        cases hflush : m₁.sink.flush <;>
          simp [Machine.run, Step.runProgram, hrun, Step.flush, hflush,
            Outcome.ofHalt]
    | output e => simp [Machine.run, Step.runProgram, hrun, Outcome.ofHalt]
    | defect d => simp [Machine.run, Step.runProgram, hrun, Outcome.ofHalt]
    | outOfFuel => simp [Machine.run, Step.runProgram, hrun, Outcome.ofHalt]

namespace Session

section
variable {programs : List Program} {session : Session} {checked : Checked}
variable {source : String}

theorem run_of_ok
    (fuel : Nat)
    (hverdict : (Analysis.ofSource source session.nextId).verdict =
      .ok checked) :
    session.run fuel source =
      ((session.machine.run fuel checked).1,
        ⟨(session.machine.run fuel checked).2,
          (Analysis.ofSource source session.nextId).nextId⟩) := by
  simp only [run, hverdict]

theorem run_of_error
    {errors : List Diagnostic} (fuel : Nat)
    (hverdict : (Analysis.ofSource source session.nextId).verdict =
      .error errors) :
    session.run fuel source =
      (.failed errors, ⟨session.machine,
        (Analysis.ofSource source session.nextId).nextId⟩) := by
  simp only [run, hverdict]

/-- The task of an accepted input is bound at the top level. -/
theorem Sound.task
    {nextId : PlaceId}
    (h : (session.ready checked nextId).Sound programs)
    (hbound : Stmt.BoundAll ((session.ready checked nextId).chart programs)
      false [] checked.program) :
    (Task.execAll checked.program).Sound
      ((session.ready checked nextId).chart programs)
      (session.machine.extend checked.distances) :=
  ⟨false, [], ⟨h.top, fun hstack => nomatch hstack⟩, hbound⟩

/-- The run of an accepted input, however it ends. -/
theorem Sound.run
    (h : session.Sound programs) (fuel : Nat)
    (hverdict : (Analysis.ofSource source session.nextId).verdict =
      .ok checked) :
    (session.run fuel source).2.Sound (checked.program :: programs) ∧
      ∀ d, (session.run fuel source).1 = .broken d →
        Origin ((session.ready checked
            (Analysis.ofSource source session.nextId).nextId).chart
            (checked.program :: programs))
          fuel (.execAll checked.program)
          (session.machine.extend checked.distances) d := by
  obtain ⟨hready, hbound⟩ := h.ready hverdict
  rw [run_of_ok fuel hverdict]
  generalize (Analysis.ofSource source session.nextId).nextId = nextId
    at hready hbound ⊢
  let ready := session.ready checked nextId
  have hends := safe (ready.chart (checked.program :: programs)) fuel
    (.execAll checked.program) ready.machine hready.machine
    (hready.task hbound)
  have hlater := Step.run_keeps fuel (.execAll checked.program) ready.machine
  have hnormal := Step.execAll_fallsThrough fuel checked.program
    hbound.not_returnsAny ready.machine
  have hrun := session.machine.run_ends fuel checked
  have hafter {m₁ : Machine}
      (hm₁ : m₁.Sound (ready.chart (checked.program :: programs)))
      (hlater : ready.machine.Later
        (Task.execAll checked.program).declares m₁) :
      Sound (checked.program :: programs) ⟨m₁, nextId⟩ := by
    refine hready.withMachine hm₁ hlater.distances ?_
    rw [hlater.current, hlater.globals]
    exact hready.top
  cases hexec : Step.execAll fuel checked.program ready.machine with
  | ok completion m₁ =>
      obtain ⟨hmachine, hbroken⟩ := hrun.of_ok hexec
      rw [hmachine]
      refine ⟨hafter (hends.of_ok hexec).1 (hlater.of_ok hexec), ?_⟩
      intro d hd
      exact absurd (hnormal.of_ok hexec) (hbroken d hd)
  | error halt m₁ =>
      obtain ⟨hmachine, hbroken⟩ := hrun.of_error hexec
      rw [hmachine]
      have hhalted := hends.of_error hexec
      refine ⟨hafter hhalted.1 (hlater.of_error hexec), ?_⟩
      intro d hd
      exact hhalted.2 d (hbroken d hd)

theorem Reached.sound (h : Reached programs session) :
    session.Sound programs := by
  induction h with
  | start sink clock => exact sound_start sink clock
  | emptied _ ih =>
      exact ih.withMachine ⟨ih.machine.store, ih.machine.distances⟩ rfl ih.top
  | accepted fuel _ hverdict ih => exact (ih.run fuel hverdict).1
  | rejected fuel _ hverdict ih =>
      rw [run_of_error fuel hverdict]
      exact ih.skip (Analysis.firstId_le_nextId _ _)

/-- An accepted input breaks the machine in one way only: by an assignment to a
local variable inside of its own initializer, when the frame does not hold the
variable yet.  The assignment belongs to the input or to an earlier one.  The
distance of a `super` that is evaluated is never zero. -/
theorem run_breaks_only_in_own_initializer
    (hreached : Reached programs session)
    (hverdict : (Analysis.ofSource source session.nextId).verdict =
      .ok checked)
    (fuel : Nat) :
    (∀ d, (session.run fuel source).1 = .broken d →
      ∃ fuel' id name value m',
        Reaches fuel (.execAll checked.program)
            (session.machine.extend checked.distances) (fuel' + 1)
            (.eval (.assign id name value)) m' ∧
          Raises fuel' id name value m' d ∧ d = .missing name.name ∧
          ∃ program ∈ checked.program :: programs,
            .assign id name value ∈ program.selfAssignments) ∧
      ((∀ program ∈ checked.program :: programs,
          program.selfAssignments = []) →
        ∀ d, (session.run fuel source).1 ≠ .broken d) ∧
      ∀ fuel' id line method m',
        Reaches fuel (.execAll checked.program)
            (session.machine.extend checked.distances) fuel'
            (.eval (.super id line method)) m' →
          ∃ distance, m'.distances.find? id = some (distance + 1) := by
  have hsound := hreached.sound
  have horigin := (hsound.run fuel hverdict).2
  refine ⟨?_, ?_, ?_⟩
  · intro d hd
    obtain ⟨fuel', id, name, value, m', hreaches, hraises, hself, hmissing⟩ :=
      horigin d hd
    exact ⟨fuel', id, name, value, m', hreaches, hraises, hmissing, hself⟩
  · intro hnone d hd
    obtain ⟨_, id, name, value, _, _, _, ⟨program, hmem, hself⟩, _⟩ :=
      horigin d hd
    rw [hnone program hmem] at hself
    cases hself
  · intro fuel' id line method m' hreaches
    obtain ⟨hready, hbound⟩ := hsound.ready hverdict
    obtain ⟨hm', stack, pending, _, hsuper⟩ :=
      hreaches.sound hready.machine (hready.task hbound)
    obtain ⟨distance, _, _, hplace⟩ := hsuper
    exact ⟨distance, hm'.distances hplace⟩

/-- An input that fails half way, after declaring a function. -/
def unfinished : String :=
  "fun f() \x7b var a = a = nil; \x7d print g;"

def halfway : Session :=
  ((start .unlimited fun _ => 0).run 20 unfinished).2

theorem halfway_breaks_in_own_initializer :
    ∃ programs checked,
      Reached programs halfway ∧
        (Analysis.ofSource "f();" halfway.nextId).verdict = .ok checked ∧
        (halfway.run 20 "f();").1 = .broken (.missing "a") ∧
        ∃ fuel' id name value m',
          Reaches 20 (.execAll checked.program)
              (halfway.machine.extend checked.distances) (fuel' + 1)
              (.eval (.assign id name value)) m' ∧
            Raises fuel' id name value m' (.missing "a") ∧
            Defect.missing "a" = .missing name.name ∧
            ∃ program ∈ checked.program :: programs,
              .assign id name value ∈ program.selfAssignments := by
  have hfirst :
      ∃ checked, (Analysis.ofSource unfinished 0).verdict = .ok checked :=
    Analysis.exists_checked (by decide +kernel)
  have hsecond :
      ∃ checked, (Analysis.ofSource "f();" halfway.nextId).verdict =
        .ok checked :=
    Analysis.exists_checked (by decide +kernel)
  have hdefect :
      (match (halfway.run 20 "f();").1 with
        | .broken d => some d
        | _ => none) = some (.missing "a") := by
    decide +kernel
  have hbroken : (halfway.run 20 "f();").1 = .broken (.missing "a") := by
    split at hdefect
    · rename_i d hd
      rw [hd, Option.some.inj hdefect]
    · cases hdefect
  obtain ⟨earlier, hearlier⟩ := hfirst
  obtain ⟨checked, hchecked⟩ := hsecond
  have hreached : Reached [earlier.program] halfway :=
    .accepted 20 (.start .unlimited fun _ => 0) hearlier
  have hresult := run_breaks_only_in_own_initializer hreached hchecked 20
  exact ⟨_, checked, hreached, hchecked, hbroken, hresult.1 _ hbroken⟩

end

end Session

end LoxLang
