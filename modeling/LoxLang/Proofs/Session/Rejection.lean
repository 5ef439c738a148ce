import LoxLang.Proofs.Likeness.Session
import LoxLang.Proofs.Session.Safety

/-!
# Rejected inputs leave no trace

A rejected input is not run, but it takes up numbers: the places of all later
inputs are numbered as if it had been accepted.  Two sessions of which one has
seen more rejected inputs than the other are twins.  They hold the same values
and keep alike functions, and places that stand for each other have the same
distance in both.  Every further input finds them alike and leaves them alike.
-/

namespace LoxLang

/-- Reported of a text that is not run. -/
def Diagnostic.isStatic : Diagnostic → Bool
  | .lexical _ | .grammatical _ | .scoping _ => true
  | .runtime _ | .output _ | .encoding _ => false

/-- The errors for which a text is not run. -/
def Analysis.rejection? (source : String) : Option (List Diagnostic) :=
  match (Analysis.ofSource source 0).verdict with
  | .ok _ => none
  | .error errors => some errors

open Grammar (Shifted)

section
variable {source : String} {firstId : PlaceId}

theorem Analysis.verdict_eq_error_iff {errors : List Diagnostic} :
    (Analysis.ofSource source firstId).verdict = .error errors ↔
      Analysis.rejection? source = some errors := by
  have hverdict := (Analysis.ofSource_shifted source firstId 0).verdict
  unfold Analysis.rejection?
  generalize (Analysis.ofSource source firstId).verdict = verdict
    at hverdict ⊢
  generalize (Analysis.ofSource source 0).verdict = verdict' at hverdict ⊢
  cases hverdict with
  | ok _ => simp
  | error herrors =>
      rw [Diagnostic.Alike.all_eq herrors]
      simp

theorem Analysis.rejection?_eq_none_iff :
    Analysis.rejection? source = none ↔
      ∃ checked, (Analysis.ofSource source firstId).verdict = .ok checked := by
  cases hverdict : (Analysis.ofSource source firstId).verdict with
  | ok checked =>
      have hnone : Analysis.rejection? source = none := by
        cases hrejection : Analysis.rejection? source with
        | none => rfl
        | some errors =>
            rw [Analysis.verdict_eq_error_iff.mpr hrejection] at hverdict
            cases hverdict
      simp [hnone]
  | error errors =>
      simp [Analysis.verdict_eq_error_iff.mp hverdict]

/-- Every error of a rejected text is one of its scan, its grammar or its
scopes. -/
theorem Analysis.rejection?_isStatic {errors : List Diagnostic}
    (h : Analysis.rejection? source = some errors) :
    errors.all Diagnostic.isStatic = true := by
  have hverdict : (Analysis.ofSource source 0).verdict = .error errors :=
    Analysis.verdict_eq_error_iff.mpr h
  unfold Analysis.ofSource at hverdict
  split at hverdict
  · cases hverdict
    simp [Diagnostic.isStatic]
  · dsimp only at hverdict
    split at hverdict
    · cases hverdict
      simp [Diagnostic.isStatic]
    · unfold Analysis.check at hverdict
      split at hverdict
      · cases hverdict
      · cases hverdict
        simp [Diagnostic.isStatic]

end

/-- What stops a program that runs is not static. -/
theorem Machine.run_failed
    {fuel : Nat} {checked : Checked} {errors : List Diagnostic}
    (machine : Machine)
    (h : (machine.run fuel checked).1 = .failed errors) :
    ∃ d, errors = [d] ∧ d.isStatic = false := by
  unfold Machine.run at h
  split at h
  · cases h
  · rename_i halt _ _
    cases halt with
    | fault e =>
        cases h
        exact ⟨_, rfl, rfl⟩
    | output e =>
        cases h
        exact ⟨_, rfl, rfl⟩
    | defect d => cases h
    | outOfFuel => cases h

namespace Session

/-! ## Twins -/

/-- The sessions differ in the numbers of their places only.  Places that
stand for each other belong to earlier inputs. -/
structure Twin (session session' : Session) : Prop where
  reached : ∃ programs, Reached programs session
  reached' : ∃ programs, Reached programs session'
  alike : ∃ place, session.machine.Alike (.places place) session'.machine ∧
    ∀ id id', place id id' → id < session.nextId ∧ id' < session'.nextId

theorem twin_start (sink : Sink) (clock : Nat → Float) :
    Twin (start sink clock) (start sink clock) where
  reached := ⟨[], .start sink clock⟩
  reached' := ⟨[], .start sink clock⟩
  alike := by
    refine ⟨fun _ _ => False, ?_, fun _ _ hplace => hplace.elim⟩
    exact ⟨⟨rfl, fun _ => .none, fun _ => .none, rfl⟩, rfl, rfl,
      fun _ _ hplace => hplace.elim, rfl, rfl, rfl, rfl⟩

namespace Twin

variable {session session' : Session} {source : String}

theorem emptied (h : Twin session session') :
    Twin session.emptied session'.emptied := by
  obtain ⟨⟨programs, hreached⟩, ⟨programs', hreached'⟩, place, hmachine,
    hbounds⟩ := h
  exact ⟨⟨programs, hreached.emptied⟩, ⟨programs', hreached'.emptied⟩, place,
    hmachine.withSink (congrArg Sink.emptied hmachine.sink), hbounds⟩

/-- A rejected input only takes up numbers. -/
theorem skip
    {errors : List Diagnostic} (h : Twin session session') (fuel : Nat)
    (hverdict : (Analysis.ofSource source session.nextId).verdict =
      .error errors) :
    Twin (session.run fuel source).2 session' := by
  obtain ⟨⟨programs, hreached⟩, hreached', place, hmachine, hbounds⟩ := h
  refine ⟨⟨programs, hreached.rejected fuel hverdict⟩, hreached', place, ?_⟩
  rw [run_of_error fuel hverdict]
  refine ⟨hmachine, fun id id' hplace => ?_⟩
  obtain ⟨hid, hid'⟩ := hbounds id id' hplace
  have hle := Analysis.firstId_le_nextId source session.nextId
  exact ⟨Nat.lt_of_lt_of_le hid hle, hid'⟩

end Twin

/-- Earlier places stand for what they stood for, and the places of a new
input for those that are equally far from its first one. -/
def widened
    (place : PlaceId → PlaceId → Prop) (firstId firstId' nextId : PlaceId)
    (id id' : PlaceId) : Prop :=
  place id id' ∨ Shifted firstId firstId' id id' ∧ id < nextId

section
variable {session session' : Session} {source : String}
variable {checked checked' : Checked} {place : PlaceId → PlaceId → Prop}

/-- The distances of an accepted input leave the machines alike. -/
theorem alike_ready
    {programs programs' : List Program}
    (hreached : Reached programs session)
    (hreached' : Reached programs' session')
    (hmachine : session.machine.Alike (.places place) session'.machine)
    (hbounds : ∀ id id', place id id' →
      id < session.nextId ∧ id' < session'.nextId)
    (hverdict : (Analysis.ofSource source session.nextId).verdict =
      .ok checked)
    (hverdict' : (Analysis.ofSource source session'.nextId).verdict =
      .ok checked')
    (hdistances : checked.distances.Alike
      (.places (Shifted session.nextId session'.nextId)) checked'.distances)
    (nextId : PlaceId) :
    (session.machine.extend checked.distances).Alike
      (.places (widened place session.nextId session'.nextId nextId))
      (session'.machine.extend checked'.distances) := by
  refine ⟨?_, hmachine.globals, hmachine.current, ?_, hmachine.sink,
    hmachine.clock, hmachine.ticks, hmachine.host⟩
  · exact hmachine.store.mono ⟨Likeness.linesBelow_places _ _, fun _ _ => .inl⟩
  · intro id id' hplace
    change (session.machine.distances.merge _).find? id =
      (session'.machine.distances.merge _).find? id'
    rw [Distances.find?_merge, Distances.find?_merge]
    cases hplace with
    | inl hold =>
        obtain ⟨hid, hid'⟩ := hbounds id id' hold
        rw [Analysis.find?_eq_none hverdict (.inl hid),
          Analysis.find?_eq_none hverdict' (.inl hid')]
        exact hmachine.distances hold
    | inr hnew =>
        obtain ⟨hshifted, -⟩ := hnew
        have hsame := hdistances hshifted
        obtain ⟨k, rfl, rfl⟩ := hshifted
        rw [hreached.sound.unseen _ (Nat.le_add_right _ k),
          hreached'.sound.unseen _ (Nat.le_add_right _ k), hsame]

/-- An accepted input ends in the same way in both sessions. -/
theorem Twin.run
    (h : Twin session session') (fuel : Nat)
    (hverdict : (Analysis.ofSource source session.nextId).verdict =
      .ok checked) :
    (session.run fuel source).1 = (session'.run fuel source).1 ∧
      Twin (session.run fuel source).2 (session'.run fuel source).2 := by
  obtain ⟨⟨programs, hreached⟩, ⟨programs', hreached'⟩, place, hmachine,
    hbounds⟩ := h
  have hanalysis :=
    Analysis.ofSource_shifted source session.nextId session'.nextId
  obtain ⟨checked', hverdict', hchecked⟩ :
      ∃ checked', (Analysis.ofSource source session'.nextId).verdict =
          .ok checked' ∧
        checked.Alike (.places (Shifted session.nextId session'.nextId))
          checked' := by
    have hverdicts := hanalysis.verdict
    rw [hverdict] at hverdicts
    generalize (Analysis.ofSource source session'.nextId).verdict = verdict
      at hverdicts
    cases hverdicts with
    | @ok _ checked' hchecked => exact ⟨checked', rfl, hchecked⟩
  let nextId := (Analysis.ofSource source session.nextId).nextId
  let wider := widened place session.nextId session'.nextId nextId
  have hready := alike_ready hreached hreached' hmachine hbounds hverdict
    hverdict' hchecked.distances nextId
  have hprogram :
      Stmt.AllAlike (.places wider) checked.program checked'.program := by
    refine hchecked.program.imp (Likeness.linesBelow_places _ _) ?_
    intro id hid id' hshifted
    exact .inr ⟨hshifted, (Analysis.places_bounds hverdict hid).2⟩
  obtain ⟨houtcome, hafter⟩ := Machine.run_alike fuel hready hprogram
  have hreachedNext := hreached.accepted fuel hverdict
  have hreachedNext' := hreached'.accepted fuel hverdict'
  rw [run_of_ok fuel hverdict] at hreachedNext ⊢
  rw [run_of_ok fuel hverdict'] at hreachedNext' ⊢
  refine ⟨houtcome.eq, ⟨_, hreachedNext⟩, ⟨_, hreachedNext'⟩, _, hafter, ?_⟩
  intro id id' hplace
  cases hplace with
  | inl hold =>
      obtain ⟨hid, hid'⟩ := hbounds id id' hold
      exact ⟨Nat.lt_of_lt_of_le hid (Analysis.firstId_le_nextId _ _),
        Nat.lt_of_lt_of_le hid' (Analysis.firstId_le_nextId _ _)⟩
  | inr hnew =>
      obtain ⟨⟨k, rfl, rfl⟩, hlt⟩ := hnew
      obtain ⟨size, hnext, hnext'⟩ := hanalysis.nextId
      have hk : k < size :=
        Nat.lt_of_add_lt_add_left (Nat.lt_of_lt_of_eq hlt hnext)
      exact ⟨hlt, Nat.lt_of_lt_of_eq (Nat.add_lt_add_left hk _) hnext'.symm⟩

end

/-! ## Whole sessions -/

/-- An input fails with static errors exactly when it is rejected. -/
theorem run_failed_static_iff
    {session : Session} {source : String} {errors : List Diagnostic}
    (fuel : Nat) :
    ((session.run fuel source).1 = .failed errors ∧
        errors.all Diagnostic.isStatic = true) ↔
      Analysis.rejection? source = some errors := by
  cases hverdict : (Analysis.ofSource source session.nextId).verdict with
  | error found =>
      have hrejection := Analysis.verdict_eq_error_iff.mp hverdict
      have hstatic := Analysis.rejection?_isStatic hrejection
      rw [run_of_error fuel hverdict, hrejection]
      constructor
      · rintro ⟨hfailed, -⟩
        cases hfailed
        rfl
      · intro hsame
        cases hsame
        exact ⟨rfl, hstatic⟩
  | ok checked =>
      have hnone := Analysis.rejection?_eq_none_iff.mpr ⟨checked, hverdict⟩
      rw [run_of_ok fuel hverdict, hnone]
      refine ⟨?_, fun hsome => nomatch hsome⟩
      rintro ⟨hfailed, hstatic⟩
      obtain ⟨d, rfl, hd⟩ := session.machine.run_failed hfailed
      rw [List.all_cons, hd] at hstatic
      cases hstatic

/-- Without the rejected inputs, a twin reports what is left of the
reports. -/
theorem Twin.runAll_filter
    {session session' : Session} (fuel : Nat) (inputs : List String)
    (h : Twin session.emptied session'.emptied) :
    runAll fuel session' (inputs.filter fun source =>
        (Analysis.rejection? source).isNone) =
      ((inputs.zip (runAll fuel session inputs)).filter fun report =>
        (Analysis.rejection? report.1).isNone).map Prod.snd := by
  induction inputs generalizing session session' with
  | nil => rfl
  | cons source inputs ih =>
      cases hrejection : Analysis.rejection? source with
      | some errors =>
          have hverdict :
              (Analysis.ofSource source session.emptied.nextId).verdict =
                .error errors :=
            Analysis.verdict_eq_error_iff.mpr hrejection
          have hrest := @ih _ session' (h.skip fuel hverdict).emptied
          rw [run_of_error fuel hverdict] at hrest
          simp [runAll, run_of_error fuel hverdict, hrejection, hrest]
      | none =>
          obtain ⟨checked, hverdict⟩ :=
            (@Analysis.rejection?_eq_none_iff source
              session.emptied.nextId).mp hrejection
          obtain ⟨houtcome, htwin⟩ := h.run fuel hverdict
          have hrest := ih htwin.emptied
          obtain ⟨_, hmachine, -⟩ := htwin.alike
          have hwritten := congrArg Sink.written hmachine.sink
          rw [List.filter_cons_of_pos (by simp [hrejection]), runAll, runAll]
          generalize session.emptied.run fuel source = result
            at houtcome hwritten hrest ⊢
          generalize session'.emptied.run fuel source = result'
            at houtcome hwritten hrest ⊢
          obtain ⟨outcome, next⟩ := result
          obtain ⟨outcome', next'⟩ := result'
          dsimp only at houtcome hwritten hrest ⊢
          subst houtcome
          rw [← hwritten]
          cases outcome with
          | finished => simp [hrejection, hrest]
          | failed errors => simp [hrejection, hrest]
          | broken d => simp [hrejection]
          | outOfFuel => simp [hrejection]

/-- Whether an input is rejected, and with which errors, depends on its text
alone, and without the rejected inputs all the others print the same and end
in the same way. -/
theorem rejected_inputs_leave_no_trace (fuel : Nat) :
    (∀ (session : Session) (source : String) (errors : List Diagnostic),
      ((session.run fuel source).1 = .failed errors ∧
          errors.all Diagnostic.isStatic = true) ↔
        Analysis.rejection? source = some errors) ∧
      ∀ (sink : Sink) (clock : Nat → Float) (inputs : List String),
        runAll fuel (start sink clock) (inputs.filter fun source =>
            (Analysis.rejection? source).isNone) =
          ((inputs.zip (runAll fuel (start sink clock) inputs)).filter
            fun report => (Analysis.rejection? report.1).isNone).map
              Prod.snd := by
  refine ⟨fun session source errors => ?_, fun sink clock inputs => ?_⟩
  · exact run_failed_static_iff fuel
  · exact (twin_start sink clock).emptied.runAll_filter fuel inputs

end Session
end LoxLang
