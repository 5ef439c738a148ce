import LoxLang.Proofs.Run.Cut
import LoxLang.Proofs.Session.Course
import LoxLang.Proofs.Session.Joined

/-!
# What a sink does to a run

A sink that fills up cuts a run short, and one whose flush fails changes what
is reported of it.  Apart from this the run is the same on every sink.
-/

namespace LoxLang

/-- What is reported if the flush fails.  It is called for when a program has
come to its end and before a failure of the program is reported. -/
def Outcome.unflushed : Outcome → Outcome
  | .finished => .failed [.output .flushFailed]
  | .failed [.runtime _] => .failed [.output .flushFailed]
  | outcome => outcome

/-- What is reported of a program whose statements end in the given way. -/
def Outcome.reportedOn (sink : Sink) (outcome : Outcome) : Outcome :=
  if sink.flushFails then outcome.unflushed else outcome

theorem Outcome.unflushed_of_isStatic
    {errors : List Diagnostic} (h : errors.all Diagnostic.isStatic = true) :
    (Outcome.failed errors).unflushed = .failed errors := by
  unfold unflushed
  split
  · contradiction
  · rename_i hfailed
    cases hfailed
    cases h
  · rfl

/-- What is left behind under a bound is within it, or is left by what was
stopped. -/
theorem Step.CutShort.left
    {α : Type} {step : Step α} {m : Machine} {limit : Nat}
    {stops : Machine → Prop} (h : step.CutShort limit m stops) :
    (step.left m).Below limit ∨
      ∃ m₁ sink current, stops m₁ ∧ step.left (m.bounded (some limit)) =
        { m₁ with sink := sink, current := current } := by
  unfold CutShort at h
  unfold Step.left
  generalize step m = result at h ⊢
  generalize step (m.bounded (some limit)) = result' at h ⊢
  cases h with
  | ok hbelow => exact .inl hbelow
  | error hbelow => exact .inl hbelow
  | cut hstops hleft => exact .inr ⟨_, _, _, hstops, hleft⟩

namespace Machine

section
variable {fuel : Nat} {machine : Machine} {checked : Checked}
variable {bytes : ByteArray} {sink : Sink}
variable {result : EStateM.Result Halt Machine Completion}

private theorem run_eq_reportedOn
    (hexec : Step.execAll fuel checked.program
      (machine.extend checked.distances) = result) :
    machine.run fuel checked =
      ((Outcome.ofEnd result).1.reportedOn (Outcome.ofEnd result).2.sink,
        (Outcome.ofEnd result).2) := by
  cases hflush : (Outcome.ofEnd result).2.sink.flushFails with
  | false =>
      rw [run_eq_ofEnd hexec hflush, Outcome.reportedOn, hflush]
      rfl
  | true =>
      rw [Outcome.reportedOn, hflush]
      unfold Machine.run Step.runProgram
      rw [hexec]
      cases result with
      | ok completion m =>
          cases completion with
          | normal =>
              change m.sink.flushFails = true at hflush
              simp [Step.flush, Sink.flush, hflush, Outcome.ofEnd,
                Outcome.ofHalt, Outcome.unflushed]
          | returned value => rfl
      | error halt m =>
          change m.sink.flushFails = true at hflush
          cases halt with
          | fault e =>
              simp [Step.flush, Sink.flush, hflush, Outcome.ofEnd,
                Outcome.ofHalt, Outcome.unflushed]
          | output e => rfl
          | defect d => rfl
          | outOfFuel => rfl

variable
  (hprints : (Step.execAll fuel checked.program).Prints
    (machine.extend checked.distances) bytes result)
include hprints

theorem run_of_takes (htakes : sink.Takes bytes) :
    (machine.onto sink).run fuel checked =
      ((Outcome.ofEnd result).1.reportedOn sink,
        (Outcome.ofEnd result).2.onto (sink.append bytes)) := by
  rw [run_eq_reportedOn (hprints.whole sink htakes), Outcome.ofEnd_endOnto]
  rfl

theorem run_of_not_takes (hfull : ¬ sink.Takes bytes) :
    ((machine.onto sink).run fuel checked).1 = .failed [.output .sinkFull] ∧
      ((machine.onto sink).run fuel checked).2.sink = sink.filled bytes := by
  obtain ⟨m₁, hcut, hsink⟩ := hprints.cut sink hfull
  rw [run_eq_reportedOn hcut]
  refine ⟨?_, hsink⟩
  change Outcome.reportedOn m₁.sink (.failed [.output .sinkFull]) = _
  unfold Outcome.reportedOn
  split <;> rfl

end
end Machine

namespace Session

/-- A new session whose sink has the given faults. -/
def startOn
    (clock : Nat → Float) (limit : Option Nat) (flushFails : Bool) : Session :=
  start ⟨.empty, limit, flushFails⟩ clock

/-- In the course of the input, a `print` that finds everything within the
limit comes to write a text that passes it.  The machine has got so far as to
know the value. -/
inductive Passes
    (fuel : Nat) (session : Session) (source : String) (limit : Nat)
    (m₁ : Machine) : Prop where
  | intro {f : Nat} {expr : Expr} {value : Value} {m : Machine} :
      Occurs fuel session [source] (f + 1) (.exec (.print expr)) m →
      Step.eval f expr m = .ok value m₁ →
      m₁.sink.written.size ≤ limit →
      limit < (m₁.sink.written ++
        (m₁.store.printed value ++ "\n").toUTF8).size →
      Passes fuel session source limit m₁

section
variable {session : Session} {source : String} {checked : Checked}
variable {fuel f : Nat} {task : Task} {m : Machine}

private theorem not_occurs_nil : ¬ Occurs fuel session [] f task m := by
  intro h
  generalize hinputs : ([] : List String) = inputs at h
  induction h with
  | program _ => cases hinputs
  | enter _ _ ih => exact ih hinputs
  | later _ _ => cases hinputs

theorem Occurs.of_reaches
    {inputs : List String} {f' : Nat} {task' : Task} {m' : Machine}
    (h : Occurs fuel session inputs f task m)
    (hreaches : Reaches f task m f' task' m') :
    Occurs fuel session inputs f' task' m' := by
  induction hreaches with
  | refl => exact h
  | step henters _ ih => exact ih (.enter h henters)

/-- The tasks of a single input are those that its program leads to. -/
theorem occurs_single_iff
    (hverdict : (Analysis.ofSource source session.nextId).verdict =
      .ok checked) :
    Occurs fuel session [source] f task m ↔
      Reaches fuel (.execAll checked.program)
        (session.machine.extend checked.distances) f task m := by
  constructor
  · intro h
    generalize hinputs : [source] = inputs at h
    induction h with
    | program hverdict' =>
        cases hinputs
        cases hverdict.symm.trans hverdict'
        exact .refl
    | enter _ henters ih => exact (ih hverdict hinputs).enter henters
    | later hlater _ =>
        cases hinputs
        exact absurd hlater not_occurs_nil
  · exact (Occurs.program hverdict).of_reaches

theorem not_occurs_of_error
    {errors : List Diagnostic}
    (hverdict : (Analysis.ofSource source session.nextId).verdict =
      .error errors) :
    ¬ Occurs fuel session [source] f task m := by
  intro h
  generalize hinputs : [source] = inputs at h
  induction h with
  | program hverdict' =>
      cases hinputs
      cases hverdict.symm.trans hverdict'
  | enter _ _ ih => exact ih hverdict hinputs
  | later hlater _ =>
      cases hinputs
      exact not_occurs_nil hlater

end

/-! ## Single inputs on different sinks -/

section
variable (fuel : Nat) (clock : Nat → Float) (source : String)

/-- The sink gets as much of the output as there is room for. -/
theorem startOn_run_ends :
    ∃ (bytes : ByteArray) (outcome : Outcome),
      ∀ (limit : Option Nat) (flushFails : Bool),
        let sink : Sink := ⟨.empty, limit, flushFails⟩
        let ended := (startOn clock limit flushFails).run fuel source
        (sink.Takes bytes → ended.1 = outcome.reportedOn sink ∧
          ended.2.machine.sink = sink.append bytes) ∧
        (¬ sink.Takes bytes → ended.1 = .failed [.output .sinkFull] ∧
          ended.2.machine.sink = sink.filled bytes) := by
  cases hverdict : (Analysis.ofSource source 0).verdict with
  | error errors =>
      -- A rejected text is not run, and what is reported does not change.
      refine ⟨.empty, .failed errors, ?_⟩
      intro limit flushFails sink ended
      have hstatic := Outcome.unflushed_of_isStatic
        (Analysis.rejection?_isStatic
          (Analysis.verdict_eq_error_iff.mp hverdict))
      have hended : ended = _ :=
        @run_of_error (startOn clock limit flushFails) _ _ fuel hverdict
      rw [hended, Outcome.reportedOn, hstatic, ite_self, Sink.append_empty]
      exact ⟨fun _ => ⟨rfl, rfl⟩, absurd (Sink.takes_empty sink)⟩
  | ok checked =>
      obtain ⟨bytes, result, hprints⟩ :=
        Step.run_streams fuel (.execAll checked.program)
          ((startOn clock none false).machine.extend checked.distances)
      refine ⟨bytes, (Outcome.ofEnd result).1, ?_⟩
      intro limit flushFails sink ended
      have hended : ended = _ :=
        @run_of_ok (startOn clock limit flushFails) _ _ fuel hverdict
      rw [hended]
      constructor
      · intro htakes
        have hrun := Machine.run_of_takes hprints htakes
        change (startOn clock limit flushFails).machine.run fuel checked = _
          at hrun
        rw [hrun]
        exact ⟨rfl, rfl⟩
      · exact Machine.run_of_not_takes hprints

theorem startOn_run_bounded (limit : Nat) :
    let whole := (startOn clock none false).run fuel source
    let output := whole.2.machine.sink.written
    let bounded := (startOn clock (some limit) false).run fuel source
    bounded.2.machine.sink =
        ⟨output.extract 0 (min limit output.size), some limit, false⟩ ∧
      (output.size ≤ limit → bounded.1 = whole.1) ∧
      (limit < output.size → bounded.1 = .failed [.output .sinkFull]) := by
  intro whole output bounded
  obtain ⟨bytes, outcome, hends⟩ := startOn_run_ends fuel clock source
  obtain ⟨houtcome, hsink⟩ :=
    (hends none false).1 (Sink.takes_of_limit rfl bytes)
  have houtput : output = bytes := by
    change whole.2.machine.sink.written = bytes
    rw [hsink]
    exact ByteArray.empty_append
  have htakes :
      Sink.Takes ⟨.empty, some limit, false⟩ bytes ↔ bytes.size ≤ limit := by
    change bytes.size ≤ min bytes.size (limit - 0) ↔ _
    omega
  rw [houtput]
  by_cases hfits : bytes.size ≤ limit
  · obtain ⟨hsame, hwritten⟩ := (hends (some limit) false).1 (htakes.mpr hfits)
    refine ⟨?_, ?_, fun hfull => absurd hfits (Nat.not_le_of_lt hfull)⟩
    · rw [hwritten, Nat.min_eq_right hfits, ByteArray.extract_zero_size]
      simp [Sink.append]
    · intro _
      rw [hsame, houtcome]
      rfl
  · obtain ⟨hcut, hwritten⟩ :=
      (hends (some limit) false).2 (mt htakes.mp hfits)
    refine ⟨?_, fun hle => absurd hle hfits, fun _ => hcut⟩
    rw [hwritten, Nat.min_comm]
    simp [Sink.filled, Sink.room]

theorem startOn_run_unflushed (limit : Option Nat) :
    let sound := (startOn clock limit false).run fuel source
    let failing := (startOn clock limit true).run fuel source
    failing.2.machine.sink.written = sound.2.machine.sink.written ∧
      failing.1 = sound.1.unflushed := by
  intro sound failing
  obtain ⟨bytes, outcome, hends⟩ := startOn_run_ends fuel clock source
  by_cases htakes : Sink.Takes ⟨.empty, limit, false⟩ bytes
  · obtain ⟨hsound, hsink⟩ := (hends limit false).1 htakes
    obtain ⟨hfailing, hsink'⟩ := (hends limit true).1 htakes
    rw [hsink, hsink', hsound, hfailing]
    exact ⟨rfl, rfl⟩
  · obtain ⟨hsound, hsink⟩ := (hends limit false).2 htakes
    obtain ⟨hfailing, hsink'⟩ := (hends limit true).2 htakes
    rw [hsink, hsink', hsound, hfailing]
    exact ⟨rfl, rfl⟩

/-- Where the output is cut, the machine is left to the failed write. -/
theorem startOn_run_passes
    {limit : Nat}
    (hfull : limit < ((startOn clock none false).run fuel
      source).2.machine.sink.written.size) :
    let bounded := (startOn clock (some limit) false).run fuel source
    ∃ m₁, Passes fuel (startOn clock none false) source limit m₁ ∧
      bounded.2.machine =
        { m₁ with
          sink := bounded.2.machine.sink
          current := (startOn clock none false).machine.current } := by
  intro bounded
  cases hverdict : (Analysis.ofSource source 0).verdict with
  | error errors =>
      rw [@run_of_error (startOn clock none false) _ _ fuel hverdict] at hfull
      cases hfull
  | ok checked =>
      have hbounded : bounded = _ :=
        @run_of_ok (startOn clock (some limit) false) _ _ fuel hverdict
      have hlater := Machine.run_later fuel
        (startOn clock (some limit) false).machine checked
      have hbelow : ((startOn clock none false).machine.extend
          checked.distances).Below limit :=
        ⟨rfl, Nat.zero_le limit⟩
      rw [@run_of_ok (startOn clock none false) _ _ fuel hverdict] at hfull
      rw [hbounded]
      simp only [Machine.run_left] at hlater hfull ⊢
      rcases (Step.run_cutShort fuel (.execAll checked.program)
        hbelow).left with
        hwithin | ⟨m₁, sink, current, hover, hleft⟩
      · exact absurd hwithin.fits (Nat.not_le_of_lt hfull)
      · cases hover with
        | intro hreaches heval hfits hpasses =>
            have hoccurs := (occurs_single_iff hverdict).mpr hreaches
            refine ⟨m₁, .intro hoccurs heval hfits.fits
              (Nat.lt_of_not_le hpasses), ?_⟩
            have hcurrent := hlater.current
            change Step.left (Step.execAll fuel checked.program)
              ((startOn clock (some limit) false).machine.extend
                checked.distances) = _ at hleft
            rw [hleft] at hcurrent ⊢
            subst hcurrent
            rfl

theorem occurs_startOn_iff
    {f : Nat} {task : Task} {m : Machine} (limit : Nat) :
    Occurs fuel (startOn clock (some limit) false) [source] f task m ↔
      ∃ m', Occurs fuel (startOn clock none false) [source] f task m' ∧
        m'.sink.written.size ≤ limit ∧ m = m'.bounded (some limit) := by
  cases hverdict : (Analysis.ofSource source 0).verdict with
  | error errors =>
      have hnone {limit : Option Nat} {m : Machine} :
          ¬ Occurs fuel (startOn clock limit false) [source] f task m :=
        not_occurs_of_error hverdict
      constructor
      · intro h
        exact absurd h hnone
      · rintro ⟨m', h, -⟩
        exact absurd h hnone
  | ok checked =>
      have hfits : ((startOn clock none false).machine.extend
          checked.distances).sink.Fits (some limit) :=
        Nat.zero_le limit
      rw [@occurs_single_iff (startOn clock (some limit) false) _ _ _ _ _ _
        hverdict]
      simp only [@occurs_single_iff (startOn clock none false) _ _ _ _ _ _
        hverdict]
      exact reaches_bounded_iff rfl hfits

end

/-- The sink has a say only in where a run stops and in whether its flush
fails.  Take a run on a sink without faults, with its output and its outcome.

A sink that takes `limit` bytes gets the first of the output.  If this is all
of it the outcome is the same.  Otherwise the only error is that of the sink,
and nothing is done after the write that has failed: the machine is left as a
`print` has found it whose text passes the limit, with the frame in which the
run was started.  In any case those tasks are carried out that the first run
takes up within the limit, and no other ones.

A sink whose flush fails gets the same output.  A program that has come to its
end and one that has failed are reported as a failed flush, and everything else
as on a sink that flushes. -/
theorem sink_only_cuts_a_run_short
    (fuel : Nat) (clock : Nat → Float) (source : String) :
    let whole := (startOn clock none false).run fuel source
    let output := whole.2.machine.sink.written
    (∀ limit : Nat,
      let bounded := (startOn clock (some limit) false).run fuel source
      bounded.2.machine.sink.written =
          output.extract 0 (min limit output.size) ∧
        (output.size ≤ limit → bounded.1 = whole.1) ∧
        (limit < output.size →
          bounded.1 = .failed [.output .sinkFull] ∧
          ∃ m₁, Passes fuel (startOn clock none false) source limit m₁ ∧
            bounded.2.machine =
              { m₁ with
                sink := ⟨output.extract 0 limit, some limit, false⟩
                current := (startOn clock none false).machine.current }) ∧
        ∀ f task m,
          Occurs fuel (startOn clock (some limit) false) [source] f task m ↔
            ∃ m', Occurs fuel (startOn clock none false) [source] f task m' ∧
              m'.sink.written.size ≤ limit ∧ m = m'.bounded (some limit)) ∧
    ∀ limit : Option Nat,
      let sound := (startOn clock limit false).run fuel source
      let failing := (startOn clock limit true).run fuel source
      failing.2.machine.sink.written = sound.2.machine.sink.written ∧
        failing.1 = sound.1.unflushed := by
  intro whole output
  refine ⟨?_, startOn_run_unflushed fuel clock source⟩
  intro limit bounded
  obtain ⟨hsink, hsame, hcut⟩ := startOn_run_bounded fuel clock source limit
  refine ⟨congrArg Sink.written hsink, hsame, ?_, ?_⟩
  · intro hfull
    obtain ⟨m₁, hpasses, hleft⟩ := startOn_run_passes fuel clock source hfull
    refine ⟨hcut hfull, m₁, hpasses, ?_⟩
    rw [hsink, Nat.min_eq_left (Nat.le_of_lt hfull)] at hleft
    exact hleft
  · intro f task m
    exact occurs_startOn_iff fuel clock source limit

end Session
end LoxLang
