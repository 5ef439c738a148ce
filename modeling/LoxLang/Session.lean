import LoxLang.Analysis
import LoxLang.Run.Evaluation

/-!
# Sessions

A session runs one input after another on the same machine, so that later inputs
see what earlier ones declared.  An input that fails leaves the session usable.
-/

namespace LoxLang

/-- How the run of an input ends. -/
inductive Outcome where
  | finished
  | failed (errors : List Diagnostic)
  | broken (defect : Defect)
  | outOfFuel

def Outcome.ofHalt : Halt → Outcome
  | .fault e => .failed [.runtime e]
  | .output e => .failed [.output e]
  | .defect d => .broken d
  | .outOfFuel => .outOfFuel

def Machine.run (fuel : Nat) (machine : Machine) (checked : Checked) :
    Outcome × Machine :=
  match Step.runProgram fuel checked.program
      (machine.extend checked.distances) with
  | .ok _ machine => (.finished, machine)
  | .error halt machine => (.ofHalt halt, machine)

structure Session where
  machine : Machine
  /-- The first number that no place of an earlier input has. -/
  nextId : PlaceId

namespace Session

def start (sink : Sink) (clock : Nat → Float) : Session :=
  ⟨.start sink clock, 0⟩

def run (fuel : Nat) (session : Session) (source : String) :
    Outcome × Session :=
  let analysis := Analysis.ofSource source session.nextId
  match analysis.verdict with
  | .error errors =>
      (.failed errors, { session with nextId := analysis.nextId })
  | .ok checked =>
      let (outcome, machine) := session.machine.run fuel checked
      (outcome, ⟨machine, analysis.nextId⟩)

def emptied (session : Session) : Session :=
  { session with
    machine := { session.machine with sink := session.machine.sink.emptied } }

/-- Runs inputs in order, up to one that breaks the machine.  Each outcome comes
with what was written on the way to it. -/
def runAll (fuel : Nat) : Session → List String → List (Outcome × ByteArray)
  | _, [] => []
  | session, source :: sources =>
      let (outcome, session) := session.emptied.run fuel source
      let report := (outcome, session.machine.sink.written)
      match outcome with
      | .finished | .failed _ => report :: runAll fuel session sources
      | .broken _ | .outOfFuel => [report]

end Session
end LoxLang
