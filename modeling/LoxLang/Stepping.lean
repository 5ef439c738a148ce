import LoxLang.Session

/-!
# Stepping

A program is taken one top-level statement at a time on one machine.  Every step
reports what it wrote and how it ended; a statement that fails does not keep the
next one from being taken.
-/

namespace LoxLang
namespace Stepping

inductive Ending where
  /-- An expression has a value. -/
  | evaluated (value : Description)
  | executed
  | failed (error : Diagnostic)
  | broken (defect : Defect)
  | outOfFuel

structure Report where
  written : ByteArray
  ending : Ending

def Ending.ofHalt : Halt → Ending
  | .fault e => .failed (.runtime e)
  | .output e => .failed (.output e)
  | .defect d => .broken d
  | .outOfFuel => .outOfFuel

def take (fuel : Nat) (machine : Machine) : Stmt → Ending × Machine
  | .expression expr =>
      match Step.eval fuel expr machine with
      | .ok value machine =>
          (.evaluated (machine.store.describe value), machine)
      | .error halt machine => (.ofHalt halt, machine)
  | stmt =>
      match Step.exec fuel stmt machine with
      | .ok .normal machine => (.executed, machine)
      | .ok (.returned _) machine => (.broken .strayReturn, machine)
      | .error halt machine => (.ofHalt halt, machine)

/-- Takes all statements, up to one that breaks the machine. -/
def takeAll (fuel : Nat) : Machine → Program → List Report
  | _, [] => []
  | machine, stmt :: stmts =>
      let (ending, machine) :=
        take fuel { machine with sink := machine.sink.emptied } stmt
      let report := ⟨machine.sink.written, ending⟩
      match ending with
      | .broken _ | .outOfFuel => [report]
      | _ => report :: takeAll fuel machine stmts

/-- Takes the statements of a source text on a new machine. -/
def ofSource (fuel : Nat) (clock : Nat → Float) (source : String) :
    Except (List Diagnostic) (List Report) :=
  match (Analysis.ofSource source 0).verdict with
  | .error errors => .error errors
  | .ok checked =>
      let machine := (Machine.start .unlimited clock).extend checked.distances
      .ok (takeAll fuel machine checked.program)

end Stepping
end LoxLang
