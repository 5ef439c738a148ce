import LoxLang.Session

/-!
# Hosted programs

A host lends its own functions to a program.  They are bound in a frame of
their own, in which the program's statements are executed, so that its
top-level declarations are local ones.
-/

namespace LoxLang
namespace Host

/-- What a host lends: a function under a name, with the number of arguments
that it takes. -/
structure Lent where
  name : String
  arity : Nat
  function : HostFunction

/-- The values that stand for the functions, numbered in order. -/
def natives (lent : List Lent) : List Native :=
  lent.zipIdx.map fun (entry, id) => .lent id entry.name entry.arity

/-- The declarations that stand for the functions when names are resolved. -/
def declarations (lent : List Lent) : Program :=
  lent.map fun entry => .var ⟨entry.name, 0⟩ none

def names (lent : List Lent) : Bindings Value :=
  (natives lent).foldl
    (fun names function => names.put function.name (.native function)) .empty

/-- The distances of a program in the scope of the host's functions. -/
def check (lent : List Lent) (program : Program) :
    Except (List Diagnostic) Checked :=
  match Scope.resolve [.block (declarations lent ++ program)] with
  | .ok distances => .ok ⟨program, distances⟩
  | .error errors => .error (errors.map .scoping)

/-- A new machine that knows what the functions do. -/
def machine (lent : List Lent) (clock : Nat → Float) : Machine :=
  { Machine.start .unlimited clock with
    host := fun id => (lent[id]?.map Lent.function).getD .idle }

/-- Carries out a program in the frame of the host's functions. -/
def run (lent : List Lent) (fuel : Nat) (checked : Checked) :
    Step Completion := do
  let frame ← Step.addFrame none (names lent)
  Step.inFrame frame (Step.execAll fuel checked.program)

/-- Runs a source text with the functions of a host. -/
def runSource (lent : List Lent) (fuel : Nat) (clock : Nat → Float)
    (source : String) : Except (List Diagnostic) (Outcome × Machine) :=
  match Program.ofSource source with
  | .error errors => .error errors
  | .ok program =>
      match check lent program with
      | .error errors => .error errors
      | .ok checked =>
          match run lent fuel checked
              ((machine lent clock).extend checked.distances) with
          | .ok .normal machine => .ok (.finished, machine)
          | .ok (.returned _) machine => .ok (.broken .strayReturn, machine)
          | .error halt machine => .ok (.ofHalt halt, machine)

/-! ## One host -/

/-- Fails with its argument as the message. -/
def fail : HostFunction where
  call view
    | value :: _ => .error ("host: " ++ view.printed value)
    | [] => .ok .nil
  gives {_ arguments _} h := by
    cases arguments with
    | cons => cases h
    | nil =>
        cases h
        exact .inl rfl

/-- Gives back its argument. -/
def echo : HostFunction where
  call _
    | value :: _ => .ok value
    | [] => .ok .nil
  gives {_ arguments _} h := by
    cases arguments with
    | cons =>
        cases h
        exact .inr (.inl List.mem_cons_self)
    | nil =>
        cases h
        exact .inl rfl

/-- Tells whether its two arguments are equal. -/
def same : HostFunction where
  call _
    | a :: b :: _ => .ok (.bool (a.equals b))
    | _ => .ok .nil
  gives h := by
    split at h <;> cases h <;> exact .inl rfl

def functions : List Lent :=
  [⟨"fail", 1, fail⟩, ⟨"echo", 1, echo⟩, ⟨"same", 2, same⟩]

/-- Runs a source text on a new machine, with these three functions. -/
def ofSource (fuel : Nat) (clock : Nat → Float) (source : String) :
    Except (List Diagnostic) (Outcome × Machine) :=
  runSource functions fuel clock source

end Host
end LoxLang
