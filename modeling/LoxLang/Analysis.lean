import LoxLang.Diagnostic

/-!
# Analysis

A source text is read into tokens, a tree and the distances of its places.  Each
part reports all of its errors, and a part with errors is the last one.
-/

namespace LoxLang

/-- A program that can be run. -/
structure Checked where
  program : Program
  distances : Distances

/-- The outcome of an analysis, and the first number that is free for the places
of a later one. -/
structure Analysis where
  verdict : Except (List Diagnostic) Checked
  nextId : PlaceId

namespace Analysis

def check (program : Program) : Except (List Diagnostic) Checked :=
  match Scope.resolve program with
  | .ok distances => .ok ⟨program, distances⟩
  | .error errors => .error (errors.map .scoping)

/-- Analyses a source text, with its places numbered from `firstId`. -/
def ofSource (source : String) (firstId : PlaceId) : Analysis :=
  match Token.ofSource source with
  | .error errors => ⟨.error (errors.map .lexical), firstId⟩
  | .ok tokens =>
      let reading := Grammar.read tokens firstId
      match reading.program with
      | .error errors => ⟨.error (errors.map .grammatical), reading.nextId⟩
      | .ok program => ⟨check program, reading.nextId⟩

end Analysis

def Program.ofSource (source : String) : Except (List Diagnostic) Program :=
  match Token.ofSource source with
  | .error errors => .error (errors.map .lexical)
  | .ok tokens =>
      match (Grammar.read tokens 0).program with
      | .error errors => .error (errors.map .grammatical)
      | .ok program => .ok program

end LoxLang
