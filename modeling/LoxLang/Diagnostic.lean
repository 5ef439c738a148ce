import LoxLang.Grammar.Statement
import LoxLang.Run.Fault
import LoxLang.Scope.Resolution
import LoxLang.Text.Utf8
import LoxLang.Token.Scan

/-!
# Diagnostics

What is reported of an input that does not run to its end, and the exit code
that belongs to it.
-/

namespace LoxLang

inductive Diagnostic where
  | lexical (e : LexError)
  | grammatical (e : ParseError)
  | scoping (e : ScopeError)
  | runtime (e : RuntimeError)
  | output (e : OutputError)
  | encoding (fault : Text.Utf8.Fault)

namespace Diagnostic

def label : String := "[ERROR]: "

/-- A message about a place in the source. -/
def onLine (line : Nat) (message : String) : String :=
  "[line " ++ Nat.repr line ++ "] " ++ message

def message : Diagnostic → String
  | .lexical e => label ++ onLine e.line e.cause.message
  | .grammatical e => label ++ onLine e.line e.cause.message
  | .scoping e => label ++ onLine e.line e.cause.message
  | .runtime e => label ++ e.message
  | .output e => label ++ e.message
  | .encoding fault => label ++ fault.message

/-- 65 for a program that is not well formed, 70 for one that fails, 74 for
input and output. -/
def exitCode : Diagnostic → Nat
  | .lexical _ | .grammatical _ | .scoping _ => 65
  | .runtime _ => 70
  | .output _ | .encoding _ => 74

end Diagnostic
end LoxLang
