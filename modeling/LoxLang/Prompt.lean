import LoxLang.Session
import LoxLang.Text.Blank

/-!
# The prompt

A conversation line by line: the prompt is shown, and every line is an input of
one session.  It ends with the input, at the line `:q`, or where the prompt
cannot be shown.
-/

namespace LoxLang
namespace Prompt

/-- What is shown when the next line may be entered. -/
def sign : String := ">>> "

/-- The line that ends a conversation. -/
def quit : String := ":q"

/-- A line, given backwards, without a carriage return at its end. -/
def withoutReturn : List UInt8 → List UInt8
  | 13 :: line => line
  | line => line

/-- The lines of a text after the part `line` of the first one, which is given
backwards.  A line ends with a newline, and a carriage return right before it
belongs to the end. -/
def linesAfter : List UInt8 → List UInt8 → List (List UInt8)
  | [], [] => []
  | line, [] => [line.reverse]
  | line, byte :: rest =>
      if byte = 10 then (withoutReturn line).reverse :: linesAfter [] rest
      else linesAfter (byte :: line) rest

def lines (text : ByteArray) : List ByteArray :=
  (linesAfter [] text.toList).map fun line => ⟨line.toArray⟩

/-- Why a conversation ends. -/
inductive Ending where
  | closed
  | failed (e : OutputError)
  | broken (defect : Defect)
  | outOfFuel

/-- Where the prompt is shown: among what the session writes, or on a sink of
its own. -/
inductive Output where
  | shared
  | own (sink : Sink)

/-- What has come of a conversation: the session with all that was written, the
prompts, the diagnostics, and, once it is over, why. -/
structure State where
  session : Session
  output : Output
  diagnostics : List Diagnostic
  ending : Option Ending

/-- The sink on which the prompt is shown. -/
def State.sink (state : State) : Sink :=
  match state.output with
  | .shared => state.session.machine.sink
  | .own sink => sink

def State.withSink (state : State) (sink : Sink) : State :=
  match state.output with
  | .shared => { state with session.machine.sink := sink }
  | .own _ => { state with output := .own sink }

def State.ask (state : State) : State :=
  let (result, sink) := state.sink.write sign
  let state := state.withSink sink
  match result, sink.flush with
  | .error e, _ => { state with ending := some (.failed e) }
  | .ok _, .error e => { state with ending := some (.failed e) }
  | .ok _, .ok _ => state

def startOn (output : Output) (session : Session) : State :=
  State.ask ⟨session, output, [], none⟩

def start (session : Session) : State :=
  startOn .shared session

/-- Runs a line and asks for the next one. -/
def State.runLine (fuel : Nat) (state : State) (line : String) : State :=
  let (outcome, session) := state.session.run fuel line
  let state := { state with session := session }
  match outcome with
  | .finished => state.ask
  | .failed errors =>
      State.ask { state with diagnostics := state.diagnostics ++ errors }
  | .broken defect => { state with ending := some (.broken defect) }
  | .outOfFuel => { state with ending := some .outOfFuel }

def State.enter (fuel : Nat) (state : State) (line : ByteArray) : State :=
  match state.ending with
  | some _ => state
  | none =>
      match Text.Utf8.decode line with
      | .error _ => { state with ending := some (.failed .notText) }
      | .ok text =>
          if Text.trimmed text = quit then { state with ending := some .closed }
          else state.runLine fuel text

/-- Ends a conversation that is not over at the end of the input. -/
def State.close (state : State) : State :=
  match state.ending with
  | some _ => state
  | none => { state with ending := some .closed }

def converseOn (output : Output) (fuel : Nat) (session : Session)
    (input : ByteArray) : State :=
  ((lines input).foldl (State.enter fuel) (startOn output session)).close

/-- A conversation that shows its prompts among what the session writes. -/
def converse (fuel : Nat) (session : Session) (input : ByteArray) : State :=
  converseOn .shared fuel session input

end Prompt
end LoxLang
