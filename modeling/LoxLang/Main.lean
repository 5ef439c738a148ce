import LoxLang.CommandLine
import Std.Time.DateTime.Timestamp

/-!
# The program

The outer layer: it fetches files, lines and the time, and writes reports.
-/

namespace LoxLang
namespace Main

/-- A bound that no run reaches in practice. -/
def fuel : Nat := Nat.pow 2 60

/-- A failure of the system in its own words. -/
def reason : IO.Error → String
  | .noFileOrDirectory _ code details => worded code details
  | .permissionDenied _ code details => worded code details
  | .inappropriateType _ code details => worded code details
  | .invalidArgument _ code details => worded code details
  | .resourceExhausted _ code details => worded code details
  | e => toString e
where
  worded (code : UInt32) (details : String) : String :=
    details ++ " (os error " ++ toString code ++ ")"

def readFile (name : String) : IO FileContents := do
  match ← (IO.FS.Handle.mk name .read).toBaseIO with
  | .error e => return .notOpened (reason e)
  | .ok handle =>
      match ← handle.readBinToEnd.toBaseIO with
      | .error e => return .notRead (reason e)
      | .ok bytes => return .bytes bytes

/-- The clock of a run that starts now: every reading is a microsecond later. -/
def clock : IO (Nat → Float) := do
  let nanoseconds := (← Std.Time.Timestamp.now).toNanosecondsSinceUnixEpoch
  let microseconds := nanoseconds.val.toNat / 1000
  return fun tick => (microseconds + tick).toFloat / 1000000

/-- A line of the input with the newline at its end, or nothing. -/
partial def readLine (input : IO.FS.Stream) (line : ByteArray) :
    IO ByteArray := do
  let bytes ← input.read 1
  if bytes.isEmpty then return line
  let line := line ++ bytes
  if bytes.get! 0 = 10 then return line else readLine input line

def writeNews (old new : Report) : IO Unit := do
  let output ← IO.getStdout
  output.write (new.stdout.extract old.stdout.size new.stdout.size)
  output.flush
  (← IO.getStderr).putStr ((new.stderr.drop old.stderr.length).toString)

/-- Talks line by line, and gives the exit code. -/
partial def converse (input : IO.FS.Stream) (state : Prompt.State) :
    IO Nat := do
  let old := Command.ofConversation state
  if state.ending.isSome then return old.exitCode
  let line ← readLine input .empty
  let state :=
    (Prompt.lines line).foldl (Prompt.State.enter fuel)
      (if line.isEmpty then state.close else state)
  writeNews old (Command.ofConversation state)
  converse input state

end Main
end LoxLang

open LoxLang in
def main (arguments : List String) : IO UInt32 := do
  let session := Session.start .unlimited (← Main.clock)
  match Command.ofArguments? arguments with
  | none =>
      IO.eprintln <| "usage: lox [--log] [tokenize FILE [--json] | " ++
        "parse FILE [--json] | run FILE | repl]"
      return 2
  | some .repl =>
      let state := Prompt.start session
      Main.writeNews ⟨.empty, "", 0⟩ (Command.ofConversation state)
      return (← Main.converse (← IO.getStdin) state).toUInt32
  | some command =>
      let contents ← match command.input? with
        | some file => Main.readFile file
        | none => pure (.bytes .empty)
      let report := command.report Main.fuel session contents .empty
      Main.writeNews ⟨.empty, "", 0⟩ report
      return report.exitCode.toUInt32
