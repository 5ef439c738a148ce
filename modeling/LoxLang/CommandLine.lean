import LoxLang.Directory
import LoxLang.Json.Written
import LoxLang.Prompt
import LoxLang.Text.Quoted
import LoxLang.Token.Dump
import LoxLang.Tree.Dump
import LoxLang.Tree.Printed

/-!
# The command line

A command works on a file or on the standard input, and its report is what it
writes and the exit code.
-/

namespace LoxLang

inductive Command where
  | tokenize (file : String) (json : Bool)
  | parse (file : String) (json : Bool)
  | run (file : String)
  | repl
  | version
deriving DecidableEq, Repr

/-- What a command leaves behind. -/
structure Report where
  stdout : ByteArray
  stderr : String
  exitCode : Nat

namespace Report

def success (text : String) : Report :=
  ⟨text.toUTF8, "", 0⟩

def listed (errors : List Diagnostic) : String :=
  String.join (errors.map fun e => e.message ++ "\n")

/-- A failure that is told by diagnostics; the first one gives the exit code. -/
def failure (stdout : ByteArray) (errors : List Diagnostic) : Report :=
  ⟨stdout, listed errors, match errors with
    | e :: _ => e.exitCode
    | [] => 65⟩

/-- Causes, each the reason for the one before it; they are numbered if there
are several. -/
def causes : List String → String
  | [cause] => "    " ++ cause ++ "\n"
  | causes => String.join (causes.mapIdx fun i cause =>
      "    " ++ Nat.repr i ++ ": " ++ cause ++ "\n")

def trouble (stdout : ByteArray) (stderr context : String)
    (reasons : List String) : Report :=
  ⟨stdout,
    stderr ++ "Error: " ++ context ++ "\n\nCaused by:\n" ++ causes reasons, 1⟩

/-- A failure that no program accepted by the analysis should show. -/
def broken (stdout : ByteArray) (stderr message : String) : Report :=
  ⟨stdout, stderr ++ message ++ "\n", 101⟩

def cutOff : String := "the run did not end within its bound"

end Report

structure Operands where
  names : List String
  json : Bool
  log : Bool
deriving DecidableEq, Repr

/-- The operands among some arguments.  Options stand anywhere in front of `--`,
each of them once; a single dash is a name. -/
def Operands.ofArguments? : List String → Option Operands
  | [] => some ⟨[], false, false⟩
  | argument :: rest =>
      if argument = "--" then some ⟨rest, false, false⟩
      else if argument = "--log" then
        (ofArguments? rest).bind fun operands =>
          if operands.log then none else some { operands with log := true }
      else if argument = "--json" then
        (ofArguments? rest).bind fun operands =>
          if operands.json then none else some { operands with json := true }
      else if argument.startsWith "-" ∧ argument ≠ "-" then none
      else (ofArguments? rest).map fun operands =>
        { operands with names := argument :: operands.names }

namespace Command

/-- The command of a name, if it takes the operands.  The name of a file is not
empty. -/
def ofOperands? (command : String) (operands : Operands) : Option Command :=
  match command, operands.names, operands.json with
  | "repl", [], false => some .repl
  | "run", [file], false => if file = "" then none else some (.run file)
  | "tokenize", [file], json =>
      if file = "" then none else some (.tokenize file json)
  | "parse", [file], json => if file = "" then none else some (.parse file json)
  | _, _, _ => none

/-- The command at the front of the arguments; without one it is a
conversation. -/
def ofFront? : List String → Option Command
  | [] => some .repl
  | "--version" :: _ | "-V" :: _ => some .version
  | command :: rest => (Operands.ofArguments? rest).bind (ofOperands? command)

/-- The command that the arguments ask for.  Logging has no effect on what a
command does. -/
def ofArguments? : List String → Option Command
  | "--log" :: rest => ofFront? rest
  | arguments => ofFront? arguments

def input? : Command → Option String
  | .tokenize file _ | .parse file _ | .run file => some file
  | .repl | .version => none

/-- The text of a file, or the report of its failure. -/
def source (file : String) : FileContents → Except Report String
  | .notOpened reason =>
      .error (.trouble .empty ""
        ("Failed to open file " ++ Text.quoted file) [reason])
  | .notRead reason =>
      .error (.trouble .empty ""
        ("Failed to read file " ++ Text.quoted file) [reason])
  | .bytes bytes =>
      match Text.Utf8.decode bytes with
      | .ok text => .ok text
      | .error fault =>
          .error (.trouble .empty ""
            ("File " ++ Text.quoted file ++ " is not valid UTF-8")
            [(Diagnostic.encoding fault).message, fault.message])

/-- Lists tokens: the good ones on one side, the errors on the other. -/
def tokenizeSource (json : Bool) (source : String) : Report :=
  let items := Token.scan source
  let tokens := Token.tokensOf items
  let errors := (Token.errorsOf items).map Diagnostic.lexical
  let text :=
    if json then (Token.listToJson tokens).pretty ++ "\n"
    else String.join (tokens.map fun token => token.listed ++ "\n")
  if errors.isEmpty then .success text else .failure text.toUTF8 errors

def parseSource (json : Bool) (source : String) : Report :=
  match Program.ofSource source with
  | .error errors => .failure .empty errors
  | .ok program =>
      .success
        ((if json then (Program.toJson program).pretty
          else Program.printed program) ++ "\n")

def runSource (fuel : Nat) (session : Session) (source : String) : Report :=
  let (outcome, session) := session.run fuel source
  let written := session.machine.sink.written
  match outcome with
  | .finished => ⟨written, "", 0⟩
  | .failed errors => .failure written errors
  | .broken defect => .broken written "" defect.message
  | .outOfFuel => .broken written "" Report.cutOff

def ofConversation (state : Prompt.State) : Report :=
  let written := state.session.machine.sink.written
  let errors := Report.listed state.diagnostics
  match state.ending with
  | none | some .closed => ⟨written, errors, 0⟩
  | some (.failed e) => .trouble written errors "REPL I/O failed" [e.message]
  | some (.broken defect) => .broken written errors defect.message
  | some .outOfFuel => .broken written errors Report.cutOff

/-- Carries out a command on a new session, given what is in its file and in the
standard input. -/
def report (fuel : Nat) (session : Session) (contents : FileContents)
    (stdin : ByteArray) :
    Command → Report
  | .version => .success "lox 0.1.0\n"
  | .repl => ofConversation (Prompt.converse fuel session stdin)
  | .tokenize file json => onSource file (tokenizeSource json)
  | .parse file json => onSource file (parseSource json)
  | .run file => onSource file (runSource fuel session)
where
  onSource (file : String) (action : String → Report) : Report :=
    match source file contents with
    | .ok text => action text
    | .error report => report

end Command
end LoxLang
