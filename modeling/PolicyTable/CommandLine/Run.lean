import PolicyTable.CommandLine.Arguments
import PolicyTable.CommandLine.Summary

/-!
# `PolicyTable.CommandLine.Run` — one run of the program

A run reads its arguments, documents the directory and says how it went. Usage, help and problems with
the arguments go to the streams of the process; the summary and the message of a failure go to streams
of the caller, which may be the same ones.

## Contents
- **Options.** `optionsOf` refuses a blank name for the document.
- **Outcome.** `Streams`, `LogEntry` and `Outcome`.
- **Run.** `run` with streams of the caller, `runOnProcess` with those of the process.
-/

namespace PolicyTable.CommandLine

open FileSystem (World Path)
open Policy (Options Summary Stop Crash Tools)

/-! ## Options -/

/-- The name of the document is blank. -/
structure BlankOutput where
  deriving DecidableEq, Repr

/-- The message about a blank name. -/
def BlankOutput.message (_ : BlankOutput) : Text :=
  "Output file name must not be empty".toList

/-- What a run is asked for by the texts of the command line. -/
def optionsOf (directory output : Text) : Except BlankOutput Options :=
  if (Text.trim output).isEmpty then .error {} else .ok ⟨.ofText directory, output⟩

/-! ## Outcome -/

/-- An output stream and an error stream, with what was written to them. -/
structure Streams where
  output : Text := []
  errors : Text := []
  deriving DecidableEq, Repr

/-- The weight of a log entry. -/
inductive Level
  | info
  | warning
  deriving DecidableEq, Repr

/-- The part of the program that a log entry comes from. -/
inductive Origin
  | documentation
  | commandLine
  deriving DecidableEq, Repr

/-- An entry of the log. -/
structure LogEntry where
  level : Level
  origin : Origin
  message : Text
  deriving DecidableEq, Repr

/-- What a run leaves behind: the world, what was written to the streams of the caller and of the
    process, the log, and the exit code or the crash that ended the run without one. -/
structure Outcome where
  world : World
  caller : Streams := {}
  process : Streams := {}
  log : List LogEntry := []
  exit : Except Crash Nat

/-- The exit code of a successful run. -/
def exitDone : Nat := 0

/-- The exit code of a run that was refused or failed, and of one that only showed help. -/
def exitRefused : Nat := 2

/-- The log entry of a successful run. -/
def doneEntry (s : Summary) : LogEntry :=
  { level := .info
    origin := .documentation
    message :=
      "Documentation written (path=".toList ++ s.outputPath.text ++ " files=".toList ++
        Text.ofNat s.fileCount ++ " records=".toList ++ Text.ofNat s.recordCount ++ [')'] }

/-- The log entry of a run that was refused or failed. -/
def refusedEntry (what detail : Text) : LogEntry :=
  { level := .warning, origin := .commandLine, message := what ++ " (".toList ++ detail ++ [')'] }

/-! ## Run -/

/-- The outcome where the arguments are refused or ask for help. -/
def refusedArguments (w : World) (arguments : List Text) (refusal : Refusal) : Outcome :=
  let streams : Streams :=
    match refusal with
    | .help page => { output := page.help }
    | .problem page problem =>
      { errors := page.usage ++ page.call ++ ": error: ".toList ++ problem.message ++ ['\n'] }
  { world := w
    process := streams
    log := [refusedEntry "Argument parsing failed".toList
      ("argv=".toList ++ Text.quotedList arguments)]
    exit := .ok exitRefused }

/-- The outcome where a message says why the run was refused or failed. -/
def refusedRun (w : World) (what message : Text) : Outcome :=
  { world := w
    caller := { errors := message ++ ['\n'] }
    log := [refusedEntry what ("error=".toList ++ message)]
    exit := .ok exitRefused }

/-- The outcome of documenting a directory. -/
def runDoc (w : World) (tools : Tools) (r : Request) : Outcome :=
  match optionsOf r.directory r.output with
  | .error blank => refusedRun w "Validation failed".toList blank.message
  | .ok options =>
    match Policy.document w tools options with
    | (w', .ok summary) =>
      { world := w'
        caller := { output := tools.print (summaryText summary) }
        log := [doneEntry summary]
        exit := .ok exitDone }
    | (w', .error (.failed failure)) =>
      refusedRun w' "Documentation generation failed".toList failure.message
    | (w', .error (.crashed crash)) => { world := w', exit := .error crash }

/-- The outcome of a run with the given arguments. -/
def run (w : World) (tools : Tools) (arguments : List Text) : Outcome :=
  match parse arguments with
  | .error refusal => refusedArguments w arguments refusal
  | .ok request => runDoc w tools request

/-- The outcome of a run whose caller is the process itself. -/
def runOnProcess (w : World) (tools : Tools) (arguments : List Text) : Outcome :=
  let o := run w tools arguments
  { o with
    caller := {}
    process := ⟨o.process.output ++ o.caller.output, o.process.errors ++ o.caller.errors⟩ }

end PolicyTable.CommandLine
