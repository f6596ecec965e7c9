import PolicyTable.Annotations.Record
import PolicyTable.FileSystem.Access
import PolicyTable.Rego.ErrorText

/-!
# `PolicyTable.Policy.Failure` — how a run can end early

A run ends early in one of two ways. A `Failure` is foreseen: it belongs to a stage of the run and is
reported with the path that the stage was about. A `Crash` is not: nothing in the run handles it.

## Contents
- **Stages.** `Stage`, with the words that its reports start with.
- **Failures.** `Failure`, `Failure.path` and `Failure.message`.
- **Crashes.** `Crash` and `Crash.message`; `Stop` is either of the two.
-/

namespace PolicyTable.Policy

open FileSystem (Path Fault Cause)
open Rego (Diagnostic LongNumeral)
open Annotations (BadPair)

/-! ## Stages -/

/-- The stages of a run that fail with the path of a file or directory. -/
inductive Stage
  | collecting
  | reading
  | parsing
  | writing
  deriving DecidableEq, Repr

/-- The words before the path in a report. -/
def Stage.words : Stage → Text
  | .collecting => "Failed to collect policy files under ".toList
  | .reading => "Failed to read policy file ".toList
  | .parsing => "Failed to parse ".toList
  | .writing => "Failed to write documentation ".toList

/-- The report of a stage about a path. -/
def Stage.report (s : Stage) (path : Path) (reason : Text) : Text :=
  s.words ++ path.text ++ ':' :: ' ' :: reason

/-- Several diagnostics as a reason: one of them on the same line, more of them below their
    number. -/
def diagnosticsText (ds : List Diagnostic) : Text :=
  match ds with
  | [d] => "1 error occurred: ".toList ++ d.text
  | _ =>
    List.intercalate ['\n']
      ((Text.ofNat ds.length ++ " errors occurred:".toList) :: ds.map (·.text))

/-! ## Failures -/

/-- Why policy files cannot be collected. -/
inductive CollectReason
  | missing
  | notDirectory
  | refused (fault : Fault)
  deriving DecidableEq, Repr

/-- The words for a reason. -/
def CollectReason.message : CollectReason → Text
  | .missing => "path does not exist".toList
  | .notDirectory => "path is not a directory".toList
  | .refused fault => fault.message

/-- Why a policy file cannot be read. -/
inductive ReadReason
  | refused (fault : Fault)
  | undecodable (fault : Text.Utf8.Fault)
  deriving DecidableEq, Repr

/-- The words for a reason. -/
def ReadReason.message : ReadReason → Text
  | .refused fault => fault.message
  | .undecodable fault => fault.message

/-- Why the document cannot be written. -/
inductive WriteReason
  | refused (fault : Fault)
  | brokenOff (cause : Cause)
  deriving DecidableEq, Repr

/-- The words for a reason. -/
def WriteReason.message : WriteReason → Text
  | .refused fault => fault.message
  | .brokenOff cause => cause.message

/-- A foreseen end of a run. -/
inductive Failure
  | collecting (root : Path) (reason : CollectReason)
  | reading (file : Path) (reason : ReadReason)
  | parsing (file : Path) (diagnostics : List Diagnostic)
  | annotating (file : Path) (bad : BadPair)
  | writing (file : Path) (reason : WriteReason)
  deriving DecidableEq, Repr

/-- The message of a failure. -/
def Failure.message : Failure → Text
  | .collecting root reason => Stage.collecting.report root reason.message
  | .reading file reason => Stage.reading.report file reason.message
  | .parsing file ds => Stage.parsing.report file (diagnosticsText ds)
  | .annotating file bad => file.text ++ ':' :: ' ' :: bad.message
  | .writing file reason => Stage.writing.report file reason.message

/-! ## Crashes -/

/-- An end of a run that nothing in it handles: an operation refused where no refusal is expected, a
    NUL in the path of a file to open, characters without bytes in such a path or in a text to write, a path
    without a last name to replace, a numeral that is too long, a circle of links, or links that go on without
    end. -/
inductive Crash
  | refused (fault : Fault)
  | nulInPath
  | unencodable (gap : Text.Gap)
  | noName (path : Path)
  | longNumeral (numeral : LongNumeral)
  | circularLinks (path : Path)
  | endlessLinks
  deriving DecidableEq, Repr

/-- The message of a crash. -/
def Crash.message : Crash → Text
  | .refused fault => fault.message
  | .nulInPath => "embedded null byte".toList
  | .unencodable gap => gap.message
  | .noName path => "PosixPath(".toList ++ Text.quoted path.text ++ ") has an empty name".toList
  | .longNumeral numeral => numeral.message
  | .circularLinks path => "Symlink loop from ".toList ++ Text.quoted path.text
  | .endlessLinks => "maximum recursion depth exceeded".toList

/-- An early end of a run. -/
inductive Stop
  | failed (failure : Failure)
  | crashed (crash : Crash)
  deriving DecidableEq, Repr

end PolicyTable.Policy
