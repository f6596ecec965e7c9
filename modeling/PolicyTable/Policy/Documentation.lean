import PolicyTable.Annotations.Table
import PolicyTable.Policy.Collection
import PolicyTable.Policy.Reading
import PolicyTable.Policy.Tools
import PolicyTable.Policy.Writing

/-!
# `PolicyTable.Policy.Documentation` — the document of a directory

The records of all policy files of a directory, file after file, make its document. Nothing is written
unless every file is read, parsed and well annotated.

## Contents
- **Records.** `fileRecords` for one file, `collectRecords` for a directory.
- **Document.** `Options`, `renderDocument` and `document`, with the `Summary` of a run.
-/

namespace PolicyTable.Policy

open FileSystem
open Rego (Grammar)
open Annotations (Record)

/-! ## Records -/

/-- The records of a source that was read from a file. -/
def sourceRecords (grammar : Grammar) (file : Path) (source : Text) :
    Except Stop (List Record) :=
  match Rego.extract grammar source with
  | .error numeral => .error (.crashed (.longNumeral numeral))
  | .ok found =>
    if found.diagnostics.isEmpty then
      match Annotations.recordsOf found.comments with
      | .ok records => .ok records
      | .error bad => .error (.failed (.annotating file bad))
    else .error (.failed (.parsing file found.diagnostics))

/-- The records of a policy file. -/
def fileRecords (w : World) (grammar : Grammar) (file : Path) : Except Stop (List Record) := do
  sourceRecords grammar file (← readPolicy w file)

/-- What is found in a directory: the records of its policy files, and the number of those. -/
structure Findings where
  records : List Record
  fileCount : Nat
  deriving DecidableEq, Repr

/-- The records of all policy files of a directory. -/
def collectRecords (w : World) (tools : Tools) (root : Path) : Except Stop Findings := do
  let files ← collect w tools.policyFiles root
  let records ← files.mapM (fileRecords w tools.grammar)
  return ⟨records.flatten, files.length⟩

/-! ## Document -/

/-- What a run is asked for: the directory, and the name of the document in it. -/
structure Options where
  root : Path
  output : Text := "policies.md".toList
  deriving DecidableEq, Repr

/-- The path of the document. -/
def Options.outputPath (o : Options) : Path := o.root.join (.ofText o.output)

/-- The text of the document of a directory. -/
def renderDocument (w : World) (tools : Tools) (root : Path) : Except Stop Text :=
  (collectRecords w tools root).map fun found => Annotations.document found.records

/-- The result of a run: where the document is, and the numbers of files and records. -/
structure Summary where
  outputPath : Path
  fileCount : Nat
  recordCount : Nat
  deriving DecidableEq, Repr

/-- The world after the document of a directory has been written, and the result. -/
def document (w : World) (tools : Tools) (o : Options) : World × Except Stop Summary :=
  match collectRecords w tools o.root with
  | .error stop => (w, .error stop)
  | .ok found =>
    let (w', written) := writeDocument w o.outputPath (Annotations.document found.records)
    (w', written.map fun _ => ⟨o.outputPath, found.fileCount, found.records.length⟩)

end PolicyTable.Policy
