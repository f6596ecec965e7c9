import PolicyTable.FileSystem.RealPath
import PolicyTable.Policy.Failure

/-!
# `PolicyTable.Policy.Writing` — storing the document

The text goes to a temporary file next to the document first, which then takes the document's place.
If the document is a link, the file that the link leads to is replaced and the link stays. If the
temporary file cannot take the place, it is removed again. It is not removed if it could not be written in full.

## Contents
- `targetOf`, the path of the file to replace, and `temporaryOf`, the path of the temporary file.
- `writeText`, which gives the world after it, also where it stops; `writeDocument` for a text of characters.
-/

namespace PolicyTable.Policy

open FileSystem

/-- What is put behind the name of a document to name its temporary file. -/
def temporarySuffix : Text := ".tmp".toList

/-- The crash when a path without links is asked for and there is none. -/
def unresolvedCrash : Unresolved → Crash
  | .circular path => .circularLinks path
  | .endless => .endlessLinks

/-- The path of the file to replace: the path itself, or where it leads if it is a link. -/
def targetOf (w : World) (output : Path) : Except Stop Path :=
  match w.probe .entry output with
  | .error fault => .error (.crashed (.refused fault))
  | .ok (some (.link _)) =>
    match w.realPath output with
    | .ok path => .ok path
    | .error unresolved => .error (.crashed (unresolvedCrash unresolved))
  | .ok _ => .ok output

/-- The path of the temporary file for a document. -/
def temporaryOf (target : Path) : Except Stop Path :=
  match target.withName? (target.name?.getD [] ++ temporarySuffix) with
  | some path => .ok path
  | none => .error (.crashed (.noName target))

/-- How a run stops that cannot write the temporary file for a target. Only what the system refuses is handled. -/
def writeStop (target : Path) : WriteFault → Stop
  | .unopened (.refused fault) => .failed (.writing target (.refused fault))
  | .unopened .nulInPath => .crashed .nulInPath
  | .unencodable gap => .crashed (.unencodable gap)
  | .brokenOff cause => .failed (.writing target (.brokenOff cause))

/-- The world after the temporary file has taken the place of the target, or after it has been
    removed because it could not. A refused removal is not handled. -/
def replaceDocument (w : World) (temporary target : Path) : World × Except Stop Unit :=
  match w.replace temporary target with
  | .ok w' => (w', .ok ())
  | .error fault =>
    match w.discard temporary with
    | .ok w' => (w', .error (.failed (.writing target (.refused fault))))
    | .error { cause := .notFound, .. } => (w, .error (.failed (.writing target (.refused fault))))
    | .error fault' => (w, .error (.crashed (.refused fault')))

/-- The world after a text has been written as the document at a path, and whether that succeeded. -/
def writeText (w : World) (output : Path) (text : Text.CodePoints) : World × Except Stop Unit :=
  match targetOf w output with
  | .error stop => (w, .error stop)
  | .ok target =>
    match temporaryOf target with
    | .error stop => (w, .error stop)
    | .ok temporary =>
      match w.write temporary text with
      | (w', .error fault) => (w', .error (writeStop target fault))
      | (w', .ok ()) => replaceDocument w' temporary target

/-- The world after a text of characters has been written as the document at a path. -/
def writeDocument (w : World) (output : Path) (text : Text) : World × Except Stop Unit :=
  writeText w output (.ofText text)

end PolicyTable.Policy
