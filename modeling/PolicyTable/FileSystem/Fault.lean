import PolicyTable.FileSystem.Path

/-!
# `PolicyTable.FileSystem.Fault` — why an operation on files fails

A `Cause` is what the operating system answers, with its number and its words. A `Fault` adds the path
of the operation, and for a renaming the second path.
-/

namespace PolicyTable.FileSystem

/-- What the operating system answers to an operation that it refuses or breaks off. -/
inductive Cause
  | notPermitted
  | notFound
  | inputOutput
  | permissionDenied
  | busy
  | alreadyExists
  | crossDevice
  | notDirectory
  | isDirectory
  | fileTooLarge
  | noSpace
  | readOnly
  | nameTooLong
  | tooManyLinks
  | overQuota
  deriving DecidableEq, Repr

/-- The number of a cause. -/
def Cause.number : Cause → Nat
  | .notPermitted => 1
  | .notFound => 2
  | .inputOutput => 5
  | .permissionDenied => 13
  | .busy => 16
  | .alreadyExists => 17
  | .crossDevice => 18
  | .notDirectory => 20
  | .isDirectory => 21
  | .fileTooLarge => 27
  | .noSpace => 28
  | .readOnly => 30
  | .nameTooLong => 36
  | .tooManyLinks => 40
  | .overQuota => 122

/-- The words for a cause. -/
def Cause.words : Cause → Text
  | .notPermitted => "Operation not permitted".toList
  | .notFound => "No such file or directory".toList
  | .inputOutput => "Input/output error".toList
  | .permissionDenied => "Permission denied".toList
  | .busy => "Device or resource busy".toList
  | .alreadyExists => "File exists".toList
  | .crossDevice => "Invalid cross-device link".toList
  | .notDirectory => "Not a directory".toList
  | .isDirectory => "Is a directory".toList
  | .fileTooLarge => "File too large".toList
  | .noSpace => "No space left on device".toList
  | .readOnly => "Read-only file system".toList
  | .nameTooLong => "File name too long".toList
  | .tooManyLinks => "Too many levels of symbolic links".toList
  | .overQuota => "Disk quota exceeded".toList

/-- The message of a cause alone. -/
def Cause.message (c : Cause) : Text :=
  "[Errno ".toList ++ Text.ofNat c.number ++ "] ".toList ++ c.words

/-- A refused operation: the cause and the path of the operation; a renaming has a second path. -/
structure Fault where
  cause : Cause
  path : Path
  target? : Option Path := none
  deriving DecidableEq, Repr

/-- The message of a fault. -/
def Fault.message (f : Fault) : Text :=
  f.cause.message ++ ": ".toList ++ Text.quoted f.path.text ++
    match f.target? with
    | none => []
    | some target => " -> ".toList ++ Text.quoted target.text

end PolicyTable.FileSystem
