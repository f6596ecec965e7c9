import PolicyTable.Policy.Failure
import PolicyTable.Text.Newline

/-!
# `PolicyTable.Policy.Reading` — the text of a policy file

A policy file is strict UTF-8, and its line ends are brought into one form.
-/

namespace PolicyTable.Policy

open FileSystem

/-- The text of some bytes of a policy file. -/
def textOfBytes (bytes : List UInt8) : Except Text.Utf8.Fault Text :=
  (Text.Utf8.decode bytes).map Text.unifyNewlines

/-- The text of the policy file at a path. -/
def readPolicy (w : World) (file : Path) : Except Stop Text :=
  match w.read file with
  | .error .nulInPath => .error (.crashed .nulInPath)
  | .error (.refused fault) => .error (.failed (.reading file (.refused fault)))
  | .ok bytes =>
    match textOfBytes bytes with
    | .ok text => .ok text
    | .error fault => .error (.failed (.reading file (.undecodable fault)))

end PolicyTable.Policy
