import PolicyTable.Policy.Failure
import PolicyTable.Policy.Selection

/-!
# `PolicyTable.Policy.Collection` — the policy files below a directory

The walk goes through a directory depth first, with the entries of each directory in the order of
their names. It collects the files whose names are selected, and the selected links that lead to
files. It does not go through links, nor into directories named `.git` below the root.

## Contents
- **Order.** `inNameOrder` puts what the entries give in the order of their names.
- **Walk.** `listed` is the listing of one directory; `collectEntry` and `collectEach` go through
  entries, `collect` starts from a root.
-/

namespace PolicyTable.Policy

open FileSystem

/-! ## Order -/

/-- What the entries of a directory give, put together in the order of their names. The first stop in
    that order counts. -/
def inNameOrder {α : Type} (given : List (Name × Except Stop (List α))) : Except Stop (List α) :=
  ((given.mergeSort fun a b => Text.inOrder a.1 b.1).mapM Prod.snd).map List.flatten

/-! ## Walk -/

/-- The name of the directories that the walk leaves out. -/
def skippedName : Name := ".git".toList

/-- Can the path of an entry not be looked at, because it is too long? -/
def isOverlong (path : Path) (name : Name) : Bool := path.isLong || isLongName name

/-- The listing of the directory at a path, whose entries give what is given. -/
def listed (w : World) (path : Path) (given : List (Name × Except Stop (List Path))) :
    Except Stop (List Path) :=
  if w.unlistable.contains path.text then
    .error (.failed (.collecting path (.refused { cause := .permissionDenied, path })))
  else inNameOrder given

mutual

/-- The policy files at and below an entry of the directory at a path. -/
def collectEntry (w : World) (s : Selection) (parent : Path) :
    Name × Node → Except Stop (List Path)
  | (name, .directory entries) =>
    let path := parent.child name
    if isOverlong path name then .error (.crashed (.refused { cause := .nameTooLong, path }))
    else if name = skippedName then .ok []
    else listed w path (collectEach w s path entries)
  | (name, .file _) =>
    let path := parent.child name
    if isOverlong path name then .error (.crashed (.refused { cause := .nameTooLong, path }))
    else .ok (if s.selects name then [path] else [])
  | (name, .link _) =>
    let path := parent.child name
    match w.probe .node path with
    | .error fault => .error (.crashed (.refused fault))
    | .ok (some (.file _)) => .ok (if s.selects name then [path] else [])
    | .ok _ => .ok []

/-- What each entry of the directory at a path gives. -/
def collectEach (w : World) (s : Selection) (path : Path) :
    List (Name × Node) → List (Name × Except Stop (List Path))
  | [] => []
  | entry :: r => (entry.1, collectEntry w s path entry) :: collectEach w s path r

end

/-- The selected files below a root, in the order of the walk. -/
def collect (w : World) (s : Selection) (root : Path) : Except Stop (List Path) :=
  match w.probe .node root with
  | .error fault => .error (.crashed (.refused fault))
  | .ok none => .error (.failed (.collecting root .missing))
  | .ok (some (.directory entries)) => listed w root (collectEach w s root entries)
  | .ok (some _) => .error (.failed (.collecting root .notDirectory))

end PolicyTable.Policy
