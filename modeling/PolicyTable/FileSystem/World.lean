import PolicyTable.FileSystem.Fault
import PolicyTable.FileSystem.Node

/-!
# `PolicyTable.FileSystem.World` — finding nodes by path

A `World` is a tree, the current directory in it, and what the system does not let a process do there. A path
leads from the top or from the current directory through names, double dots and links to a location,
where there is a node or where one could be made.

## Contents
- **Limits.** On the bytes of a name and of a path, and on the links on the way.
- **Names.** The names with a meaning of their own; `isOrdinary` is said of all others.
- **Changes.** `Change`, and `World` with the changes that are refused in it.
- **Descent.** `Aim` is what is looked for; `descend` goes on until it meets a link that it has to follow.
- **Resolution.** `resolve` follows links, `World.locate` starts it from a path.
- **Looking.** `World.probe` tells what is at a path; most failures mean that nothing is there.
-/

namespace PolicyTable.FileSystem

/-! ## Limits -/

/-- The number of links that may be followed on one way. -/
def linkLimit : Nat := 40

/-- Is the name longer than 255 bytes? -/
def isLongName (name : Name) : Bool := decide (255 < (Text.Utf8.encode name).length)

/-- Is the text of the path longer than 4095 bytes? -/
def Path.isLong (p : Path) : Bool := decide (4095 < (Text.Utf8.encode p.text).length)

/-- Is there a NUL character in the path? -/
def Path.hasNul (p : Path) : Bool := p.text.contains '\x00'

/-! ## Names -/

/-- The name of the directory above. -/
def parentName : Name := ['.', '.']

/-- The name of the directory itself. -/
def selfName : Name := ['.']

/-- The empty name behind the last slash of a target, which stands for the directory itself as well. -/
def emptyName : Name := []

/-- Is the name looked up among the entries of a directory? The names of a directory itself and of the one
    above it are not, nor is a name that is too long. -/
def isOrdinary (name : Name) : Bool :=
  name != parentName && name != selfName && name != emptyName && !isLongName name

/-! ## Changes -/

/-- A change that a process asks for: to open a file for writing, to move an entry, to take one away. -/
inductive Change
  | opening (path : Path)
  | renaming (source target : Path)
  | unlinking (path : Path)
  deriving DecidableEq, Repr

/-- A file system as one process sees it: the tree, the way from the top of it to the current directory,
    and the directories that cannot be listed. The names on that way are those of entries.

    The tree does not tell what a process may change, nor how much room there is. `refuses` gives the changes that
    are refused whatever the tree is, and `breaksOff` the number of bytes after which writing them to a file breaks
    off. `lacks` is said of the characters that the encoding of names has no bytes for; no entry has them in its
    name. -/
structure World where
  top : Node
  here : Location
  unlistable : List Text := []
  refuses : Change → Option Cause := fun _ => none
  breaksOff : Path → List UInt8 → Option (Nat × Cause) := fun _ _ => none
  lacks : Char → Bool := fun _ => false
  here_ordinary : here.all isOrdinary = true := by first | exact List.all_nil | decide

/-! ## Descent -/

/-- The components of the target of a link. A target that ends in a slash or a dot has to be a
    directory, which the name of the directory itself or the empty name at its end says. -/
def targetParts (target : Text) : List Name :=
  let pieces := Text.split '/' target
  let behind := pieces.reverse.takeWhile (!isPart ·)
  pieces.filter isPart ++
    (if behind.isEmpty then [] else if behind.contains selfName then [selfName] else [emptyName])

/-- What is looked for at the end of a way: the node there, over links; the entry of the last name, also
    if it is a link; or a file to write, over links, which may be missing. -/
inductive Aim
  | node
  | entry
  | file
  deriving DecidableEq, Repr

/-- Where a target or a path starts: at the top if it is absolute, and otherwise where it stands. -/
def Anchor.location (a : Anchor) (here : Location) : Location :=
  match a with
  | .relative => here
  | _ => []

/-- How a descent ends: at a location, with the node that is there if there is one; at a link in a
    directory, with its target and the names after it; or with a refusal. -/
inductive Landing
  | reached (location : Location) (node? : Option Node)
  | atLink (directory : Location) (target : Text) (rest : List Name)
  | refused (cause : Cause)

/-- Go down from a directory through names. The last name may be missing. With a slash behind it, it
    cannot be the name of a file to write, whatever it leads to. -/
def descend (top : Node) (aim : Aim) : Location → List Name → Landing
  | location, [] => .reached location (top.at? location)
  | location, name :: rest =>
    if name = parentName then descend top aim location.dropLast rest
    else if name = selfName || name = emptyName then descend top aim location rest
    else if aim = .file && rest = [emptyName] then .refused .isDirectory
    else if isLongName name then .refused .nameTooLong
    else
      match top.at? (location ++ [name]) with
      | some (.directory _) => descend top aim (location ++ [name]) rest
      | some (.link target) =>
        if rest.isEmpty && aim = .entry then .reached (location ++ [name]) (some (.link target))
        else .atLink location target rest
      | some (.file bytes) =>
        if rest.isEmpty then .reached (location ++ [name]) (some (.file bytes))
        else .refused .notDirectory
      | none =>
        if rest.isEmpty then .reached (location ++ [name]) none else .refused .notFound

/-! ## Resolution -/

/-- A location, with the node that is there if there is one. -/
abbrev Place := Location × Option Node

/-- The place that a landing gives, where links go on as told. -/
def Landing.place (follow : Location → Text → List Name → Except Cause Place) :
    Landing → Except Cause Place
  | .reached location node? => .ok (location, node?)
  | .atLink directory target rest => follow directory target rest
  | .refused cause => .error cause

/-- The place that names lead to from a directory, over at most `links` links. -/
def resolve (top : Node) (aim : Aim) : (links : Nat) → Location → List Name → Except Cause Place
  | 0, location, names =>
    (descend top aim location names).place fun _ _ _ => .error .tooManyLinks
  | links + 1, location, names =>
    (descend top aim location names).place fun directory target rest =>
      resolve top aim links ((Anchor.ofText target).location directory) (targetParts target ++ rest)

namespace World

/-- The place that a path leads to. -/
def locate (w : World) (aim : Aim) (p : Path) : Except Cause Place :=
  if p.isLong then .error .nameTooLong
  else resolve w.top aim linkLimit (p.anchor.location w.here) p.parts

/-! ## Looking -/

/-- Does the cause mean that there is nothing at the path? -/
def meansNothing : Cause → Bool
  | .notFound | .notDirectory | .tooManyLinks => true
  | _ => false

/-- The node at a path, if there is one. A path with NUL in it leads to nothing. -/
def probe (w : World) (aim : Aim) (p : Path) : Except Fault (Option Node) :=
  if p.hasNul then .ok none
  else
    match w.locate aim p with
    | .ok (_, node?) => .ok node?
    | .error cause => if meansNothing cause then .ok none else .error { cause, path := p }

end World

end PolicyTable.FileSystem
