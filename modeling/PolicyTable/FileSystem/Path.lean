import PolicyTable.Text.Utf8

/-!
# `PolicyTable.FileSystem.Path` — paths

A path is absolute or relative and has components. Reading one from a text drops empty components and
single dots and keeps double dots, since what those mean depends on links. Two leading slashes are
told apart from one.

## Contents
- `Anchor` and `Path`, read by `Path.ofText` and written by `Path.text`.
- `Path.join` puts a path below another one, `Path.child` a name; `Path.name` and
  `Path.withName?` look at the last component and replace it.
-/

namespace PolicyTable.FileSystem

/-- The name of an entry of a directory. -/
abbrev Name := Text

/-- Where a path starts. -/
inductive Anchor
  | relative
  | root
  | doubleRoot
  deriving DecidableEq, Repr

/-- The leading slashes of a path. -/
def Anchor.text : Anchor → Text
  | .relative => []
  | .root => ['/']
  | .doubleRoot => ['/', '/']

/-- The anchor that a text starts with: exactly two slashes are a double one. -/
def Anchor.ofText : Text → Anchor
  | '/' :: '/' :: '/' :: _ => .root
  | '/' :: '/' :: _ => .doubleRoot
  | '/' :: _ => .root
  | _ => .relative

/-- A path: its anchor and its components. -/
structure Path where
  anchor : Anchor := .relative
  parts : List Name
  deriving DecidableEq, Repr

/-- Does a piece between two slashes count as a component? -/
def isPart (piece : Text) : Bool := !piece.isEmpty && piece != ['.']

/-- The components of a text. -/
def partsOf (t : Text) : List Name := (Text.split '/' t).filter isPart

namespace Path

/-- The path that a text writes. -/
def ofText (t : Text) : Path := ⟨.ofText t, partsOf t⟩

/-- The text of a path; the relative path without components is a dot. -/
def text (p : Path) : Text :=
  match p.anchor, p.parts with
  | .relative, [] => ['.']
  | a, parts => a.text ++ List.intercalate ['/'] parts

/-- The second path below the first one, or the second path alone if it is absolute. -/
def join (p q : Path) : Path :=
  match q.anchor with
  | .relative => ⟨p.anchor, p.parts ++ q.parts⟩
  | _ => q

/-- An entry of the directory at a path. -/
def child (p : Path) (name : Name) : Path := ⟨p.anchor, p.parts ++ [name]⟩

/-- The last component, if there is one. -/
def name? (p : Path) : Option Name := p.parts.getLast?

/-- The path with its last component replaced, if it has one. -/
def withName? (p : Path) (name : Name) : Option Path :=
  if p.parts.isEmpty then none else some ⟨p.anchor, p.parts.dropLast ++ [name]⟩

@[simp] theorem name?_child (p : Path) (name : Name) : (p.child name).name? = some name := by
  simp [child, name?]

@[simp] theorem withName?_child (p : Path) (name other : Name) :
    (p.child name).withName? other = some (p.child other) := by
  simp [child, withName?]

end Path

end PolicyTable.FileSystem
