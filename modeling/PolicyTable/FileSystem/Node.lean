import PolicyTable.FileSystem.Path

/-!
# `PolicyTable.FileSystem.Node` — files, links and directories

A file system is a tree of nodes. The entries of a directory stand in the order in which the system
lists them, which may be any order. A `Location` is a list of names from the top of the tree; it goes
through directories only and follows no link.

## Contents
- **Nodes.** `Node` and `Entries`.
- **Entries.** `Entries.get?`, `Entries.put` and `Entries.remove`, by name.
- **Locations.** `Node.at?`, `Node.put` and `Node.remove`, by location.
- **All nodes.** `Node.descendants` lists the nodes below a node, `Node.linkCount` counts its links.
-/

namespace PolicyTable.FileSystem

/-! ## Nodes -/

/-- A node: a file with its bytes, a symbolic link with its target text, or a directory with its
    entries. -/
inductive Node where
  | file (bytes : List UInt8)
  | link (target : Text)
  | directory (entries : List (Name × Node))

/-- The entries of a directory. -/
abbrev Entries := List (Name × Node)

/-- Names from the top of a tree down to a node. -/
abbrev Location := List Name

/-- Is the node a directory? -/
def Node.isDirectory : Node → Bool
  | .directory _ => true
  | _ => false

/-! ## Entries -/

namespace Entries

/-- The node of an entry. -/
def get? : Entries → Name → Option Node
  | [], _ => none
  | (m, node) :: r, name => if m = name then some node else get? r name

/-- The entries with the node under the name, in the place of the entry of that name if there is
    one, and at the end otherwise. -/
def put : Entries → Name → Node → Entries
  | [], name, new => [(name, new)]
  | (m, node) :: r, name, new => if m = name then (name, new) :: r else (m, node) :: put r name new

/-- The entries without the one of that name. -/
def remove : Entries → Name → Entries
  | [], _ => []
  | (m, node) :: r, name => if m = name then r else (m, node) :: remove r name

@[simp] theorem get?_put_self (entries : Entries) (name : Name) (new : Node) :
    get? (put entries name new) name = some new := by
  induction entries with
  | nil => simp [put, get?]
  | cons e r ih => by_cases h : e.1 = name <;> simp [put, get?, h, ih]

theorem get?_put_of_ne {entries : Entries} {name other : Name} {new : Node} (h : other ≠ name) :
    get? (put entries name new) other = get? entries other := by
  induction entries with
  | nil => simp [put, get?, Ne.symm h]
  | cons e r ih =>
    by_cases he : e.1 = name
    · subst he
      simp [put, get?, Ne.symm h]
    · by_cases ho : e.1 = other <;> simp [put, get?, he, ho, ih, h]

theorem get?_remove_of_ne {entries : Entries} {name other : Name} (h : other ≠ name) :
    get? (remove entries name) other = get? entries other := by
  induction entries with
  | nil => simp [remove, get?]
  | cons e r ih =>
    by_cases he : e.1 = name
    · subst he
      simp [remove, get?, Ne.symm h]
    · by_cases ho : e.1 = other <;> simp [remove, get?, he, ho, ih, h]

end Entries

/-! ## Locations -/

namespace Node

/-- The node at a location below a node. -/
def at? : Node → Location → Option Node
  | node, [] => some node
  | .directory entries, name :: r => (Entries.get? entries name).bind (·.at? r)
  | _, _ :: _ => none

/-- Going down twice is going down the joined location. -/
theorem at?_append (node : Node) (l m : Location) :
    node.at? (l ++ m) = (node.at? l).bind (·.at? m) := by
  induction l generalizing node with
  | nil => simp [at?]
  | cons name r ih =>
    cases node with
    | file bytes => rfl
    | link target => rfl
    | directory entries =>
      simp only [List.cons_append, at?, Option.bind_assoc]
      cases Entries.get? entries name with
      | none => rfl
      | some child => exact ih child

/-- The tree with a node put at a location. Nothing changes if the directory above it is missing. -/
def put : Node → Location → (new : Node) → Node
  | _, [], new => new
  | .directory entries, name :: r, new =>
    match r, Entries.get? entries name with
    | [], _ => .directory (Entries.put entries name new)
    | _ :: _, some child => .directory (Entries.put entries name (put child r new))
    | _ :: _, none => .directory entries
  | node, _ :: _, _ => node

/-- The tree without the entry at a location. -/
def remove : Node → Location → Node
  | .directory entries, name :: r =>
    match r, Entries.get? entries name with
    | [], _ => .directory (Entries.remove entries name)
    | _ :: _, some child => .directory (Entries.put entries name (remove child r))
    | _ :: _, none => .directory entries
  | node, _ => node

/-! ## All nodes -/

mutual

/-- The nodes below a node, each with its location from there. -/
def descendants : Node → List (Location × Node)
  | .directory entries => descendantsOf entries
  | _ => []

/-- The nodes at and below some entries. -/
def descendantsOf : List (Name × Node) → List (Location × Node)
  | [] => []
  | (name, node) :: r =>
    ([name], node) :: (descendants node).map (fun (location, n) => (name :: location, n)) ++ descendantsOf r

end

/-- Is the node a link? -/
def isLink : Node → Bool
  | .link _ => true
  | _ => false

/-- The number of links below a node. -/
def linkCount (node : Node) : Nat := (node.descendants.filter (·.2.isLink)).length

end Node

end PolicyTable.FileSystem
