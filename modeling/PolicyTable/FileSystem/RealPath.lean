import PolicyTable.FileSystem.World

/-!
# `PolicyTable.FileSystem.RealPath` — the path without links

`World.settled` takes every link out of a path, also where parts of the path are missing. The search goes from path
to path and tells paths apart by their texts. A double dot takes the last name of the path away again, whether there
is a directory of that name or not; a relative path without a name to take away goes up by double dots. A link is
seen only if its path is not too long to be looked at.

A link that is met again while it is expanded ends the search: the text that is left is then taken as it is, and
starts anew at the top if it begins with a slash. It is met again only by the same path, and a path that gets
longer each time is never the same, so there is a limit on links that are expanded one inside the other.

## Contents
- **Paths.** `Path.above` and `Path.behind` go on from a path by its text; `World.locationOf` is where it leads.
- **Search.** `Settled`, how it ends. `settlePieces` goes through the pieces of a text with a way to expand links,
  `settle` ties the knot.
- **Result.** `World.realPath` gives the path, or says why there is none.
-/

namespace PolicyTable.FileSystem

/-! ## Paths -/

/-- The location that names lead to from another one if no name is a link. -/
def lexical (location : Location) (names : List Name) : Location :=
  names.foldl (fun l name => if name = parentName then l.dropLast else l ++ [name]) location

/-- The location that a path leads to if none of its names is a link. -/
def World.locationOf (w : World) (p : Path) : Location := lexical (p.anchor.location w.here) p.parts

/-- The path where a path or a target starts: at the top if it is absolute, and otherwise at the given path. -/
def Anchor.start (a : Anchor) (p : Path) : Path :=
  match a with
  | .relative => p
  | _ => ⟨.root, []⟩

/-- The path one level up, as far as its text tells. -/
def Path.above (p : Path) : Path :=
  match p.anchor with
  | .relative =>
    if p.parts.getLast?.all (· = parentName) then p.child parentName else ⟨.relative, p.parts.dropLast⟩
  | anchor => ⟨anchor, p.parts.dropLast⟩

/-- The path that a text behind a path gives if no name in it is a link. A text that begins with a slash gives one
    from the top. -/
def Path.behind (p : Path) (rest : Text) : Path :=
  let start : Path :=
    match Anchor.ofText rest with
    | .relative => p
    | anchor => ⟨anchor, []⟩
  (partsOf rest).foldl (fun q name => if name = parentName then q.above else q.child name) start

/-! ## Search -/

/-- The end of a search: a path without links, a path at which the search met a link again, or none, because
    too many links were expanded one inside the other. -/
inductive Settled
  | real (path : Path)
  | circular (path : Path)
  | endless
  deriving DecidableEq, Repr

/-- The number of links that can be expanded one inside the other: about as many calls as fit on the stack. -/
def expansionLimit : Nat := 960

/-- The target of the link at a path, if a link is seen there. -/
def World.linkAt? (w : World) (sees : Path → Bool) (p : Path) : Option Text :=
  if sees p then
    match w.top.at? (w.locationOf p) with
    | some (.link target) => some target
    | _ => none
  else none

/-- Go through the pieces of a text from a path. A link is expanded unless it is one of those on the way. -/
def settlePieces (w : World) (sees : Path → Bool) (expand : Path → Path → Text → Settled)
    (onTheWay : List Path) : Path → List Text → Settled
  | path, [] => .real path
  | path, piece :: rest =>
    if !isPart piece then settlePieces w sees expand onTheWay path rest
    else if piece = parentName then settlePieces w sees expand onTheWay path.above rest
    else
      let entry := path.child piece
      match w.linkAt? sees entry with
      | none => settlePieces w sees expand onTheWay entry rest
      | some target =>
        let found := if onTheWay.contains entry then .circular entry else expand entry path target
        match found with
        | .real p => settlePieces w sees expand onTheWay p rest
        | .circular p => .circular (p.behind (List.intercalate ['/'] rest))
        | .endless => .endless

/-- The end of the search, where at most `depth` links are expanded one inside the other. -/
def settle (w : World) (sees : Path → Bool) : (depth : Nat) → List Path → Path → List Text → Settled
  | 0, onTheWay, path, pieces => settlePieces w sees (fun _ _ _ => .endless) onTheWay path pieces
  | depth + 1, onTheWay, path, pieces =>
    settlePieces w sees
      (fun link directory target =>
        settle w sees depth (link :: onTheWay) ((Anchor.ofText target).start directory)
          (Text.split '/' target))
      onTheWay path pieces

/-! ## Result -/

/-- Why there is no path without links: it runs in a circle, or the search does not end. -/
inductive Unresolved
  | circular (path : Path)
  | endless
  deriving DecidableEq, Repr

namespace World

/-- The end of the search for a path, where links are seen as told. -/
def settledSeeing (w : World) (sees : Path → Bool) (p : Path) : Settled :=
  settle w sees expansionLimit [] (p.anchor.start ⟨.relative, []⟩) p.parts

/-- The end of the search for a path. The path of a link may be too long for a look at it. -/
def settled (w : World) (p : Path) : Settled := w.settledSeeing (!·.isLong) p

/-- A path without links as an absolute one. -/
def absolute (w : World) (p : Path) : Path :=
  match p.anchor with
  | .relative => ⟨.root, w.locationOf p⟩
  | _ => p

/-- The path without links that a path stands for. The path that is found is looked at once more, since the
    system may still say that it runs in a circle. -/
def realPath (w : World) (p : Path) : Except Unresolved Path :=
  match w.settled p with
  | .endless => .error .endless
  | .real path | .circular path =>
    match w.locate .node (w.absolute path) with
    | .error .tooManyLinks => .error (.circular (w.absolute path))
    | _ => .ok (w.absolute path)

end World

end PolicyTable.FileSystem
