import PolicyTable.FileSystem.World
import PolicyTable.Text.CodePoint

/-!
# `PolicyTable.FileSystem.Access` — reading and changing files

## Contents
- **Files.** `World.read` gives the bytes of a file, `World.store` replaces or makes one. Both follow
  links and refuse a path with NUL in it.
- **Entries.** `World.rename` moves an entry, `World.unlink` takes one away. Both act on a link itself.
- **Permission.** What the tree admits may be refused all the same, or break off halfway: `World.write` opens a file
  and writes a text to it, `World.replace` is a renaming and `World.discard` takes an entry away.
- **Building.** `World.makeDirectory` and `World.makeLink`.
- **Listing.** `World.listing` lists all nodes below the current directory.
-/

namespace PolicyTable.FileSystem

/-- Why a file cannot be opened. -/
inductive AccessFault
  | nulInPath
  | refused (fault : Fault)
  deriving DecidableEq, Repr

/-- Why a text has not been written to a file, or not all of it. -/
inductive WriteFault
  | unopened (fault : AccessFault)
  | unencodable (gap : Text.Gap)
  | brokenOff (cause : Cause)
  deriving DecidableEq, Repr

namespace World

/-! ## Files -/

/-- The bytes of the file at a path. -/
def read (w : World) (p : Path) : Except AccessFault (List UInt8) :=
  if p.hasNul then .error .nulInPath
  else
    match w.locate .node p with
    | .ok (_, some (.file bytes)) => .ok bytes
    | .ok (_, some _) => .error (.refused { cause := .isDirectory, path := p })
    | .ok (_, none) => .error (.refused { cause := .notFound, path := p })
    | .error cause => .error (.refused { cause, path := p })

/-- The world with the bytes in the file at a path, which is made if there is none. -/
def store (w : World) (p : Path) (bytes : List UInt8) : Except AccessFault World :=
  if p.hasNul then .error .nulInPath
  else
    match w.locate .file p with
    | .ok (_, some (.directory _)) => .error (.refused { cause := .isDirectory, path := p })
    | .ok (location, _) => .ok { w with top := w.top.put location (.file bytes) }
    | .error cause => .error (.refused { cause, path := p })

/-! ## Entries -/

/-- The world with the entry at one path moved to another one, in the place of a file or a link
    there. -/
def rename (w : World) (source target : Path) : Except Fault World :=
  let refuse (cause : Cause) : Except Fault World :=
    .error { cause, path := source, target? := some target }
  match w.locate .entry source with
  | .error cause => refuse cause
  | .ok (_, none) => refuse .notFound
  | .ok (old, some node) =>
    if target.name?.all (· = parentName) then refuse .busy
    else
      match w.locate .entry target with
      | .error cause => refuse cause
      | .ok (_, some (.directory _)) => refuse .isDirectory
      | .ok (new, _) =>
        if new = old then .ok w else .ok { w with top := (w.top.remove old).put new node }

/-- The world without the file or link at a path. -/
def unlink (w : World) (p : Path) : Except Fault World :=
  match w.locate .entry p with
  | .error cause => .error { cause, path := p }
  | .ok (_, none) => .error { cause := .notFound, path := p }
  | .ok (_, some (.directory _)) => .error { cause := .isDirectory, path := p }
  | .ok (location, some _) => .ok { w with top := w.top.remove location }

/-! ## Permission -/

/-- What an opened file holds when a text has been written to it, and whether that is all of the text. A text
    without bytes leaves the file empty. -/
def content (w : World) (p : Path) (text : Text.CodePoints) : List UInt8 × Except WriteFault Unit :=
  match text.encode with
  | .error gap => ([], .error (.unencodable gap))
  | .ok bytes =>
    match w.breaksOff p bytes with
    | some (count, cause) => (bytes.take count, .error (.brokenOff cause))
    | none => (bytes, .ok ())

/-- The world after a text has been written to the file at a path. The file is opened first, which makes it or
    empties it; it stays as far as it has been written if the rest cannot be. -/
def write (w : World) (p : Path) (text : Text.CodePoints) : World × Except WriteFault Unit :=
  match Text.Gap.find? w.lacks Char.toNat p.text with
  | some gap => (w, .error (.unencodable gap))
  | none =>
    if p.hasNul then (w, .error (.unopened .nulInPath))
    else
      match w.refuses (.opening p) with
      | some cause => (w, .error (.unopened (.refused { cause, path := p })))
      | none =>
        match w.store p (w.content p text).1 with
        | .error fault => (w, .error (.unopened fault))
        | .ok w' => (w', (w.content p text).2)

/-- The world after an entry has been moved to another path, if that is not refused. -/
def replace (w : World) (source target : Path) : Except Fault World :=
  match w.refuses (.renaming source target) with
  | some cause => .error { cause, path := source, target? := some target }
  | none => w.rename source target

/-- The world after an entry has been taken away, if that is not refused. -/
def discard (w : World) (p : Path) : Except Fault World :=
  match w.refuses (.unlinking p) with
  | some cause => .error { cause, path := p }
  | none => w.unlink p

/-! ## Building -/

/-- The world with a directory at a path, unless there is one already. -/
def makeDirectory (w : World) (p : Path) : Except Fault World :=
  match w.locate .node p with
  | .error cause => .error { cause, path := p }
  | .ok (_, some (.directory _)) => .ok w
  | .ok (_, some _) => .error { cause := .alreadyExists, path := p }
  | .ok (location, none) => .ok { w with top := w.top.put location (.directory []) }

/-- The world with a directory at a path and at every path above it. -/
def makeDirectories (w : World) (p : Path) : Except Fault World :=
  (List.range (p.parts.length + 1)).foldlM (fun w n => w.makeDirectory ⟨p.anchor, p.parts.take n⟩) w

/-- The world with a link at a path where there is nothing. -/
def makeLink (w : World) (target : Text) (p : Path) : Except Fault World :=
  match w.locate .entry p with
  | .error cause => .error { cause, path := p }
  | .ok (_, some _) =>
    .error { cause := .alreadyExists, path := .ofText target, target? := some p }
  | .ok (location, none) => .ok { w with top := w.top.put location (.link target) }

/-! ## Listing -/

/-- The nodes below the current directory with their paths from there, in the order of the texts of
    the paths. -/
def listing (w : World) : List (Text × Node) :=
  let nodes := ((w.top.at? w.here).map (·.descendants)).getD []
  (nodes.map fun (location, node) => (List.intercalate ['/'] location, node)).mergeSort
    fun a b => Text.inOrder a.1 b.1

end World

end PolicyTable.FileSystem
