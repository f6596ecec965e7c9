import PolicyTable.CommandLine.Run

/-!
# `PolicyTable.Main` — the program

The program sees the tree below the current directory. It is loaded before the run, and the files that
the run has changed are stored after it. A link is loaded as a link to where it leads in the end.

## Contents
- **Tree.** `Loaded` and `loadDirectory` read a directory, `storeChanges` writes changed files.
- **Program.** `main`, with the plainest tools.
-/

namespace PolicyTable

open FileSystem
open CommandLine (Outcome LogEntry)

/-! ## Tree -/

/-- The entries of a directory, and the paths at and below it that cannot be listed. -/
structure Loaded where
  entries : Entries := []
  unlistable : List Text := []

/-- The place on disk of an entry. -/
def entryPlace (place name : String) : String := place ++ "/" ++ name

/-- Read a directory from a place on disk; `path` is its path in the tree. -/
partial def loadDirectory (place : String) (path : Path) : IO Loaded := do
  let some found ← (do return some (← (← IO.FS.realPath place).readDir)).catchExceptions
      fun _ => pure none
    | return { unlistable := [path.text] }
  let mut loaded : Loaded := {}
  for entry in found do
    let name := entry.fileName.toList
    let inner := entryPlace place entry.fileName
    match (← entry.path.symlinkMetadata).type with
    | .dir =>
      let below ← loadDirectory inner (path.child name)
      loaded :=
        { entries := loaded.entries ++ [(name, .directory below.entries)]
          unlistable := loaded.unlistable ++ below.unlistable }
    | .symlink =>
      let target ← (do return (← IO.FS.realPath inner).toString).catchExceptions
        fun _ => pure entry.fileName
      loaded := { loaded with entries := loaded.entries ++ [(name, .link target.toList)] }
    | .file =>
      let bytes ← IO.FS.readBinFile inner
      loaded := { loaded with entries := loaded.entries ++ [(name, .file bytes.toList)] }
    | .other => pure ()
  return loaded

/-- Write the files that differ between two worlds, and take away those that are gone. -/
def storeChanges (old new : World) : IO Unit := do
  for (path, node) in new.listing do
    if let .file bytes := node then
      let same :=
        match old.listing.lookup path with
        | some (.file before) => before == bytes
        | _ => false
      unless same do
        IO.FS.writeBinFile (String.ofList path) ⟨bytes.toArray⟩
  for (path, node) in old.listing do
    if let .file _ := node then
      if (new.listing.lookup path).isNone then
        IO.FS.removeFile (String.ofList path)

/-! ## Program -/

/-- The tree that holds the given entries at a location. -/
def treeAt (location : Location) (entries : Entries) : Node :=
  location.foldr (fun name node => .directory [(name, node)]) (.directory entries)

/-- An entry of the log as one line. -/
def logLine (e : LogEntry) : String :=
  (match e.level with
    | .info => "INFO "
    | .warning => "WARNING ") ++ String.ofList e.message

end PolicyTable

open PolicyTable FileSystem

/-- Run the program on the tree below the current directory. -/
def main (arguments : List String) : IO UInt32 := do
  let here := (partsOf (← IO.currentDir).toString.toList).filter isOrdinary
  let loaded ← loadDirectory "." ⟨.relative, []⟩
  let world : World :=
    { top := treeAt here loaded.entries, here, unlistable := loaded.unlistable
      here_ordinary := by simp [here] }
  let outcome :=
    CommandLine.runOnProcess world .plain (arguments.map String.toList)
  storeChanges world outcome.world
  for entry in outcome.log do
    IO.eprintln (logLine entry)
  IO.print (String.ofList outcome.process.output)
  IO.eprint (String.ofList outcome.process.errors)
  match outcome.exit with
  | .ok code => return code.toUInt32
  | .error crash =>
    IO.eprintln (String.ofList crash.message)
    return 1
