import Mathlib.Logic.Relation
import PolicyTable.Proofs.Policy.Acceptance
import PolicyTable.Proofs.Policy.FirstStop
import PolicyTable.Proofs.Policy.Visible

/-!
# `PolicyTable.Proofs.Policy.Edits` — what is no policy does not count

A directory has more in it than policy files: other files, what a `.git` directory holds, directories without a
policy file, links to directories. The records of a directory are the same whatever is done to these. There is one
exception. The walk looks at each entry that it comes to, also at one of these, and crashes at one that it cannot
look at because the path is too long.

## Contents
- **Edits.** `Edit` is one change of this kind, anywhere in a tree.
- **What the walk sees.** `SameWalk` compares two trees location by location, as far as the walk goes. One edit keeps
  it (`Edit.sameWalk`), and so do any number (`sameWalk_of_edits`).
- **Two walks.** The same policy files (`SameWalk.isPolicyFile_iff`) and the same first directory that cannot be
  listed (`collect_of_sameWalk`).

Main statement: `collectRecords_edited`.
-/

namespace PolicyTable.Policy

open FileSystem
open FileSystem.Node (HasDirectory HasLink Free Kind)

variable {w w' : World} {root : Path} {d : Location} {unlistable : List Text} {top top' dir dir' : Node}
  {entries entries' : Entries} {names front : List Name} {name : Name} {stop : Stop} {s : Selection}
  {tools : Tools}

/-! ## Edits -/

/-- One change to a tree that leaves the policy files of the directory at a location alone. The path is one that
    leads to this directory, the texts are those of the paths of directories that cannot be listed. -/
inductive Edit (s : Selection) (unlistable : List Text) (root : Path) (d : Location) (top : Node) : Node → Prop
  /-- A file with a name that is not selected is made, or gets other bytes. -/
  | putFile {l : Location} {name : Name} {bytes : List UInt8} (above : top.HasDirectory l)
      (free : top.Free (l ++ [name])) (entryName : IsEntryName name) (rejected : s.selects name = false) :
      Edit s unlistable root d top (top.put (l ++ [name]) (.file bytes))
  /-- Such a file is taken away. -/
  | removeFile {l : Location} {name : Name} {bytes : List UInt8} (there : top.at? (l ++ [name]) = some (.file bytes))
      (rejected : s.selects name = false) : Edit s unlistable root d top (top.remove (l ++ [name]))
  /-- A directory below the root that the walk does not go into gets other entries. -/
  | refill {front : List Name} {entries : Entries} (there : top.HasDirectory (d ++ front ++ [skippedName]))
      (wellFormed : (Node.directory entries).WellFormed) :
      Edit s unlistable root d top (top.put (d ++ front ++ [skippedName]) (.directory entries))
  /-- A directory that can be listed is made. -/
  | addDirectory {l : Location} {name : Name} (above : top.HasDirectory l) (missing : top.at? (l ++ [name]) = none)
      (entryName : IsEntryName name)
      (listable : ∀ names, d ++ names = l ++ [name] → (root.below names).text ∉ unlistable) :
      Edit s unlistable root d top (top.put (l ++ [name]) (.directory []))
  /-- A link is made. -/
  | addLink {l : Location} {name : Name} {target : Text} (above : top.HasDirectory l)
      (missing : top.at? (l ++ [name]) = none) (entryName : IsEntryName name) :
      Edit s unlistable root d top (top.put (l ++ [name]) (.link target))

/-- Any number of changes of this kind, one after the other. -/
abbrev Edits (s : Selection) (unlistable : List Text) (root : Path) (d : Location) : Node → Node → Prop :=
  Relation.ReflTransGen (Edit s unlistable root d)

theorem Edit.wellFormed (h : Edit s unlistable root d top top') (hw : top.WellFormed) : top'.WellFormed := by
  cases h with
  | putFile _ _ entryName _ => exact hw.put entryName .file
  | removeFile _ _ => exact hw.remove
  | refill _ wellFormed => exact hw.put (by decide) wellFormed
  | addDirectory _ _ entryName _ => exact hw.put entryName (.flat (by decide) (by simp) (by simp))
  | addLink _ _ entryName => exact hw.put entryName .link

/-! ## What the walk sees -/

/-- The walk passes over what is at these names: nothing, or a file with a name that is not selected. -/
inductive Ignored (s : Selection) (names : List Name) : Option Kind → Prop
  | missing : Ignored s names none
  | file {bytes : List UInt8} (rejected : ∀ front name, names = front ++ [name] → s.selects name = false) :
      Ignored s names (some (.file bytes))

/-- What may come to be at names where there was nothing that counts. -/
inductive Harmless (s : Selection) (unlistable : List Text) (root : Path) (names : List Name) : Option Kind → Prop
  | ignored {kind? : Option Kind} (ignored : Ignored s names kind?) : Harmless s unlistable root names kind?
  | directory (listable : (root.below names).text ∉ unlistable) : Harmless s unlistable root names (some .directory)
  | link {target : Text} : Harmless s unlistable root names (some (.link target))

/-- As far as the walk goes from a location, the trees are the same where it does not pass over what is there. It
    does not go below a directory that it skips. -/
def SameWalk (s : Selection) (unlistable : List Text) (root : Path) (d : Location) (top top' : Node) : Prop :=
  ∀ names, skippedName ∉ names.dropLast → top'.kindAt? (d ++ names) = top.kindAt? (d ++ names) ∨
    Ignored s names (top.kindAt? (d ++ names)) ∧ Harmless s unlistable root names (top'.kindAt? (d ++ names))

namespace SameWalk

theorem refl (top : Node) : SameWalk s unlistable root d top top := fun _ _ => .inl rfl

theorem trans {middle : Node} (h : SameWalk s unlistable root d top middle)
    (h' : SameWalk s unlistable root d middle top') : SameWalk s unlistable root d top top' := by
  intro names hskip
  rcases h names hskip with heq | ⟨hold, hnew⟩
  · rw [← heq]
    exact h' names hskip
  · rcases h' names hskip with heq' | ⟨_, hnew'⟩
    · exact .inr ⟨hold, heq' ▸ hnew⟩
    · exact .inr ⟨hold, hnew'⟩

/-- Where there is a directory, the walk does not pass over it. -/
theorem hasDirectory (h : SameWalk s unlistable root d top top') (hskip : skippedName ∉ names.dropLast)
    (hd : top.HasDirectory (d ++ names)) : top'.HasDirectory (d ++ names) := by
  rw [← Node.kindAt?_eq_directory_iff] at hd ⊢
  rcases h names hskip with heq | ⟨hold, _⟩
  · rw [heq, hd]
  · rw [hd] at hold
    cases hold

/-- The same from one directory to the other. -/
theorem below (h : SameWalk s unlistable root d top top') (hdir : top.at? d = some dir)
    (hdir' : top'.at? d = some dir') : SameWalk s unlistable root [] dir dir' := by
  intro names hskip
  have hnames := h names hskip
  rwa [Node.kindAt?_append hdir, Node.kindAt?_append hdir'] at hnames

end SameWalk

/-- Below the directory, the last name of a location is the last of its names. -/
theorem rejected_of_eq {l : Location} (hrejected : s.selects name = false)
    (hnames : d ++ names = l ++ [name]) (front : List Name) (last : Name) (heq : names = front ++ [last]) :
    s.selects last = false := by
  rw [heq, ← List.append_assoc] at hnames
  obtain ⟨_, hlast⟩ := List.append_inj' hnames rfl
  rwa [List.singleton_inj.1 hlast]

theorem ignored_of_free {l : Location} (hfree : top.Free (l ++ [name]))
    (hrejected : s.selects name = false) (hnames : d ++ names = l ++ [name]) :
    Ignored s names (top.kindAt? (l ++ [name])) := by
  rw [Node.kindAt?]
  cases hnode : top.at? (l ++ [name]) with
  | none => exact .missing
  | some node =>
      obtain ⟨bytes, rfl⟩ := hfree node hnode
      exact .file (rejected_of_eq hrejected hnames)

/-- A node with nothing below it makes no difference where there was nothing that counts, if it is harmless. -/
theorem sameWalk_put {l : Location} {new : Node} (hd : top.HasDirectory l) (hfree : top.Free (l ++ [name]))
    (hleaf : ∀ s, s ≠ [] → new.at? s = none)
    (hnew : ∀ names, d ++ names = l ++ [name] →
      Ignored s names (top.kindAt? (l ++ [name])) ∧ Harmless s unlistable root names (some new.kind)) :
    SameWalk s unlistable root d top (top.put (l ++ [name]) new) := by
  intro names _
  by_cases hnames : d ++ names = l ++ [name]
  · have hput : (top.put (l ++ [name]) new).kindAt? (l ++ [name]) = some new.kind := by
      rw [Node.kindAt?, Node.at?_put_concat hd, Option.map_some]
    rw [hnames, hput]
    exact .inr (hnew names hnames)
  · exact .inl (Node.kindAt?_put_leaf hd (fun s hs => hfree.at?_append hs) hleaf hnames)

/-- Nor does a file that is taken away, if its name is not selected. -/
theorem sameWalk_remove {l : Location} {bytes : List UInt8} (hw : top.WellFormed)
    (hfile : top.at? (l ++ [name]) = some (.file bytes)) (hrejected : s.selects name = false) :
    SameWalk s unlistable root d top (top.remove (l ++ [name])) := by
  intro names _
  have hfree : top.Free (l ++ [name]) := fun node hnode => ⟨bytes, Option.some.inj (hnode.symm.trans hfile)⟩
  rw [Node.kindAt?_remove hw (by simp)]
  -- Below the file there was nothing before, so only the file itself is missing now.
  split_ifs with hbelow
  · obtain ⟨s, hs⟩ := hbelow
    rcases eq_or_ne s [] with rfl | hne
    · rw [List.append_nil] at hs
      rw [← hs]
      exact .inr ⟨ignored_of_free hfree hrejected hs.symm, .ignored .missing⟩
    · rw [← hs, Node.kindAt?, hfree.at?_append hne]
      exact .inl rfl
  · exact .inl rfl

/-- What stands in a directory that the walk does not go into is not seen. -/
theorem sameWalk_refill (hthere : top.HasDirectory (d ++ front ++ [skippedName])) :
    SameWalk s unlistable root d top (top.put (d ++ front ++ [skippedName]) (.directory entries)) := by
  intro names hskip
  left
  by_cases hnames : d ++ names = d ++ front ++ [skippedName]
  · -- The directory is one before and after.
    rw [hnames, Node.kindAt?_eq_directory_iff.2 hthere, Node.kindAt?_eq_directory_iff]
    exact ⟨entries, Node.at?_put_concat hthere.of_concat⟩
  · refine Node.kindAt?_put fun hbelow => ?_
    rw [List.append_assoc, List.prefix_append_right_inj] at hbelow
    obtain ⟨rest, rfl⟩ := hbelow
    have hrest : rest ≠ [] := by
      rintro rfl
      exact hnames (by rw [List.append_nil, List.append_assoc])
    rw [List.dropLast_append_of_ne_nil hrest] at hskip
    exact hskip (List.mem_append_left _ (List.mem_append_right _ (List.mem_singleton_self _)))

/-- **No edit changes what the walk sees.** -/
theorem Edit.sameWalk (h : Edit s unlistable root d top top') (hw : top.WellFormed) :
    SameWalk s unlistable root d top top' := by
  cases h with
  | putFile above free _ rejected =>
      refine sameWalk_put above free (fun s hs => ?_) fun names hnames => ⟨ignored_of_free free rejected hnames,
        .ignored (.file (rejected_of_eq rejected hnames))⟩
      obtain ⟨y, ys, rfl⟩ := List.exists_cons_of_ne_nil hs
      rfl
  | removeFile there rejected => exact sameWalk_remove hw there rejected
  | refill there _ => exact sameWalk_refill there
  | addDirectory above missing _ listable =>
      refine sameWalk_put above (Node.free_of_missing missing) (fun s hs => ?_) fun names hnames => ⟨?_,
        .directory (listable names hnames)⟩
      · obtain ⟨y, ys, rfl⟩ := List.exists_cons_of_ne_nil hs
        rfl
      · rw [Node.kindAt?, missing]
        exact .missing
  | addLink above missing _ =>
      refine sameWalk_put above (Node.free_of_missing missing) (fun s hs => ?_) fun names _ => ⟨?_, .link⟩
      · obtain ⟨y, ys, rfl⟩ := List.exists_cons_of_ne_nil hs
        rfl
      · rw [Node.kindAt?, missing]
        exact .missing

/-- **No number of edits does**; the tree stays one that a file system can hold. -/
theorem sameWalk_of_edits (h : Edits s unlistable root d top top') (hw : top.WellFormed) :
    top'.WellFormed ∧ SameWalk s unlistable root d top top' := by
  induction h with
  | refl => exact ⟨hw, .refl top⟩
  | tail _ hedit ih =>
      obtain ⟨hmiddle, hsame⟩ := ih
      exact ⟨hedit.wellFormed hmiddle, hsame.trans (hedit.sameWalk hmiddle)⟩

/-! ## Two walks -/

theorem not_mem_dropLast_of_entered (h : Entered dir front) : skippedName ∉ front.dropLast :=
  fun hmem => h.2 ((List.dropLast_sublist front).subset hmem)

namespace SameWalk

theorem entered (h : SameWalk s unlistable root [] dir dir') (hfront : Entered dir front) : Entered dir' front :=
  ⟨h.hasDirectory (not_mem_dropLast_of_entered hfront) hfront.1, hfront.2⟩

/-- A directory that cannot be listed was there before. -/
theorem entered_of_unlistable (h : SameWalk s unlistable root [] dir dir') (hfront : Entered dir' front)
    (hlisting : (root.below front).text ∈ unlistable) : Entered dir front := by
  refine ⟨?_, hfront.2⟩
  have hdir := Node.kindAt?_eq_directory_iff.2 hfront.1
  rw [← Node.kindAt?_eq_directory_iff]
  rcases h front (not_mem_dropLast_of_entered hfront) with heq | ⟨_, hnew⟩
  · exact heq.symm.trans hdir
  · change Harmless s unlistable root front (dir'.kindAt? front) at hnew
    rw [hdir] at hnew
    cases hnew with
    | ignored hignored => cases hignored
    | directory listable => exact absurd hlisting listable

/-- A file with a name that is selected is the same in both. -/
theorem at?_file_iff {bytes : List UInt8} (h : SameWalk s unlistable root [] dir dir') (hskip : skippedName ∉ front)
    (hselects : s.selects name = true) :
    dir'.at? (front ++ [name]) = some (.file bytes) ↔ dir.at? (front ++ [name]) = some (.file bytes) := by
  have hskip' : skippedName ∉ (front ++ [name]).dropLast := by
    rwa [List.dropLast_concat]
  -- The walk does not pass over a file of that name, so that if there is one in one tree, both are the same there.
  have hcounts : ∀ {bytes}, ¬ Ignored s (front ++ [name]) (some (.file bytes)) := by
    rintro bytes (_ | hrejected)
    exact absurd hselects (by simp [hrejected front name rfl])
  rw [← Node.kindAt?_eq_file_iff, ← Node.kindAt?_eq_file_iff]
  rcases h (front ++ [name]) hskip' with heq | ⟨hold, hnew⟩
  · rw [List.nil_append] at heq
    rw [heq]
  · rw [List.nil_append] at hold hnew
    constructor
    · intro hfile
      rw [hfile] at hnew
      cases hnew with
      | ignored hignored => exact absurd hignored hcounts
    · intro hfile
      rw [hfile] at hold
      exact absurd hold hcounts

/-- **Both have the same policy files**, if no link leads to one. -/
theorem isPolicyFile_iff (h : SameWalk s unlistable root [] dir dir') (hlinks : LinksToNoFile w root dir)
    (hlinks' : LinksToNoFile w' root dir') :
    IsPolicyFile w s root dir names ↔ IsPolicyFile w' s root dir' names := by
  rw [isPolicyFile_iff_file hlinks, isPolicyFile_iff_file hlinks']
  constructor
  · rintro ⟨front, name, bytes, rfl, hskip, hfile, hselects⟩
    exact ⟨front, name, bytes, rfl, hskip, (h.at?_file_iff hskip hselects).2 hfile, hselects⟩
  · rintro ⟨front, name, bytes, rfl, hskip, hfile, hselects⟩
    exact ⟨front, name, bytes, rfl, hskip, (h.at?_file_iff hskip hselects).1 hfile, hselects⟩

/-- The policy files that both walks find are read as the same bytes. -/
theorem read_eq {files : List Path} {file : Path} (h : SameWalk s unlistable root [] (.directory entries)
      (.directory entries')) (hw : w.top.WellFormed) (hw' : w'.top.WellFormed)
    (hroot : w.probe .node root = .ok (some (.directory entries)))
    (hroot' : w'.probe .node root = .ok (some (.directory entries')))
    (hlinks : LinksToNoFile w root (.directory entries)) (hfiles : collect w s root = .ok files)
    (hfiles' : collect w' s root = .ok files) (hfile : file ∈ files) : w'.read file = w.read file := by
  obtain ⟨front, name, bytes, rfl, hskip, hselects, hat, hread⟩ := read_of_mem_collect hw hroot hlinks hfiles hfile
  obtain ⟨d, hreaches, hd⟩ := World.exists_reaches hroot'
  have hno := (exists_collect_eq_ok_iff hw' hroot').1 ⟨files, hfiles'⟩
  have hat' := (h.at?_file_iff hskip hselects).2 hat
  have hread' := read_below hreaches hd (hw'.at? hd) hno ⟨Node.hasDirectory_of_at?_concat hat', hskip⟩ hat'
  rw [hread, hread']

end SameWalk

/-- The walk meets an entry that it cannot look at, and crashes there. -/
def CrashesAtLook {α : Type} (w : World) (root : Path) (dir : Node) (result : Except Stop α) : Prop :=
  ∃ front name fault, Entered dir front ∧ (dir.at? (front ++ [name])).isSome ∧
    w.probe .node (root.below (front ++ [name])) = .error fault ∧ result = .error (.crashed (.refused fault))

section Walks

variable (hw : w.top.WellFormed) (hw' : w'.top.WellFormed)
  (hroot : w.probe .node root = .ok (some (.directory entries)))
  (hroot' : w'.probe .node root = .ok (some (.directory entries')))
  (hunlistable : w'.unlistable = w.unlistable)
  (h : SameWalk s w.unlistable root [] (.directory entries) (.directory entries'))
  (hlinks : LinksToNoFile w root (.directory entries)) (hlinks' : LinksToNoFile w' root (.directory entries'))

include hw hw' hroot hroot' hunlistable h

/-- Where the first walk stops at a directory that cannot be listed, so does the second. -/
theorem collect_of_unlistable (hstop : collect w s root = .error stop)
    (hbase : ∀ crash, stop ≠ .crashed crash) :
    collect w' s root = .error stop ∨
      CrashesAtLook w' root (.directory entries') (collect w' s root) := by
  have hfirst := @collect_stopsFirst w s root entries hw hroot
  have hfirst' := @collect_stopsFirst w' s root entries' hw' hroot'
  rw [hstop] at hfirst
  obtain ⟨names, hstops, hleast⟩ := hfirst
  cases hstops with
  | refused _ _ _ => exact absurd rfl (hbase _)
  | unlistable entered listing =>
      have hagain := StopsAt.unlistable (h.entered entered) (hunlistable ▸ listing)
      cases hresult' : collect w' s root with
      | ok files =>
          rw [hresult'] at hfirst'
          exact absurd hagain (hfirst' _ _)
      | error stop' =>
          rw [hresult'] at hfirst'
          obtain ⟨names', hstops', hleast'⟩ := hfirst'
          cases hstops' with
          | refused entered' there look => exact .inr ⟨_, _, _, entered', by rw [there]; rfl, look, rfl⟩
          | unlistable entered' listing' =>
              -- Each is a place of a stop in both, and none stands before the other.
              rw [hunlistable] at listing'
              have hbefore := StopsAt.unlistable (h.entered_of_unlistable entered' listing') listing'
              rcases trichotomous_of NamesBefore names names' with hlt | rfl | hlt
              · exact absurd hlt (hleast' _ _ hagain)
              · exact .inl rfl
              · exact absurd hlt (hleast _ _ hbefore)

include hlinks hlinks'

/-- **Both walks find the same policy files, or stop at the same directory**, unless the second one crashes at an
    entry that it cannot look at. -/
theorem collect_of_sameWalk (hbase : ∀ crash, collect w s root ≠ .error (.crashed crash)) :
    collect w' s root = collect w s root ∨
      CrashesAtLook w' root (.directory entries') (collect w' s root) := by
  cases hresult : collect w s root with
  | error stop =>
      refine collect_of_unlistable hw hw' hroot hroot' hunlistable h hresult fun crash hcrash => ?_
      exact hbase crash (hcrash ▸ hresult)
  | ok files =>
      have hA := @collect_answers w s root entries hw hroot
      have hA' := @collect_answers w' s root entries' hw' hroot'
      rw [hresult] at hA
      cases hresult' : collect w' s root with
      | ok files' =>
          rw [hresult'] at hA'
          have hsame := hA'.1.unique (hA.1.congr fun names => h.isPolicyFile_iff hlinks hlinks')
          exact .inl (congrArg _ hsame)
      | error stop =>
          rw [hresult'] at hA'
          cases hA' with
          | unlistable entered listing =>
              -- The directory was there before, and would have stopped the first walk.
              rw [hunlistable] at listing
              exact absurd (.unlistable (h.entered_of_unlistable entered listing) listing) (hA.2 _)
          | refused entered there look => exact .inr ⟨_, _, _, entered, by rw [there]; rfl, look, rfl⟩

end Walks

/-! ## Main statement -/

/-- **What is no policy does not count.** In a tree without links, take a directory whose records are collected, or
    not, without a crash, and any number of edits after which the path still leads to the directory and no link below
    it leads to a file. The records are then the same, or the failure is. Only where there is now an entry that cannot
    be looked at may the walk crash at such a one. -/
theorem collectRecords_edited (hw : w.top.WellFormed) (hlinks : ∀ l, ¬ w.top.HasLink l)
    (hroot : w.probe .node root = .ok (some (.directory entries))) (hreaches : w.Reaches root d)
    (hbase : ∀ crash, collectRecords w tools root ≠ .error (.crashed crash))
    (hedits : Edits tools.policyFiles w.unlistable root d w.top top')
    (hreaches' : ({ w with top := top' } : World).Reaches root d)
    (hlinks' : ∀ dir', top'.at? d = some dir' → LinksToNoFile { w with top := top' } root dir') :
    ∃ dir', top'.at? d = some dir' ∧
      (Viewable { w with top := top' } root dir' →
        collectRecords { w with top := top' } tools root = collectRecords w tools root) ∧
      (¬ Viewable { w with top := top' } root dir' →
        collectRecords { w with top := top' } tools root = collectRecords w tools root ∨
          CrashesAtLook { w with top := top' } root dir' (collectRecords { w with top := top' } tools root)) := by
  have hd := hreaches.at?_of_probe hroot
  obtain ⟨hw', hsame⟩ := sameWalk_of_edits hedits hw
  -- The root is a directory still, and the path leads to it.
  have hdirectory : top'.HasDirectory (d ++ []) :=
    hsame.hasDirectory List.not_mem_nil ⟨entries, by rwa [List.append_nil]⟩
  obtain ⟨entries', hd'⟩ := hdirectory
  rw [List.append_nil] at hd'
  have hroot' := hreaches'.probe_of_probe hroot hd'
  have hbelow := hsame.below hd hd'
  have hlinkless : LinksToNoFile w root (.directory entries) := linksToNoFile_of_linkless hlinks hd
  have hcrash : ∀ crash, collect w tools.policyFiles root ≠ .error (.crashed crash) := fun crash hstop =>
    hbase crash (collectRecords_of_error hstop)
  have hboth : collectRecords { w with top := top' } tools root = collectRecords w tools root ∨
      CrashesAtLook { w with top := top' } root (.directory entries')
        (collectRecords { w with top := top' } tools root) := by
    rcases collect_of_sameWalk hw hw' hroot hroot' rfl hbelow hlinkless (hlinks' _ hd') hcrash with heq | hlook
    · refine .inl (collectRecords_congr heq fun files hfiles file hfile => ?_)
      exact hbelow.read_eq hw hw' hroot hroot' hlinkless hfiles (heq.trans hfiles) hfile
    · obtain ⟨front, name, fault, hentered, hthere, hlook, hstop⟩ := hlook
      exact .inr ⟨front, name, fault, hentered, hthere, hlook, collectRecords_of_error hstop⟩
  refine ⟨_, hd', fun hview => hboth.resolve_right ?_, fun _ => hboth⟩
  rintro ⟨front, name, fault, hentered, hthere, hlook, _⟩
  obtain ⟨node, hnode⟩ := Option.isSome_iff_exists.1 hthere
  obtain ⟨node?, hview⟩ := hview front name node hentered hnode
  rw [hlook] at hview
  cases hview

/-- A policy file with a record, beside another file and a directory that the walk does not go into. -/
def quietEntries : Entries :=
  [(".git".toList, .directory [("x.rego".toList, .file [])]),
    ("a.rego".toList, .file (Text.Utf8.encode "# D\n# @Kinds a/B\n".toList)),
    ("notes.txt".toList, .file [])]

def quietWorld : World where
  top := .directory quietEntries
  here := []

/-- The other file is gone, and there is a new directory with a link to the one above it and a test in it. -/
def stirredTop : Node :=
  .directory [(".git".toList, .directory [("y.rego".toList, .file [255])]),
    ("a.rego".toList, .file (Text.Utf8.encode "# D\n# @Kinds a/B\n".toList)),
    ("b".toList, .directory [("up".toList, .link "..".toList), ("z_test.rego".toList, .file [255])])]

def stirredWorld : World := { quietWorld with top := stirredTop }

theorem wellFormed_quietWorld : quietWorld.top.WellFormed := by
  refine .directory (by decide) (by decide) ?_
  simp only [quietEntries, List.forall_mem_cons, List.not_mem_nil, false_imp_iff, implies_true, and_true]
  exact ⟨.flat (by decide) (by decide) (by decide), .file, .file⟩

theorem edits_stirred : Edits Tools.plain.policyFiles [] (.ofText ".".toList) [] quietWorld.top stirredTop := by
  have hremoved := Relation.ReflTransGen.single (@Edit.removeFile Tools.plain.policyFiles [] (.ofText ".".toList) []
    quietWorld.top [] "notes.txt".toList [] rfl (by decide +kernel))
  have hrefilled := hremoved.tail (@Edit.refill _ _ _ _ _ [] [("y.rego".toList, .file [255])] ⟨_, rfl⟩
    (.flat (by decide) (by decide) (by decide)))
  have hdirectory := hrefilled.tail (@Edit.addDirectory _ _ _ _ _ [] "b".toList ⟨_, rfl⟩ rfl (by decide) (by simp))
  have hlink := hdirectory.tail (@Edit.addLink _ _ _ _ _ ["b".toList] "up".toList "..".toList ⟨_, rfl⟩ rfl (by decide))
  exact hlink.tail (@Edit.putFile _ _ _ _ _ ["b".toList] "z_test.rego".toList [255] ⟨_, rfl⟩
    (Node.free_of_missing rfl) (by decide) (by decide +kernel))

/-- The nodes below the root of the changed tree, with the only link among them. -/
theorem stirredTop_cases {l : Location} {node : Node} (hl : l ≠ []) (h : stirredTop.at? l = some node) :
    l ∈ [[".git".toList], [".git".toList, "y.rego".toList], ["a.rego".toList], ["b".toList],
      ["b".toList, "up".toList], ["b".toList, "z_test.rego".toList]] ∧
      (node.isLink = true → l = ["b".toList, "up".toList]) := by
  have hmem := Node.mem_descendants hl h
  simp only [stirredTop, Node.descendants, Node.descendantsOf, List.map_cons, List.map_nil, List.append_nil,
    List.cons_append, List.nil_append, List.mem_cons, List.not_mem_nil, or_false, Prod.mk.injEq] at hmem ⊢
  rcases hmem with ⟨rfl, rfl⟩ | ⟨rfl, rfl⟩ | ⟨rfl, rfl⟩ | ⟨rfl, rfl⟩ | ⟨rfl, rfl⟩ | ⟨rfl, rfl⟩
  all_goals simp [Node.isLink]

theorem viewable_stirred : Viewable stirredWorld (.ofText ".".toList) stirredTop := by
  intro front name node _ hnode
  obtain ⟨hmem, _⟩ := stirredTop_cases (by simp) hnode
  revert hmem
  generalize front ++ [name] = l
  revert l
  simp only [List.forall_mem_cons, List.not_mem_nil, false_imp_iff, implies_true, and_true]
  exact ⟨⟨_, rfl⟩, ⟨_, rfl⟩, ⟨_, rfl⟩, ⟨_, rfl⟩, ⟨_, rfl⟩, ⟨_, rfl⟩⟩

theorem linksToNoFile_stirred : LinksToNoFile stirredWorld (.ofText ".".toList) stirredTop := by
  intro front name target bytes _ hnode hprobe
  obtain ⟨_, hlink⟩ := stirredTop_cases (by simp) hnode
  rw [hlink rfl] at hprobe
  cases hprobe

theorem collectRecords_edited_stirred :
    collectRecords stirredWorld .plain (.ofText ".".toList) =
      .ok ⟨[⟨["a".toList], ["B".toList], "D".toList⟩], 1⟩ := by
  have hfiles : collect quietWorld Tools.plain.policyFiles (.ofText ".".toList) = .ok [.ofText "a.rego".toList] := by
    rw [@collect_eq_of_sorted _ _ _ quietEntries rfl (by decide) (by decide)]
    decide +kernel
  have hfound : collectRecords quietWorld .plain (.ofText ".".toList) =
      .ok ⟨[⟨["a".toList], ["B".toList], "D".toList⟩], 1⟩ :=
    collectRecords_eq_ok_iff.2 ⟨_, [[⟨["a".toList], ["B".toList], "D".toList⟩]], hfiles, by decide +kernel, rfl⟩
  have hreaches : ∀ top, ({ quietWorld with top := top } : World).Reaches (.ofText ".".toList) [] := fun top =>
    ⟨by decide, 0, Nat.zero_le _, .refl⟩
  obtain ⟨dir', hdir', hsame, _⟩ := @collectRecords_edited quietWorld (.ofText ".".toList) [] stirredTop quietEntries
    .plain wellFormed_quietWorld (Node.not_hasLink_of_linkCount_eq_zero rfl (by decide)) rfl
    (hreaches quietWorld.top) (fun crash hcrash => by rw [hfound] at hcrash; cases hcrash) edits_stirred
    (hreaches stirredTop) (fun dir' hdir' => by
      obtain rfl : stirredTop = dir' := Option.some.inj hdir'
      exact linksToNoFile_stirred)
  obtain rfl : stirredTop = dir' := Option.some.inj hdir'
  exact (hsame viewable_stirred).trans hfound

/-! ## A path that leaves no room -/

/-- A directory with a policy file, and one to go into and out of again. -/
def crampedEntries : Entries :=
  [("p".toList, .directory [("a.rego".toList, .file [])]), ("x".toList, .directory [])]

def crampedWorld : World where
  top := .directory crampedEntries
  here := []

/-- The way to the first directory, with so many detours that only short names fit behind it. -/
def crampedRoot : Path := ⟨.relative, (List.replicate 813 ["x".toList, parentName]).flatten ++ ["p".toList]⟩

def crampedName : Name := List.replicate 30 'n'

/-- The same with one more file, which is no policy file, beside the policy file. -/
def crowdedWorld : World := { crampedWorld with top := crampedWorld.top.put ["p".toList, crampedName] (.file []) }

theorem wellFormed_crampedWorld : crampedWorld.top.WellFormed := by
  refine .directory (by decide) (by decide) ?_
  simp only [crampedEntries, List.forall_mem_cons, List.not_mem_nil, false_imp_iff, implies_true, and_true]
  exact ⟨.flat (by decide) (by decide) (by decide), .flat (by decide) (by decide) (by decide)⟩

theorem edit_crowded : Edit Tools.plain.policyFiles [] crampedRoot ["p".toList] crampedWorld.top crowdedWorld.top :=
  @Edit.putFile _ _ _ _ _ ["p".toList] crampedName [] ⟨_, rfl⟩ (Node.free_of_missing rfl) (by decide) (by decide +kernel)

theorem walks_detours (n : Nat) :
    Walks crampedWorld.top [] (List.replicate n ["x".toList, parentName]).flatten 0 [] [] := by
  induction n with
  | zero => exact .refl
  | succ n ih =>
      have hinto : Hop crampedWorld.top [] ("x".toList :: parentName ::
          (List.replicate n ["x".toList, parentName]).flatten) 0 ["x".toList] (parentName :: _) :=
        .directory (by decide) ⟨_, rfl⟩
      exact .head hinto (.head .parent ih)

theorem reaches_cramped : crampedWorld.Reaches crampedRoot ["p".toList] := by
  have hp : Hop crampedWorld.top [] ["p".toList] 0 ["p".toList] [] := .directory (by decide) ⟨_, rfl⟩
  exact ⟨Path.hasNul_eq_false_iff.1 (by decide +kernel), 0, Nat.zero_le _,
    ((walks_detours 813).append ["p".toList]).trans hp.walks⟩

theorem probe_crampedRoot {w : World} {node : Node} (h : w.Reaches crampedRoot ["p".toList])
    (hnode : w.top.at? ["p".toList] = some node) : w.probe .node crampedRoot = .ok (some node) :=
  World.probe_eq_some_iff.2 ⟨by decide +kernel, by decide +kernel, _, h.finds, hnode⟩

/-- There a file whose name is not selected makes all the difference: its path is too long to look at. -/
theorem collectRecords_crowded :
    crampedWorld.top.WellFormed ∧ (∀ l, ¬ crampedWorld.top.HasLink l) ∧
      crampedWorld.probe .node crampedRoot = .ok (some (.directory [("a.rego".toList, .file [])])) ∧
      Edit Tools.plain.policyFiles [] crampedRoot ["p".toList] crampedWorld.top crowdedWorld.top ∧
      collectRecords crampedWorld .plain crampedRoot = .ok ⟨[], 1⟩ ∧
      collectRecords crowdedWorld .plain crampedRoot =
        .error (.crashed (.refused { cause := .nameTooLong, path := crampedRoot.child crampedName })) := by
  have hroot := probe_crampedRoot reaches_cramped rfl
  have hreaches' : crowdedWorld.Reaches crampedRoot ["p".toList] := by
    obtain ⟨hnul, n, hn, hwalks⟩ := reaches_cramped
    exact ⟨hnul, n, hn, hwalks.keeps (Node.keeps_put (Node.free_of_missing rfl))⟩
  have hfiles : collect crampedWorld Tools.plain.policyFiles crampedRoot = .ok [crampedRoot.child "a.rego".toList] := by
    rw [@collect_eq_of_sorted _ _ _ [("a.rego".toList, .file [])] hroot List.not_mem_nil (by decide)]
    decide +kernel
  have hread : crampedWorld.read (crampedRoot.child "a.rego".toList) = .ok [] := by
    rw [World.read_eq_ok_iff, @World.Reaches.probe_child _ _ _ _ (.file []) reaches_cramped (by decide) rfl rfl]
    exact if_neg (by decide +kernel)
  refine ⟨wellFormed_crampedWorld, Node.not_hasLink_of_linkCount_eq_zero rfl (by decide), hroot, edit_crowded, ?_, ?_⟩
  · refine collectRecords_eq_ok_iff.2 ⟨_, [[]], hfiles, ?_, rfl⟩
    rw [List.mapM_cons, fileRecords, readPolicy, hread]
    decide +kernel
  · refine collectRecords_of_error ?_
    rw [@collect_eq_of_sorted _ _ _ [("a.rego".toList, .file []), (crampedName, .file [])]
      (probe_crampedRoot hreaches' rfl) List.not_mem_nil (by decide)]
    decide +kernel

end PolicyTable.Policy
