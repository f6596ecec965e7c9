import PolicyTable.Policy.Documentation
import PolicyTable.Proofs.Policy.Collection

/-!
# `PolicyTable.Proofs.Policy.Visible` — what a walk without hindrance sees

Where nothing hinders the walk, the path of a directory that it goes into leads to the place of that directory in
the tree, and the files there are read as they stand in the tree. So two worlds with the same policy files have
the same records, whatever else is different in them.

## Contents
- **Ways.** `reaches_below` for the directories that the walk goes into, `read_below` for the files in them; the walk
  gives its files where nothing hinders it (`exists_collect_eq_ok_iff`).
- **Hindrances without links.** `not_hinders_iff`: paths that are too long, besides what cannot be listed.
- **Files.** `LinksToNoFile` says that no link leads to a file. What the files are then (`isPolicyFile_iff_file`), and
  what is read from them (`read_of_mem_collect`).
- **Lists of paths.** `ListsBelow.unique`, and `ListsBelow.insert` for one path more.
- **Records.** `fileRecords_congr` and `collectRecords_congr`.
-/

namespace PolicyTable.Policy

open FileSystem

variable {w w' : World} {s : Selection} {path root file : Path} {d : Location} {entries : Entries} {dir node : Node}
  {name : Name} {names front : List Name} {files files' : List Path} {P Q : List Name → Prop}
  {tools : Tools}

/-! ## Ways -/

theorem Entered.of_append {rest : List Name} (h : Entered dir (front ++ rest)) : Entered dir front := by
  refine ⟨?_, fun hskip => h.2 (List.mem_append_left _ hskip)⟩
  rcases eq_or_ne rest [] with rfl | hrest
  · rw [← List.append_nil front]
    exact h.1
  · obtain ⟨entries, hentries⟩ := h.1
    exact Node.hasDirectory_above hentries (List.prefix_append _ _) (by simpa using hrest)

/-- **Where nothing hinders the walk, the path of a directory leads to its place.** -/
theorem reaches_below (h : w.Reaches path d) (hdir : w.top.at? d = some dir) (hw : dir.WellFormed)
    (hno : ∀ stop, ¬ Hinders w path dir stop) (hentered : Entered dir front) :
    w.Reaches (path.below front) (d ++ front) := by
  induction front using List.reverseRecOn with
  | nil => rwa [Path.below_nil, List.append_nil]
  | append_singleton front x ih =>
      have habove := ih hentered.of_append
      obtain ⟨sub, hsub⟩ := hentered.1
      have hat : w.top.at? (d ++ front ++ [x]) = some (.directory sub) := by
        rw [List.append_assoc, Node.at?_append, hdir, Option.bind_some, hsub]
      have hname : IsEntryName x := hw.isEntryName hsub (by simp)
      -- The look at the entry is not refused, so its name is not too long.
      have hlook := habove.probe_child hname hat rfl
      rw [← Path.below_concat] at hlook
      split_ifs at hlook with hlong
      · exact absurd (.refused hentered.of_append hsub hlook) (hno _)
      · have hshort : isLongName x = false := by simp_all
        rw [← List.append_assoc, Path.below_concat]
        exact habove.child (hname.isOrdinary hshort) hname.no_nul ⟨sub, hat⟩

/-- **A file that the walk comes to is read as it stands in the tree.** -/
theorem read_below {bytes : List UInt8} (h : w.Reaches path d) (hdir : w.top.at? d = some dir)
    (hw : dir.WellFormed) (hno : ∀ stop, ¬ Hinders w path dir stop) (hentered : Entered dir front)
    (hfile : dir.at? (front ++ [name]) = some (.file bytes)) :
    w.read (path.below (front ++ [name])) = .ok bytes := by
  have hreaches := reaches_below h hdir hw hno hentered
  have hat : w.top.at? (d ++ front ++ [name]) = some (.file bytes) := by
    rw [List.append_assoc, Node.at?_append, hdir, Option.bind_some, hfile]
  have hname : IsEntryName name := hw.isEntryName hfile (by simp)
  have hlook := hreaches.probe_child hname hat rfl
  rw [← Path.below_concat] at hlook
  rw [World.read_eq_ok_iff, hlook]
  split_ifs at hlook ⊢
  · exact absurd (.refused hentered hfile hlook) (hno _)
  · rfl

/-- The walk gives its files if nothing hinders it. -/
theorem exists_collect_eq_ok_iff (hw : w.top.WellFormed)
    (hroot : w.probe .node root = .ok (some (.directory entries))) :
    (∃ files, collect w s root = .ok files) ↔ ∀ stop, ¬ Hinders w root (.directory entries) stop := by
  have hA := @collect_answers w s root entries hw hroot
  cases hresult : collect w s root with
  | ok files =>
      rw [hresult] at hA
      exact iff_of_true ⟨files, rfl⟩ hA.2
  | error stop =>
      rw [hresult] at hA
      refine iff_of_false ?_ fun hno => hno stop hA
      rintro ⟨files, hfiles⟩
      cases hfiles

/-! ## Hindrances without links -/

/-- No entry that the walk comes to has a path that is too long, or a name. -/
def Fits (root : Path) (dir : Node) : Prop :=
  ∀ front name node, Entered dir front → dir.at? (front ++ [name]) = some node →
    (root.below (front ++ [name])).isLong = false ∧ isLongName name = false

/-- Where all entries fit, the walk is at the place of each directory that it goes into. -/
theorem Fits.reaches (hfits : Fits root dir) (h : w.Reaches root d) (hdir : w.top.at? d = some dir)
    (hw : dir.WellFormed) (hentered : Entered dir front) : w.Reaches (root.below front) (d ++ front) := by
  obtain ⟨entries, hentries⟩ := hentered.1
  refine h.below ⟨entries, by rw [Node.at?_append, hdir, Option.bind_some, hentries]⟩ fun name hname => ?_
  have hentry := hw.isEntryName hentries hname
  obtain ⟨before, after, rfl⟩ := List.append_of_mem hname
  rw [List.append_cons] at hentered
  obtain ⟨sub, hsub⟩ := hentered.of_append.1
  exact ⟨hentry.isOrdinary (hfits _ _ _ hentered.of_append.of_append hsub).2, hentry.no_nul⟩

/-- **Without links, only directories that cannot be listed and paths that are too long hinder the walk.** -/
theorem not_hinders_iff (h : w.Reaches root d) (hdir : w.top.at? d = some dir) (hw : dir.WellFormed)
    (hlinks : ∀ l, ¬ w.top.HasLink l) :
    (∀ stop, ¬ Hinders w root dir stop) ↔ Listable w root dir ∧ Fits root dir := by
  -- What a look finds at an entry, where the walk is at the directory that it stands in.
  have hlook : ∀ {front name node}, w.Reaches (root.below front) (d ++ front) →
      dir.at? (front ++ [name]) = some node → w.probe .node (root.below (front ++ [name])) =
        if (root.below (front ++ [name])).isLong || isLongName name then
          .error { cause := .nameTooLong, path := root.below (front ++ [name]) }
        else .ok (some node) := by
    intro front name node hreaches hnode
    have hat : w.top.at? (d ++ front ++ [name]) = some node := by
      rw [List.append_assoc, Node.at?_append, hdir, Option.bind_some, hnode]
    have hlink : node.isLink = false := by
      cases node with
      | file => rfl
      | directory => rfl
      | link target => exact absurd ⟨target, hat⟩ (hlinks _)
    rw [Path.below_concat]
    exact hreaches.probe_child (hw.isEntryName hnode (by simp)) hat hlink
  constructor
  · intro hno
    refine ⟨fun front hentered hlisting => hno _ (.unlistable hentered hlisting), ?_⟩
    intro front name node hentered hnode
    have hprobe := hlook (reaches_below h hdir hw hno hentered) hnode
    by_cases hlong : ((root.below (front ++ [name])).isLong || isLongName name) = true
    · rw [if_pos hlong] at hprobe
      exact absurd (.refused hentered hnode hprobe) (hno _)
    · simpa using hlong
  · rintro ⟨hlist, hfits⟩ stop (⟨hentered, hlisting⟩ | ⟨hentered, hnode, hprobe⟩)
    · exact hlist _ hentered hlisting
    · rw [hlook (hfits.reaches h hdir hw hentered) hnode] at hprobe
      obtain ⟨hlong, hname⟩ := hfits _ _ _ hentered hnode
      rw [hlong, hname] at hprobe
      cases hprobe

/-! ## Files -/

/-- No link that the walk comes to leads to a file. -/
def LinksToNoFile (w : World) (root : Path) (dir : Node) : Prop :=
  ∀ front name target bytes, Entered dir front → dir.at? (front ++ [name]) = some (.link target) →
    w.probe .node (root.below (front ++ [name])) ≠ .ok (some (.file bytes))

/-- Where no link leads to a file, the policy files are the files with selected names. -/
theorem isPolicyFile_iff_file (hlinks : LinksToNoFile w root dir) :
    IsPolicyFile w s root dir names ↔ ∃ front name bytes, names = front ++ [name] ∧ skippedName ∉ front ∧
      dir.at? names = some (.file bytes) ∧ s.selects name = true := by
  constructor
  · rintro ⟨front, name, node, rfl, hentered, hnode, hfile, hselects⟩
    cases hfile with
    | file => exact ⟨front, name, _, rfl, hentered.2, hnode, hselects⟩
    | link leads => exact absurd leads (hlinks _ _ _ _ hentered hnode)
  · rintro ⟨front, name, bytes, rfl, hskip, hnode, hselects⟩
    exact ⟨front, name, _, rfl, ⟨Node.hasDirectory_of_at?_concat hnode, hskip⟩, hnode, .file, hselects⟩

theorem linksToNoFile_of_linkless (hlinks : ∀ l, ¬ w.top.HasLink l) (hd : w.top.at? d = some dir) :
    LinksToNoFile w root dir := by
  intro front name target bytes _ hnode
  have hat : w.top.at? (d ++ (front ++ [name])) = some (.link target) := by
    rw [Node.at?_append, hd, Option.bind_some, hnode]
  exact absurd ⟨target, hat⟩ (hlinks _)

/-- The files that are collected are read as they stand in the tree. -/
theorem read_of_mem_collect (hw : w.top.WellFormed) (hroot : w.probe .node root = .ok (some (.directory entries)))
    (hlinks : LinksToNoFile w root (.directory entries)) (hfiles : collect w s root = .ok files)
    (hfile : file ∈ files) :
    ∃ front name bytes, file = root.below (front ++ [name]) ∧ skippedName ∉ front ∧ s.selects name = true ∧
      (Node.directory entries).at? (front ++ [name]) = some (.file bytes) ∧ w.read file = .ok bytes := by
  obtain ⟨d, hreaches, hd⟩ := World.exists_reaches hroot
  have hA := @collect_answers w s root entries hw hroot
  rw [hfiles] at hA
  obtain ⟨⟨found, rfl, _, hfound⟩, hno⟩ := hA
  obtain ⟨names, hnames, rfl⟩ := List.mem_map.1 hfile
  obtain ⟨front, name, bytes, rfl, hskip, hat, hselects⟩ := (isPolicyFile_iff_file hlinks).1 ((hfound names).1 hnames)
  exact ⟨front, name, bytes, rfl, hskip, hselects, hat,
    read_below hreaches hd (hw.at? hd) hno ⟨Node.hasDirectory_of_at?_concat hat, hskip⟩ hat⟩

/-! ## Lists of paths -/

/-- One list of names in order has the names with a property. -/
theorem ListsBelow.unique (h : ListsBelow path P files) (h' : ListsBelow path P files') : files = files' := by
  obtain ⟨found, rfl, hsorted, hmem⟩ := h
  obtain ⟨found', rfl, hsorted', hmem'⟩ := h'
  have hsame : found = found' := @List.Pairwise.eq_of_mem_iff _ NamesBefore _ _ _ _ hsorted hsorted' fun names =>
    (hmem names).trans (hmem' names).symm
  rw [hsame]

/-- **One path more stands between the paths before it and those after it.** -/
theorem ListsBelow.insert (h : ListsBelow path P files) (h' : ListsBelow path Q files') (hnew : ¬ P names)
    (hPQ : ∀ others, Q others ↔ others = names ∨ P others) :
    ∃ before after, files = before ++ after ∧ files' = before ++ path.below names :: after ∧
      (∀ f ∈ before, NamesBefore f.parts (path.below names).parts) ∧
      ∀ f ∈ after, NamesBefore (path.below names).parts f.parts := by
  obtain ⟨found, rfl, hsorted, hmem⟩ := h'
  obtain ⟨front, behind, rfl⟩ := List.append_of_mem ((hmem names).2 ((hPQ names).2 (.inl rfl)))
  obtain ⟨hfront, hbehind, hacross⟩ := List.pairwise_append.1 hsorted
  obtain ⟨hnames, hbehind⟩ := List.pairwise_cons.1 hbehind
  have hold : ListsBelow path P ((front ++ behind).map path.below) := by
    refine ⟨front ++ behind, rfl, ?_, fun others => ?_⟩
    · exact List.pairwise_append.2 ⟨hfront, hbehind, fun a ha b hb => hacross a ha b (List.mem_cons_of_mem _ hb)⟩
    · have hothers := (hmem others).trans (hPQ others)
      rw [List.mem_append, List.mem_cons] at hothers
      have hne : others ∈ front ++ behind → others ≠ names := by
        rintro hin rfl
        rcases List.mem_append.1 hin with hin | hin
        · exact irrefl_of NamesBefore _ (hacross _ hin _ List.mem_cons_self)
        · exact irrefl_of NamesBefore _ (hnames _ hin)
      constructor
      · intro hin
        refine (hothers.1 ?_).resolve_left (hne hin)
        exact (List.mem_append.1 hin).imp id .inr
      · intro hP
        have hne' : others ≠ names := fun heq => hnew (heq ▸ hP)
        rcases hothers.2 (.inr hP) with hin | rfl | hin
        · exact List.mem_append_left _ hin
        · exact absurd rfl hne'
        · exact List.mem_append_right _ hin
  -- Without the new one, the list is in order still, and there is only one such list.
  refine ⟨front.map path.below, behind.map path.below, ?_, ?_, ?_, ?_⟩
  · rw [h.unique hold, List.map_append]
  · rw [List.map_append, List.map_cons]
  · rintro _ hf
    obtain ⟨others, hothers, rfl⟩ := List.mem_map.1 hf
    exact List.Lex.append_left _ (hacross _ hothers _ List.mem_cons_self) path.parts
  · rintro _ hf
    obtain ⟨others, hothers, rfl⟩ := List.mem_map.1 hf
    exact List.Lex.append_left _ (hnames _ hothers) path.parts

/-! ## Records -/

/-- The records of a file depend on what is read from it. -/
theorem fileRecords_congr (h : w'.read file = w.read file) :
    fileRecords w' tools.grammar file = fileRecords w tools.grammar file := by
  rw [fileRecords, fileRecords, readPolicy, readPolicy, h]

/-- Where the walk stops, there are no records. -/
theorem collectRecords_of_error {stop : Stop} (h : collect w tools.policyFiles root = .error stop) :
    collectRecords w tools root = .error stop := by
  rw [collectRecords, h]
  rfl

/-- **The records of a directory depend on its policy files and on what is read from them.** -/
theorem collectRecords_congr (h : collect w' tools.policyFiles root = collect w tools.policyFiles root)
    (hread : ∀ files, collect w tools.policyFiles root = .ok files → ∀ file ∈ files, w'.read file = w.read file) :
    collectRecords w' tools root = collectRecords w tools root := by
  rw [collectRecords, collectRecords, h]
  cases hfiles : collect w tools.policyFiles root with
  | error stop => rfl
  | ok files =>
      have hsame : files.mapM (fileRecords w' tools.grammar) = files.mapM (fileRecords w tools.grammar) :=
        mapM_congr (List.forall₂_same.2 fun file hfile => fileRecords_congr (hread files hfiles file hfile))
      change (files.mapM (fileRecords w' tools.grammar) >>= _) = (files.mapM (fileRecords w tools.grammar) >>= _)
      rw [hsame]

end PolicyTable.Policy
