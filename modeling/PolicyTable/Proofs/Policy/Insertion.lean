import PolicyTable.Proofs.Policy.Acceptance
import PolicyTable.Proofs.Policy.Visible

/-!
# `PolicyTable.Proofs.Policy.Insertion` — one policy file more

A policy file that is new in a directory has its records put in where its path stands among the others, compared name
by name. All other records stay, in the order in which they were. Read the other way round, a policy file that is
taken away takes its own records with it.

## Contents
- **Two trees.** The same hindrances (`listable_adds_iff`, `fits_adds_iff`) and one policy file more
  (`isPolicyFile_adds_iff`).
- **Two walks.** `collect_adds`, and `read_adds` for the files in both.

Main statement: `collectRecords_adds`.
-/

namespace PolicyTable.Policy

open FileSystem
open FileSystem.Node (HasDirectory HasLink Adds)
open Annotations (Record)

variable {w : World} {s : Selection} {root : Path} {d : Location} {top' dir dir' : Node} {entries entries' : Entries}
  {names front : List Name} {name : Name} {bytes : List UInt8} {tools : Tools}

/-! ## Two trees -/

section Trees

variable (h : dir.Adds dir' (front ++ [name]) bytes)

include h

/-- A directory is one from before, or on the way to the new file. -/
theorem entered_of_adds {names : List Name} (hnames : Entered dir' names) : Entered dir names ∨ names <+: front := by
  rcases h.only _ _ (Node.kindAt?_eq_directory_iff.2 hnames.1) with hold | hway
  · exact .inl ⟨Node.kindAt?_eq_directory_iff.1 hold, hnames.2⟩
  · refine .inr ((List.prefix_concat_iff.1 hway).resolve_left ?_)
    rintro rfl
    obtain ⟨entries, hdirectory⟩ := hnames.1
    rw [h.there] at hdirectory
    cases hdirectory

theorem entered_adds {names : List Name} (hnames : Entered dir names) : Entered dir' names :=
  ⟨h.hasDirectory hnames.1, hnames.2⟩

/-- As many directories can be listed as before, if the new ones can. -/
theorem listable_adds_iff {w' : World} (hunlistable : w'.unlistable = w.unlistable)
    (hlist : ∀ above, above <+: front → ¬ dir.HasDirectory above → (root.below above).text ∉ w.unlistable) :
    Listable w root dir ↔ Listable w' root dir' := by
  rw [Listable, Listable, hunlistable]
  constructor
  · intro hall names hnames
    rcases entered_of_adds h hnames with hold | hway
    · exact hall names hold
    · by_cases hdirectory : dir.HasDirectory names
      · exact hall names ⟨hdirectory, hnames.2⟩
      · exact hlist names hway hdirectory
  · exact fun hall names hnames => hall names (entered_adds h hnames)

/-- As many entries fit as before, if those on the way to the new file do. -/
theorem fits_adds_iff (hfit : ∀ before x, before ++ [x] <+: front ++ [name] →
      (root.below (before ++ [x])).isLong = false ∧ isLongName x = false) :
    Fits root dir ↔ Fits root dir' := by
  constructor
  · -- An entry is one from before, or on the way to the new file.
    intro hall before x node hentered hnode
    rcases h.only (before ++ [x]) node.kind (by rw [Node.kindAt?, hnode, Option.map_some]) with hold | hway
    · obtain ⟨old, hold, _⟩ := Option.map_eq_some_iff.1 hold
      exact hall before x old ⟨Node.hasDirectory_of_at?_concat hold, hentered.2⟩ hold
    · exact hfit before x hway
  · intro hall before x node hentered hnode
    have hkept := h.within (before ++ [x]) node.kind (by rw [Node.kindAt?, hnode, Option.map_some])
    obtain ⟨new, hnew, _⟩ := Option.map_eq_some_iff.1 hkept
    exact hall before x new (entered_adds h hentered) hnew

/-- **The policy files are the new one and those from before.** -/
theorem isPolicyFile_adds_iff {w' : World} (hlinks : LinksToNoFile w root dir) (hlinks' : LinksToNoFile w' root dir')
    (hskip : skippedName ∉ front) (hselects : s.selects name = true) :
    IsPolicyFile w' s root dir' names ↔ names = front ++ [name] ∨ IsPolicyFile w s root dir names := by
  rw [isPolicyFile_iff_file hlinks, isPolicyFile_iff_file hlinks']
  constructor
  · rintro ⟨before, x, other, rfl, hbefore, hfile, hx⟩
    rcases h.at?_file_iff.1 hfile with ⟨heq, _⟩ | hold
    · exact .inl heq
    · exact .inr ⟨before, x, other, rfl, hbefore, hold, hx⟩
  · rintro (rfl | ⟨before, x, other, rfl, hbefore, hfile, hx⟩)
    · exact ⟨front, name, bytes, rfl, hskip, h.there, hselects⟩
    · exact ⟨before, x, other, rfl, hbefore, h.at?_file_iff.2 (.inr hfile), hx⟩

/-- The new file was no policy file before. -/
theorem not_isPolicyFile_of_adds : ¬ IsPolicyFile w s root dir (front ++ [name]) := by
  rintro ⟨_, _, node, _, _, hnode, _⟩
  rw [h.missing] at hnode
  cases hnode

end Trees

/-- What is on the way to a file that can be read has no path that is too long, and no name. -/
theorem fits_of_read (h : w.Reaches root d) (hlinks : ∀ l, ¬ w.top.HasLink l) (hnames : ∀ x ∈ names, IsEntryName x)
    (hread : w.read (root.below names) = .ok bytes) (hway : front ++ [name] <+: names) :
    (root.below (front ++ [name])).isLong = false ∧ isLongName name = false := by
  obtain ⟨rest, rfl⟩ := hway
  obtain ⟨_, hlong, _, hfinds, _⟩ := World.probe_eq_some_iff.1 (World.read_eq_ok_iff.1 hread)
  obtain ⟨_, hordinary⟩ := h.of_finds hfinds hlinks hnames
  obtain ⟨_, _, _, hname⟩ := isOrdinary_iff.1 (hordinary name (by simp))
  exact ⟨Path.isLong_below (by simp) hlong, hname⟩

/-! ## Two walks -/

section Walks

variable (hw : w.top.WellFormed) (hlinks : ∀ l, ¬ w.top.HasLink l)
  (hroot : w.probe .node root = .ok (some (.directory entries))) (hreaches : w.Reaches root d)
  (hw' : top'.WellFormed) (hadds : w.top.Adds top' (d ++ (front ++ [name])) bytes)

include hroot hreaches hadds

/-- The root leads to the same place, where there is still a directory. -/
theorem exists_root_adds : ∃ entries', w.top.at? d = some (.directory entries) ∧
    top'.at? d = some (.directory entries') ∧ ({ w with top := top' } : World).Reaches root d ∧
      ({ w with top := top' } : World).probe .node root = .ok (some (.directory entries')) := by
  have hd := hreaches.at?_of_probe hroot
  obtain ⟨entries', hd'⟩ := hadds.hasDirectory ⟨entries, hd⟩
  obtain ⟨n, hn, hwalks⟩ := hreaches.walks
  have hreaches' : ({ w with top := top' } : World).Reaches root d :=
    ⟨hreaches.no_nul, n, hn, hwalks.keeps hadds.within.keeps⟩
  exact ⟨entries', hd, hd', hreaches', hreaches'.probe_of_probe hroot hd'⟩

include hw hlinks hw'

/-- The walk gives its files in both trees or in none, if the new directories can be listed and the new file can be
    read. -/
theorem exists_collect_adds_iff
    (hlist : ∀ above, above <+: front → ¬ w.top.HasDirectory (d ++ above) → (root.below above).text ∉ w.unlistable)
    {read : List UInt8} (hread : ({ w with top := top' } : World).read (root.below (front ++ [name])) = .ok read) :
    (∃ files, collect w s root = .ok files) ↔ ∃ files, collect { w with top := top' } s root = .ok files := by
  obtain ⟨entries', hd, hd', hreaches', hroot'⟩ := exists_root_adds hroot hreaches hadds
  have hlinks' := hadds.not_hasLink hlinks
  have hbelow := hadds.below hd hd'
  rw [exists_collect_eq_ok_iff hw hroot, @exists_collect_eq_ok_iff { w with top := top' } _ _ _ hw' hroot',
    not_hinders_iff hreaches hd (hw.at? hd) hlinks, not_hinders_iff hreaches' hd' (hw'.at? hd') hlinks']
  refine and_congr (listable_adds_iff hbelow rfl fun above habove hnone => hlist above habove ?_)
    (fits_adds_iff hbelow fun before x hway => ?_)
  · rintro ⟨sub, hsub⟩
    rw [Node.at?_append, hd] at hsub
    exact hnone ⟨sub, hsub⟩
  · exact fits_of_read hreaches' hlinks' (fun x hx => (hw'.at? hd').isEntryName hbelow.there hx) hread hway

/-- **The walk gives one path more, between those before it and those behind it.** -/
theorem collect_adds {files files' : List Path} (hskip : skippedName ∉ front) (hselects : s.selects name = true)
    (hfiles : collect w s root = .ok files) (hfiles' : collect { w with top := top' } s root = .ok files') :
    ∃ before after, files = before ++ after ∧ files' = before ++ root.below (front ++ [name]) :: after ∧
      (∀ f ∈ before, NamesBefore f.parts (root.below (front ++ [name])).parts) ∧
      ∀ f ∈ after, NamesBefore (root.below (front ++ [name])).parts f.parts := by
  obtain ⟨entries', hd, hd', _, hroot'⟩ := exists_root_adds hroot hreaches hadds
  have hbelow := hadds.below hd hd'
  have hA := @collect_answers w s root entries hw hroot
  have hA' := @collect_answers { w with top := top' } s root entries' hw' hroot'
  rw [hfiles] at hA
  rw [hfiles'] at hA'
  refine hA.1.insert hA'.1 (not_isPolicyFile_of_adds hbelow) fun others => ?_
  exact isPolicyFile_adds_iff hbelow (linksToNoFile_of_linkless hlinks hd)
    (linksToNoFile_of_linkless (hadds.not_hasLink hlinks) hd') hskip hselects

omit hw' in
/-- What the walk gave before is read as before. -/
theorem read_adds {files : List Path} {file : Path} (hfiles : collect w s root = .ok files) (hfile : file ∈ files) :
    ({ w with top := top' } : World).read file = w.read file := by
  obtain ⟨_, hd, _⟩ := exists_root_adds hroot hreaches hadds
  obtain ⟨_, _, _, _, _, _, _, hread⟩ :=
    read_of_mem_collect hw hroot (linksToNoFile_of_linkless hlinks hd) hfiles hfile
  rw [hread]
  exact World.read_of_within hread rfl hadds.within

end Walks

/-! ## Main statement -/

/-- **A new policy file puts in its own records only.** In a tree without links, let a policy file be new below a
    root, with or without new directories above it, which can be listed; the walk does not stay out of any directory
    on the way, and the file has records. If the root has records, it then has those of the new file besides, behind
    those of the files whose paths stand before the new one and before the others. And it has records with the new
    file if and only if it has without. -/
theorem collectRecords_adds {N : List Record} (hw : w.top.WellFormed) (hlinks : ∀ l, ¬ w.top.HasLink l)
    (hroot : w.probe .node root = .ok (some (.directory entries))) (hreaches : w.Reaches root d)
    (hw' : top'.WellFormed) (hadds : w.top.Adds top' (d ++ (front ++ [name])) bytes) (hskip : skippedName ∉ front)
    (hselects : tools.policyFiles.selects name = true)
    (hlist : ∀ above, above <+: front → ¬ w.top.HasDirectory (d ++ above) → (root.below above).text ∉ w.unlistable)
    (hnew : fileRecords { w with top := top' } tools.grammar (root.below (front ++ [name])) = .ok N) :
    (∀ R n, collectRecords w tools root = .ok ⟨R, n⟩ → ∃ before after A B,
      collect w tools.policyFiles root = .ok (before ++ after) ∧
      (∀ f ∈ before, NamesBefore f.parts (root.below (front ++ [name])).parts) ∧
      (∀ f ∈ after, NamesBefore (root.below (front ++ [name])).parts f.parts) ∧
      before.mapM (fileRecords w tools.grammar) = .ok A ∧ after.mapM (fileRecords w tools.grammar) = .ok B ∧
      R = A.flatten ++ B.flatten ∧
      collectRecords { w with top := top' } tools root = .ok ⟨A.flatten ++ N ++ B.flatten, n + 1⟩) ∧
    ((∃ found, collectRecords { w with top := top' } tools root = .ok found) →
      ∃ found, collectRecords w tools root = .ok found) := by
  obtain ⟨_, ⟨_, _, hread, _, _⟩, _⟩ := fileRecords_eq_ok_iff.1 hnew
  -- The walk succeeds in both trees or in none, and the files of both have the same records in both.
  have hwalks : (∃ files, collect w tools.policyFiles root = .ok files) ↔ _ :=
    exists_collect_adds_iff hw hlinks hroot hreaches hw' hadds hlist hread
  have hsame : ∀ {files file}, collect w tools.policyFiles root = .ok files → file ∈ files →
      fileRecords { w with top := top' } tools.grammar file = fileRecords w tools.grammar file := fun hfiles hfile =>
    fileRecords_congr (read_adds hw hlinks hroot hreaches hadds hfiles hfile)
  constructor
  · intro R n hfound
    obtain ⟨files, lists, hfiles, hlists, heq⟩ := collectRecords_eq_ok_iff.1 hfound
    cases heq
    obtain ⟨files', hfiles'⟩ := hwalks.1 ⟨files, hfiles⟩
    obtain ⟨before, after, rfl, rfl, hbefore, hafter⟩ :=
      collect_adds hw hlinks hroot hreaches hw' hadds hskip hselects hfiles hfiles'
    obtain ⟨A, B, hA, hB, rfl⟩ := mapM_append_eq_ok_iff.1 hlists
    refine ⟨before, after, A, B, hfiles, hbefore, hafter, hA, hB, List.flatten_append, ?_⟩
    have hlists' : (before ++ root.below (front ++ [name]) :: after).mapM
        (fileRecords { w with top := top' } tools.grammar) = .ok (A ++ N :: B) := by
      refine mapM_append_eq_ok_iff.2 ⟨A, N :: B, ?_, ?_, rfl⟩
      · rw [← hA]
        exact mapM_congr (List.forall₂_same.2 fun file hfile => hsame hfiles (List.mem_append_left _ hfile))
      · rw [List.mapM_cons, hnew, mapM_congr (List.forall₂_same.2 fun file hfile =>
          hsame hfiles (List.mem_append_right _ hfile)), hB]
        rfl
    refine collectRecords_eq_ok_iff.2 ⟨_, _, hfiles', hlists', ?_⟩
    rw [List.flatten_append, List.flatten_cons, List.append_assoc, List.length_append, List.length_append,
      List.length_cons]
    rfl
  · rintro ⟨found, hfound⟩
    obtain ⟨files', lists, hfiles', hlists, _⟩ := collectRecords_eq_ok_iff.1 hfound
    obtain ⟨files, hfiles⟩ := hwalks.2 ⟨files', hfiles'⟩
    obtain ⟨before, after, rfl, rfl, _, _⟩ :=
      collect_adds hw hlinks hroot hreaches hw' hadds hskip hselects hfiles hfiles'
    obtain ⟨lists', hlists'⟩ := exists_mapM_eq_ok_iff.2 fun file (hfile : file ∈ before ++ after) => by
      have hfile' : file ∈ before ++ root.below (front ++ [name]) :: after :=
        (List.mem_append.1 hfile).elim (List.mem_append_left _) fun h => List.mem_append_right _ (.tail _ h)
      obtain ⟨records, _, hrecords⟩ := exists_of_mapM_eq_ok hlists hfile'
      exact ⟨records, (hsame hfiles hfile).symm.trans hrecords⟩
    exact ⟨_, collectRecords_eq_ok_iff.2 ⟨_, lists', hfiles, hlists', rfl⟩⟩

/-- Two policy files with a record each. -/
def pairEntries : Entries :=
  [("a.rego".toList, .file (Text.Utf8.encode "# D\n# @Kinds a/A\n".toList)),
    ("c.rego".toList, .file (Text.Utf8.encode "# D\n# @Kinds c/C\n".toList))]

def pairWorld : World where
  top := .directory pairEntries
  here := []

/-- The bytes of a third one. -/
def thirdBytes : List UInt8 := Text.Utf8.encode "# D\n# @Kinds b/B\n".toList

/-- The third one stands below two new directories, with names between those of the other two. -/
def grownTop : Node := pairWorld.top.put ["b".toList] (.chain ["d".toList, "z.rego".toList] (.file thirdBytes))

theorem collectRecords_adds_grown :
    ∃ A B : List (List Record),
      A.flatten ++ B.flatten = [⟨["a".toList], ["A".toList], "D".toList⟩, ⟨["c".toList], ["C".toList], "D".toList⟩] ∧
      collectRecords { pairWorld with top := grownTop } .plain (.ofText ".".toList) =
        .ok ⟨A.flatten ++ [⟨["b".toList], ["B".toList], "D".toList⟩] ++ B.flatten, 3⟩ := by
  have hfiles : collect pairWorld Tools.plain.policyFiles (.ofText ".".toList) =
      .ok [.ofText "a.rego".toList, .ofText "c.rego".toList] := by
    rw [@collect_eq_of_sorted _ _ _ pairEntries rfl (by decide) (by decide)]
    decide +kernel
  have hfound : collectRecords pairWorld .plain (.ofText ".".toList) =
      .ok ⟨[⟨["a".toList], ["A".toList], "D".toList⟩, ⟨["c".toList], ["C".toList], "D".toList⟩], 2⟩ :=
    collectRecords_eq_ok_iff.2 ⟨_, [[⟨["a".toList], ["A".toList], "D".toList⟩],
      [⟨["c".toList], ["C".toList], "D".toList⟩]], hfiles, by decide +kernel, rfl⟩
  have hw : pairWorld.top.WellFormed := .flat (by decide) (by decide) (by decide)
  have hw' : grownTop.WellFormed :=
    @Node.WellFormed.put "b".toList _ _ [] hw (by decide) (.chain (by decide) .file)
  have hadds : pairWorld.top.Adds grownTop ([] ++ (["b".toList, "d".toList] ++ ["z.rego".toList])) thirdBytes :=
    @Node.adds_put_chain "b".toList _ [] thirdBytes ["d".toList, "z.rego".toList] ⟨_, rfl⟩ rfl
  obtain ⟨hforward, _⟩ := @collectRecords_adds pairWorld (.ofText ".".toList) [] grownTop pairEntries
    ["b".toList, "d".toList] "z.rego".toList thirdBytes .plain
    [⟨["b".toList], ["B".toList], "D".toList⟩] hw (Node.not_hasLink_of_linkCount_eq_zero rfl (by decide)) rfl
    ⟨by decide, 0, Nat.zero_le _, .refl⟩ hw' hadds (by decide) (by decide +kernel) (fun _ _ _ => List.not_mem_nil)
    (by decide +kernel)
  obtain ⟨_, _, A, B, _, _, _, _, _, hold, hnew⟩ := hforward _ _ hfound
  exact ⟨A, B, hold.symm, hnew⟩

end PolicyTable.Policy
