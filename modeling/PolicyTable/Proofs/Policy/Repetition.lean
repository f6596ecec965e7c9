import PolicyTable.Proofs.Policy.Collection
import PolicyTable.Proofs.Policy.Rendering
import PolicyTable.Proofs.Policy.Replacement

/-!
# `PolicyTable.Proofs.Policy.Repetition` — a second run finds what the first one found

In a tree without links, a run whose document is no policy file changes the document and nothing else. The
temporary file is gone again, and the walk passes over the document. So a second run reads the same files,
writes the same text, and leaves the tree as it is.

## Contents
- **Plain sites.** `Site.IsPlain`: nothing stands in the way of a write. Then `Site.IsPlain.writeText_eq` says
  what the write does, and the site is plain again afterwards (`Site.IsPlain.exists_again`). Without links, a write
  that puts its document in place had a plain site (`Site.isPlain_of_write`).
- **Walk.** `collectEntry_of_linkless`: without links, an entry is collected by itself. So the walk passes over the
  document that has been written (`Site.IsPlain.collect_written`), and what it collects is read as before
  (`Site.IsPlain.read_written`).

Main statement: `document_again`.
-/

namespace PolicyTable.Policy

open FileSystem
open FileSystem.Node (HasDirectory HasLink Keeps)

variable {w w' : World} {output root : Path} {text : Text.CodePoints} {bytes : List UInt8} {tools : Tools} {o : Options}
  {name : Name} {node : Node} {d : Location} {entries : Entries} {files : List Path} {path : Path} {sel : Selection}

/-! ## Plain sites -/

namespace Site

/-- The write works on the document itself, the temporary file is not there, and the document is a file or not
    there either. -/
structure IsPlain (s : Site w output) : Prop where
  target_eq : s.target = output
  missing : w.top.at? s.temporaryEntry = none
  free_entry : w.top.Free s.entry

variable {s : Site w output}

theorem IsPlain.kindAt?_written (h : s.IsPlain) {l : Location} (hl : l ≠ s.entry) :
    (s.written bytes).top.kindAt? l = w.top.kindAt? l :=
  s.kindAt?_written h.free_entry hl

theorem IsPlain.keeps (h : s.IsPlain) : Keeps w.top (s.written bytes).top := Node.keeps_put h.free_entry

theorem IsPlain.missing_written (h : s.IsPlain) : (s.written bytes).top.at? s.temporaryEntry = none :=
  s.missing_written h.free_entry h.missing

theorem name?_target (s : Site w output) : s.target.name? = some s.name := by
  obtain ⟨front, _, hparts, _⟩ := s.names
  simp [Path.name?, hparts]

theorem target_not_parent (s : Site w output) : s.target.name?.all (· = parentName) = false := by
  rw [s.name?_target]
  simpa using (isOrdinary_iff.1 s.isOrdinary_name).1

/-- The world between the store and the renaming: the temporary file is there with the text. -/
def prepared (s : Site w output) (bytes : List UInt8) : World :=
  { w with top := w.top.put s.temporaryEntry (.file bytes) }

theorem IsPlain.store_eq (h : s.IsPlain) : w.store s.temporary bytes = .ok (s.prepared bytes) := by
  rw [World.store, if_neg (by simp [s.hasNul_eq]), s.locate_stored, stored_eq h.missing, h.missing, prepared]

theorem IsPlain.keeps_prepared (h : s.IsPlain) : Keeps w.top (s.prepared bytes).top :=
  Node.keeps_put (Node.free_of_missing h.missing)

/-- There is no directory at the entry of the document, also after the store. -/
theorem IsPlain.ne_directory_prepared (h : s.IsPlain) (entries : Entries) :
    (s.prepared bytes).top.at? s.entry ≠ some (.directory entries) := by
  intro hentries
  have hkind : (s.prepared bytes).top.kindAt? s.entry = w.top.kindAt? s.entry :=
    Node.kindAt?_put_file s.hasDirectory (Node.free_of_missing h.missing) s.entry_ne_temporaryEntry
  obtain ⟨_, hdir⟩ := Node.kindAt?_eq_directory_iff.1 (hkind ▸ Node.kindAt?_eq_directory_iff.2 ⟨entries, hentries⟩)
  obtain ⟨_, hfile⟩ := h.free_entry _ hdir
  cases hfile

theorem IsPlain.rename_prepared (h : s.IsPlain) :
    (s.prepared bytes).rename s.temporary s.target = .ok (s.written bytes) := by
  have htmp : (s.prepared bytes).top.at? s.temporaryEntry = some (.file bytes) := Node.at?_put_concat s.hasDirectory
  have hsource : (s.prepared bytes).locate .entry s.temporary = .ok (s.temporaryEntry, some (.file bytes)) := by
    rw [← htmp]
    exact s.locate_temporaryEntry_of_keeps rfl h.keeps_prepared
  have htarget : (s.prepared bytes).locate .entry s.target = .ok (s.entry, (s.prepared bytes).top.at? s.entry) :=
    s.locate_entry_of_keeps rfl h.keeps_prepared
  -- The temporary file was not there before, so that taking it away again undoes the store.
  have hundo : (s.prepared bytes).top.remove s.temporaryEntry = w.top := Node.remove_put s.hasDirectory h.missing
  rw [World.rename_eq hsource s.target_not_parent htarget h.ne_directory_prepared s.entry_ne_temporaryEntry, hundo]
  rfl

/-- **A write at a plain site puts the document where it belongs**, and nothing else remains of it, if all of the text
    is written. -/
theorem IsPlain.writeText_eq (h : s.IsPlain) (hall : w.content s.temporary text = (bytes, .ok ())) :
    writeText w output text = (s.written bytes, .ok ()) := by
  have hopened : Opened w output s.target s.temporary bytes (s.prepared bytes) :=
    ⟨s.targetOf_eq, s.temporaryOf_eq, s.opens, h.store_eq⟩
  have hreplace : (s.prepared bytes).replace s.temporary s.target = .ok (s.written bytes) :=
    World.replace_eq_ok_iff.2 ⟨s.admitted, h.rename_prepared⟩
  exact course_iff.1 (.replaced hopened hall hreplace)

/-- The document that has been written is its own target. -/
theorem IsPlain.targetOf_written (h : s.IsPlain) : targetOf (s.written bytes) output = .ok output := by
  have hhere : (s.written bytes).here = w.here := rfl
  have hentry : (s.written bytes).locate .entry s.target = .ok (s.entry, some (.file bytes)) := by
    rw [← s.at?_written]
    exact s.locate_entry_of_keeps hhere h.keeps
  rw [h.target_eq] at hentry
  unfold targetOf World.probe
  rw [hentry]
  by_cases hnul : output.hasNul = true
  · rw [if_pos hnul]
  · rw [if_neg hnul]

/-- **After a write the site is plain again.** -/
theorem IsPlain.exists_again (h : s.IsPlain) :
    ∃ s' : Site (s.written bytes) output, s'.IsPlain ∧ s'.entry = s.entry ∧ s'.temporary = s.temporary := by
  have hhere : (s.written bytes).here = w.here := rfl
  have hnames := s.names.keeps hhere h.keeps
  have hmissing : (s.written bytes).top.at? s.temporaryEntry = none := h.missing_written
  have hstored : (s.written bytes).locate .file s.temporary =
      .ok (s.temporaryEntry, (s.written bytes).top.at? s.temporaryEntry) := by
    obtain ⟨links, hlocate⟩ := (names_temporaryOf hnames s.temporaryOf_eq).locate_eq s.isLong_eq
      (isOrdinary_iff.1 s.isOrdinary_temporary).2.2.1
    rw [hlocate, hmissing, resolve_missing s.isOrdinary_temporary hmissing]
    rfl
  have htmp := s.temporaryOf_eq
  have hadmitted : (s.written bytes).refuses (.renaming s.temporary s.target) = none := s.admitted
  rw [h.target_eq] at hnames htmp hadmitted
  let s' : Site (s.written bytes) output :=
    { s with
      target := output, stored := s.temporaryEntry
      targetOf_eq := h.targetOf_written
      temporaryOf_eq := htmp
      names := hnames
      hasDirectory := h.keeps.hasDirectory s.hasDirectory
      opens := ⟨s.opens.encodable, s.opens.hasNul_eq, s.opens.admitted⟩, admitted := hadmitted
      locate_stored := hstored, free := Node.free_of_missing hmissing }
  refine ⟨s', ⟨rfl, hmissing, fun node hnode => ?_⟩, rfl, rfl⟩
  rw [show s'.entry = s.entry from rfl, s.at?_written, Option.some.injEq] at hnode
  exact ⟨bytes, hnode.symm⟩

/-- **Writing the same text again changes nothing.** -/
theorem IsPlain.writeText_written (h : s.IsPlain) (hall : w.content s.temporary text = (bytes, .ok ())) :
    writeText (s.written bytes) output text = (s.written bytes, .ok ()) := by
  obtain ⟨s', hplain, hentry, htemporary⟩ :
      ∃ s' : Site (s.written bytes) output, s'.IsPlain ∧ s'.entry = s.entry ∧ s'.temporary = s.temporary := h.exists_again
  have hall' : (s.written bytes).content s'.temporary text = (bytes, .ok ()) := by
    rw [htemporary, ← hall]
    rfl
  rw [hplain.writeText_eq hall', written, hentry, written, Node.put_put]

/-- Without links, the file to replace is the document itself. -/
theorem target_eq_of_linkless (s : Site w output) (hlinks : ∀ l, ¬ w.top.HasLink l) : s.target = output := by
  rcases eq_of_targetOf s.targetOf_eq with ⟨⟨t, ht⟩, _⟩ | ⟨htarget, _⟩
  · obtain ⟨_, m, hplace⟩ := World.locate_of_probe ht
    exact absurd ⟨t, (World.leads_of_locate hplace).2.1.symm⟩ (hlinks m)
  · exact htarget

/-- Without links, a write works on a plain site if there is no temporary file. -/
theorem isPlain_of_write (s : Site w output) (hlinks : ∀ l, ¬ w.top.HasLink l)
    (htmp : ∀ node, w.probe .entry s.temporary ≠ .ok (some node))
    (hdir : ¬ (s.withStored bytes).HasDirectory s.entry) : s.IsPlain := by
  have hmissing : w.top.at? s.temporaryEntry = none := by
    rw [Option.eq_none_iff_forall_ne_some]
    intro node hnode
    refine htmp node ?_
    rw [World.probe, if_neg (by simp [s.hasNul_eq]), s.locate_temporaryEntry, hnode]
  refine ⟨s.target_eq_of_linkless hlinks, hmissing, fun node hnode => ?_⟩
  cases node with
  | file old => exact ⟨old, rfl⟩
  | link target => exact absurd ⟨target, hnode⟩ (hlinks _)
  | directory entries =>
      refine absurd ?_ hdir
      rw [← Node.kindAt?_eq_directory_iff, withStored, stored_eq hmissing, temporaryEntry,
        Node.kindAt?_put_file s.hasDirectory (Node.free_of_missing hmissing) s.entry_ne_temporaryEntry]
      exact Node.kindAt?_eq_directory_iff.2 ⟨entries, hnode⟩

end Site

/-! ## Walk -/

theorem not_hasLink_of_mem (hd : (entries.map Prod.fst).Nodup) (hlinks : ∀ l, ¬ (Node.directory entries).HasLink l)
    {e : Name × Node} (he : e ∈ entries) : ∀ l, ¬ e.2.HasLink l := by
  rintro l ⟨target, ht⟩
  refine hlinks (e.1 :: l) ⟨target, ?_⟩
  rw [Node.at?_directory_cons, (Entries.get?_eq_some_iff hd).2 he]
  exact ht

theorem collectEach_congr (h : ∀ e ∈ entries, collectEntry w sel path e = collectEntry w' sel path e) :
    collectEach w sel path entries = collectEach w' sel path entries := by
  rw [collectEach_eq_map, collectEach_eq_map]
  exact List.map_congr_left fun e he => congrArg (Prod.mk e.1) (h e he)

/-- Without links, what an entry gives depends on nothing but the entry and on what can be listed. -/
theorem collectEntry_of_linkless (h : w.unlistable = w'.unlistable) (hw : node.WellFormed)
    (hlinks : ∀ l, ¬ node.HasLink l) : collectEntry w sel path (name, node) = collectEntry w' sel path (name, node) := by
  induction node using Node.induction generalizing path name with
  | file bytes => rw [collectEntry, collectEntry]
  | link target => exact absurd ⟨target, rfl⟩ (hlinks [])
  | directory sub ih =>
      cases hw with
      | directory hd hnames hnodes =>
          have hsame : collectEach w sel (path.child name) sub = collectEach w' sel (path.child name) sub :=
            collectEach_congr fun e he => ih e he (hnodes e he) (not_hasLink_of_mem hd hlinks he)
          rw [collectEntry, collectEntry, listed, listed, h, hsame]

namespace Site.IsPlain

variable {s : Site w (root.child name)}

/-- The document is an entry of the directory at the root. -/
theorem entry_eq (h : s.IsPlain) (hreaches : w.Reaches root d) : s.entry = d ++ [name] := by
  have hnames := s.names
  rw [h.target_eq] at hnames
  obtain ⟨hdirectory, hname⟩ := hnames.unique (hreaches.names name)
  rw [Site.entry, hdirectory, hname]

theorem name_eq (h : s.IsPlain) : s.name = name := by
  have hname := s.name?_target
  rw [h.target_eq, Path.name?_child, Option.some.injEq] at hname
  exact hname.symm

/-- A file with the name of the document gives nothing, since its name is not selected. -/
theorem collectEntry_document (h : s.IsPlain) (hselects : sel.selects name = false)
    (w' : World) (bytes : List UInt8) : collectEntry w' sel root (name, .file bytes) = .ok [] := by
  have hlong := s.isLong_target
  rw [h.target_eq] at hlong
  have hshort := (isOrdinary_iff.1 (h.name_eq ▸ s.isOrdinary_name)).2.2.2
  rw [collectEntry, isOverlong, hlong, hshort, hselects]
  rfl

/-- **The walk passes over the document.** -/
theorem collect_written (h : s.IsPlain) (hw : w.top.WellFormed) (hlinks : ∀ l, ¬ w.top.HasLink l)
    (hroot : w.probe .node root = .ok (some (.directory entries))) (hselects : sel.selects name = false) :
    collect (s.written bytes) sel root = collect w sel root := by
  obtain ⟨d, hreaches, hd⟩ := World.exists_reaches hroot
  have hentry : s.entry = d ++ [name] := h.entry_eq hreaches
  have hroot' : (s.written bytes).probe .node root = .ok (some (.directory (entries.put name (.file bytes)))) := by
    obtain ⟨hnul, hlong, _⟩ := World.probe_eq_some_iff.1 hroot
    obtain ⟨n, hn, hwalk⟩ := hreaches.walks
    refine World.probe_eq_some_iff.2 ⟨hnul, hlong, d, ⟨n, hn, (hwalk.keeps h.keeps).leads⟩, ?_⟩
    rw [Site.written, hentry]
    exact Node.at?_put_append hd (by simp)
  cases hw.at? hd with
  | directory hnodup hnames hnodes =>
      have hlinks' : ∀ l, ¬ (Node.directory entries).HasLink l := by
        rintro l ⟨target, ht⟩
        exact hlinks (d ++ l) ⟨target, by rw [Node.at?_append, hd]; exact ht⟩
      have hsame : collectEach (s.written bytes) sel root entries = collectEach w sel root entries :=
        collectEach_congr fun e he =>
          collectEntry_of_linkless rfl (hnodes e he) (not_hasLink_of_mem hnodup hlinks' he)
      have hold : ∀ old, entries.get? name = some old → collectEntry (s.written bytes) sel root (name, old) = .ok [] := by
        intro old hget
        have hat : w.top.at? s.entry = some old := by
          rw [hentry, Node.at?_append, hd, Option.bind_some, Node.at?_directory_cons, hget, Option.bind_some,
            Node.at?_nil]
        obtain ⟨bytes', rfl⟩ := h.free_entry old hat
        exact h.collectEntry_document hselects _ _
      rw [collect, collect, hroot, hroot']
      dsimp only
      rw [listed, listed, listing_put hnodup (h.collectEntry_document hselects _ _) hold, hsame]
      rfl

/-- **The policy files are read as before.** -/
theorem read_written (h : s.IsPlain) (hw : w.top.WellFormed) (hlinks : ∀ l, ¬ w.top.HasLink l)
    (hselects : sel.selects name = false) (hfiles : collect w sel root = .ok files) {file : Path}
    (hfile : file ∈ files) {old : List UInt8} (hread : w.read file = .ok old) :
    (s.written bytes).read file = .ok old := by
  obtain ⟨entries, hroot⟩ := exists_entries_of_collect hfiles
  obtain ⟨d, hreaches, hd⟩ := World.exists_reaches hroot
  have hA := @collect_answers w sel root entries hw hroot
  rw [hfiles] at hA
  obtain ⟨⟨found, rfl, _, hfound⟩, _⟩ := hA
  obtain ⟨names, hnames, rfl⟩ := List.mem_map.1 hfile
  obtain ⟨front, last, node, rfl, _, hnode, _, hlast⟩ := (hfound names).1 hnames
  refine World.read_keeps hread rfl h.keeps fun m hfinds hm => ?_
  obtain ⟨rfl, _⟩ := hreaches.of_finds hfinds hlinks fun x hx => (hw.at? hd).isEntryName hnode hx
  -- The last name of a policy file is selected, so the file is not the document.
  have hne : d ++ (front ++ [last]) ≠ s.entry := by
    rw [h.entry_eq hreaches]
    intro heq
    have hsame : front ++ [last] = [] ++ [name] := List.append_cancel_left heq
    obtain ⟨_, hlast'⟩ := List.append_inj' hsame rfl
    rw [List.cons.inj hlast' |>.1, hselects] at hlast
    cases hlast
  rw [← Node.kindAt?_eq_file_iff, h.kindAt?_written hne]
  exact Node.kindAt?_eq_file_iff.2 hm

/-- **A second run finds the same records.** -/
theorem collectRecords_written (h : s.IsPlain) (hw : w.top.WellFormed) (hlinks : ∀ l, ¬ w.top.HasLink l)
    (hselects : tools.policyFiles.selects name = false) {found : Findings}
    (hfound : collectRecords w tools root = .ok found) :
    collectRecords (s.written bytes) tools root = .ok found := by
  obtain ⟨files, lists, hfiles, hlists, rfl⟩ := collectRecords_eq_ok_iff.1 hfound
  obtain ⟨entries, hroot⟩ := exists_entries_of_collect hfiles
  refine collectRecords_eq_ok_iff.2 ⟨files, lists, ?_, ?_, rfl⟩
  · rw [h.collect_written hw hlinks hroot hselects, hfiles]
  · rw [← hlists]
    refine mapM_congr (List.forall₂_same.2 fun file hfile => ?_)
    obtain ⟨records, _, hrecords⟩ := exists_of_mapM_eq_ok hlists hfile
    obtain ⟨source, ⟨old, text, hread, htext⟩, haccepted⟩ := fileRecords_eq_ok_iff.1 hrecords
    have hread' : (s.written bytes).read file = .ok old := h.read_written hw hlinks hselects hfiles hfile hread
    rw [hrecords]
    exact fileRecords_eq_ok_iff.2 ⟨source, ⟨old, text, hread', htext⟩, haccepted⟩

end Site.IsPlain

/-! ## Runs -/

/-- A name that counts and has no slash in it is the name of an entry of the root. -/
theorem outputPath_eq (hpart : isPart o.output = true) (hslash : '/' ∉ o.output) :
    o.outputPath = o.root.child o.output := by
  have hsplit : Text.split '/' o.output = [o.output] := by
    have hpieces : ∀ piece ∈ [o.output], '/' ∉ piece := by simpa using hslash
    simpa using Text.split_intercalate hpieces (by simp)
  have hparts : partsOf o.output = [o.output] := by simp [partsOf, hsplit, hpart]
  have hanchor : Anchor.ofText o.output = .relative := by
    cases houtput : o.output with
    | nil => rfl
    | cons c r =>
        have hc : c ≠ '/' := fun hc => hslash (by simp [houtput, hc])
        simp [Anchor.ofText, hc]
  rw [Options.outputPath, Path.ofText, hparts, hanchor]
  rfl

/-- **A second run changes nothing.** In a tree without links, for a document that is no policy file and whose
    temporary file is not there: a run that succeeds puts the document into the directory at the root, as a file with
    the bytes of the text that is rendered, and leaves everything else as it was. Its summary has the number of
    collected files and of the rows of the document. A second run succeeds with the same summary and leaves the world
    as it is. -/
theorem document_again {summary : Summary} (hw : w.top.WellFormed) (hlinks : ∀ l, ¬ w.top.HasLink l)
    (hpart : isPart o.output = true) (hslash : '/' ∉ o.output) (hselects : tools.policyFiles.selects o.output = false)
    (htmp : ∀ node, w.probe .entry (o.root.child (o.output ++ ".tmp".toList)) ≠ .ok (some node))
    (h : document w tools o = (w', .ok summary)) :
    ∃ d text files, w.locate .node o.root = .ok (d, w.top.at? d) ∧ w.top.HasDirectory d ∧
      renderDocument w tools o.root = .ok text ∧ collect w tools.policyFiles o.root = .ok files ∧
      w'.top.at? (d ++ [o.output]) = some (.file (Text.Utf8.encode text)) ∧
      (∀ l, l ≠ d ++ [o.output] → w'.top.kindAt? l = w.top.kindAt? l) ∧
      w'.here = w.here ∧ w'.unlistable = w.unlistable ∧
      summary = ⟨o.root.child o.output, files.length, (Annotations.dataRows text).length⟩ ∧
      document w' tools o = (w', .ok summary) := by
  obtain ⟨found, hfound, hwrite, rfl⟩ := document_eq_ok_iff.1 h
  rw [outputPath_eq hpart hslash] at hwrite
  obtain ⟨s, bytes, node, hall, _, _, hdir, _⟩ := exists_site hwrite
  obtain rfl := eq_encode_of_content hall
  have htemporary : s.temporary = o.root.child (o.output ++ temporarySuffix) := by
    have heq := s.temporaryOf_eq
    rw [s.target_eq_of_linkless hlinks, temporaryOf, Path.name?_child, Path.withName?_child] at heq
    exact (Except.ok.inj heq).symm
  have hplain : s.IsPlain := s.isPlain_of_write hlinks (htemporary ▸ htmp) hdir
  obtain rfl : w' = s.written (Text.Utf8.encode (Annotations.document found.records)) := by
    rw [writeDocument, hplain.writeText_eq hall] at hwrite
    exact (congrArg Prod.fst hwrite).symm
  obtain ⟨files, lists, hfiles, _, hcount⟩ := collectRecords_eq_ok_iff.1 hfound
  obtain ⟨entries, hroot⟩ := exists_entries_of_collect hfiles
  obtain ⟨d, hreaches, hd⟩ := World.exists_reaches hroot
  have hentry : s.entry = d ++ [o.output] := hplain.entry_eq hreaches
  refine ⟨d, _, files, ?_, ⟨entries, hd⟩, renderDocument_eq_ok_iff.2 ⟨found, hfound, rfl⟩, hfiles, ?_, ?_, rfl, rfl,
    ?_, ?_⟩
  · exact hreaches.finds.locate_eq (World.probe_eq_some_iff.1 hroot).2.1
  · rw [← hentry]
    exact s.at?_written
  · intro l hl
    exact hplain.kindAt?_written (hentry ▸ hl)
  · rw [outputPath_eq hpart hslash, Annotations.dataRows_document (tidy_of_collectRecords hfound), List.length_map,
      hcount]
  · refine document_eq_ok_iff.2 ⟨found, hplain.collectRecords_written hw hlinks hselects hfound, ?_, rfl⟩
    rw [outputPath_eq hpart hslash]
    exact hplain.writeText_written hall

/-- A policy file with a record and one in a directory below, beside a document from before. -/
def twiceEntries : Entries :=
  [("a.rego".toList, .file (Text.Utf8.encode "# D\n# @Kinds a/B\n".toList)),
    ("b".toList, .directory [("c.rego".toList, .file [])]),
    ("policies.md".toList, .file (Text.Utf8.encode "old\n".toList))]

def twiceWorld : World where
  top := .directory twiceEntries
  here := []

def twiceOptions : Options := { root := .ofText ".".toList }

theorem wellFormed_twiceWorld : twiceWorld.top.WellFormed := by
  refine .directory (by decide) (by decide) ?_
  simp only [twiceEntries, List.forall_mem_cons, List.not_mem_nil, false_imp_iff, implies_true, and_true]
  exact ⟨.file, .flat (by decide) (by decide) (by decide), .file⟩

/-- What is found there. -/
theorem collectRecords_twiceWorld :
    collect twiceWorld Tools.plain.policyFiles twiceOptions.root =
        .ok [.ofText "a.rego".toList, .ofText "b/c.rego".toList] ∧
      collectRecords twiceWorld .plain twiceOptions.root =
        .ok ⟨[⟨["a".toList], ["B".toList], "D".toList⟩], 2⟩ := by
  have hfiles : collect twiceWorld Tools.plain.policyFiles twiceOptions.root =
      .ok [.ofText "a.rego".toList, .ofText "b/c.rego".toList] := by
    rw [@collect_eq_of_sorted _ _ _ twiceEntries rfl (by decide) (by decide)]
    decide +kernel
  exact ⟨hfiles, collectRecords_eq_ok_iff.2
    ⟨_, [[⟨["a".toList], ["B".toList], "D".toList⟩], []], hfiles, by decide +kernel, rfl⟩⟩

theorem document_again_twice :
    ∃ w', document twiceWorld .plain twiceOptions = (w', .ok ⟨.ofText "policies.md".toList, 2, 1⟩) ∧
      document w' .plain twiceOptions = (w', .ok ⟨.ofText "policies.md".toList, 2, 1⟩) := by
  have hdocument := document_of_written (o := twiceOptions) collectRecords_twiceWorld.2 (by decide +kernel)
  obtain ⟨_, _, _, _, _, _, _, _, _, _, _, _, hagain⟩ := document_again wellFormed_twiceWorld
    (Node.not_hasLink_of_linkCount_eq_zero rfl (by decide)) (by decide) (by decide) (by decide +kernel)
    (fun node hnode => by cases hnode) hdocument
  exact ⟨_, hdocument, hagain⟩

end PolicyTable.Policy
