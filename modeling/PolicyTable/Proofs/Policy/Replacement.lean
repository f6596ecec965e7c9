import PolicyTable.Proofs.Policy.Storing

/-!
# `PolicyTable.Proofs.Policy.Replacement` — where a write that succeeds has worked

A write works in one directory. It stores the temporary file under its name there, or elsewhere if a link has that
name, and then moves the entry of that name to the entry of the document. So it works at three locations, and
all of them can be told before it starts. It succeeds only if the system lets it open the one file and rename it to
the other, and if all of the text has been written.

## Contents
- **Renaming.** `World.eq_of_rename`, what a renaming that succeeds has done.
- **Places.** `Site`: the directory, the two names and the location of the stored file.
- **Writing.** `exists_site`: a write that succeeds has a site, and the tree is changed at its locations only.
-/

namespace PolicyTable.FileSystem.World

open Node (HasDirectory)

variable {w w' : World} {p source target : Path} {d d' m : Location} {name name' : Name} {node? : Option Node}

/-! ## Renaming -/

/-- A renaming that succeeds has moved an entry to another one that is no directory. -/
theorem eq_of_rename (h : w.rename source target = .ok w') :
    ∃ old node new node?, w.locate .entry source = .ok (old, some node) ∧
      target.name?.all (· = parentName) = false ∧ w.locate .entry target = .ok (new, node?) ∧
      (∀ entries, node? ≠ some (.directory entries)) ∧
      (new ≠ old → w' = { w with top := (w.top.remove old).put new node }) := by
  unfold rename at h
  split at h
  · cases h
  · cases h
  · rename_i old node hsource
    dsimp only at h
    split at h
    · cases h
    · rename_i hbusy
      split at h
      · cases h
      · cases h
      · rename_i new node? hnode htarget
        refine ⟨old, node, new, node?, hsource, by simpa using hbusy, htarget, ?_, fun hne => ?_⟩
        · rintro entries rfl
          exact hnode entries rfl
        · rw [if_neg hne] at h
          exact (Except.ok.inj h).symm

/-- An entry is moved to another one that is no directory. -/
theorem rename_eq {old new : Location} {node : Node} (hsource : w.locate .entry source = .ok (old, some node))
    (hname : target.name?.all (· = parentName) = false) (htarget : w.locate .entry target = .ok (new, node?))
    (hnode : ∀ entries, node? ≠ some (.directory entries)) (hne : new ≠ old) :
    w.rename source target = .ok { w with top := (w.top.remove old).put new node } := by
  unfold rename
  rcases node? with _ | (_ | _ | entries)
  · simp only [hsource, hname, htarget, if_neg hne, Bool.false_eq_true, if_false]
  · simp only [hsource, hname, htarget, if_neg hne, Bool.false_eq_true, if_false]
  · simp only [hsource, hname, htarget, if_neg hne, Bool.false_eq_true, if_false]
  · exact absurd rfl (hnode entries)

theorem Names.unique (h : w.Names p d name) (h' : w.Names p d' name') : d = d' ∧ name = name' := by
  obtain ⟨front, n, hparts, _, hw⟩ := h
  obtain ⟨front', n', hparts', _, hw'⟩ := h'
  obtain ⟨rfl, hname⟩ := List.append_inj' (hparts.symm.trans hparts') rfl
  exact ⟨hw.eq_of_nil hw', by simpa using hname⟩

/-- The name of an entry that is found and is no directory is ordinary. -/
theorem Names.isOrdinary_of_locate (h : w.Names p d name) (hd : w.top.HasDirectory d) (hp : name ≠ parentName)
    (hplace : w.locate .entry p = .ok (m, node?)) (hnode : ∀ entries, node? ≠ some (.directory entries)) :
    isOrdinary name = true := by
  obtain ⟨front, n, hparts, hn, hwalk⟩ := h
  obtain ⟨_, rfl, _, _, hleads⟩ := World.leads_of_locate hplace
  rw [hparts] at hleads
  obtain ⟨_, _, e, _, hwalk', f, left, hlast, hends⟩ := hleads.of_append (by simp)
  obtain rfl := hwalk.eq_of_nil hwalk'
  cases hlast with
  | refl =>
      cases hends with
      | entry ho => exact ho
  | head hop hrest =>
      cases hop with
      | parent => exact absurd rfl hp
      | directory ho => exact ho
      | link ho => exact ho
      | self =>
          -- The name of the directory itself leads to the directory, which has been refused.
          cases hrest with
          | head hop _ => cases hop
          | refl =>
              cases hends
              obtain ⟨entries, hentries⟩ := hd
              exact absurd hentries (hnode entries)

end PolicyTable.FileSystem.World

namespace PolicyTable.Policy

open FileSystem
open FileSystem.Node (Keeps)

variable {w w' : World} {output : Path} {text : Text.CodePoints}

/-! ## Places -/

/-- The places that a write at a path works at, where the system lets it. The temporary file lies beside the file to
    replace, and what is stored at its path is stored where there is no directory and no link. -/
structure Site (w : World) (output : Path) where
  target : Path
  temporary : Path
  directory : Location
  name : Name
  stored : Location
  targetOf_eq : targetOf w output = .ok target
  temporaryOf_eq : temporaryOf target = .ok temporary
  names : w.Names target directory name
  hasDirectory : w.top.HasDirectory directory
  isLong_eq : temporary.isLong = false
  opens : w.Opens temporary
  admitted : w.refuses (.renaming temporary target) = none
  isOrdinary_name : isOrdinary name = true
  isOrdinary_temporary : isOrdinary (name ++ temporarySuffix) = true
  locate_stored : w.locate .file temporary = .ok (stored, w.top.at? stored)
  free : w.top.Free stored

namespace Site

/-- The entry of the document. -/
def entry (s : Site w output) : Location := s.directory ++ [s.name]

/-- The entry of the temporary file. -/
def temporaryEntry (s : Site w output) : Location := s.directory ++ [s.name ++ temporarySuffix]

theorem hasNul_eq (s : Site w output) : s.temporary.hasNul = false := s.opens.hasNul_eq

theorem entry_ne_temporaryEntry (s : Site w output) : s.entry ≠ s.temporaryEntry := by
  intro h
  have hnames : s.name = s.name ++ temporarySuffix := by simpa [entry, temporaryEntry] using h
  have hlength := length_temporaryName s.name
  rw [← hnames] at hlength
  omega

theorem isLong_target (s : Site w output) : s.target.isLong = false :=
  isLong_of_temporaryOf s.names s.temporaryOf_eq s.isLong_eq

theorem names_temporary (s : Site w output) : w.Names s.temporary s.directory (s.name ++ temporarySuffix) :=
  names_temporaryOf s.names s.temporaryOf_eq

theorem locate_entry (s : Site w output) : w.locate .entry s.target = .ok (s.entry, w.top.at? s.entry) :=
  s.names.locate_entry s.isLong_target s.isOrdinary_name

theorem locate_temporaryEntry (s : Site w output) :
    w.locate .entry s.temporary = .ok (s.temporaryEntry, w.top.at? s.temporaryEntry) :=
  s.names_temporary.locate_entry s.isLong_eq s.isOrdinary_temporary

/-- A change that keeps the directories and the links keeps the place of the document. -/
theorem locate_entry_of_keeps (s : Site w output) (hhere : w'.here = w.here) (hkeeps : Keeps w.top w'.top) :
    w'.locate .entry s.target = .ok (s.entry, w'.top.at? s.entry) :=
  (s.names.keeps hhere hkeeps).locate_entry s.isLong_target s.isOrdinary_name

/-- A change that keeps the directories and the links keeps the place of the temporary file. -/
theorem locate_temporaryEntry_of_keeps (s : Site w output) (hhere : w'.here = w.here)
    (hkeeps : Keeps w.top w'.top) :
    w'.locate .entry s.temporary = .ok (s.temporaryEntry, w'.top.at? s.temporaryEntry) :=
  (s.names_temporary.keeps hhere hkeeps).locate_entry s.isLong_eq s.isOrdinary_temporary

theorem storedAt (s : Site w output) : w.StoredAt s.temporary s.directory (s.name ++ temporarySuffix) s.stored where
  names := s.names_temporary
  hasDirectory := s.hasDirectory
  isLong_eq := s.isLong_eq
  hasNul_eq := s.hasNul_eq
  isOrdinary_name := s.isOrdinary_temporary
  locate_file := s.locate_stored
  free := s.free

/-- The tree with the temporary file stored. -/
def withStored (s : Site w output) (bytes : List UInt8) : Node := w.top.put s.stored (.file bytes)

/-- A temporary file that is not there is stored under its own name. -/
theorem stored_eq {s : Site w output} (h : w.top.at? s.temporaryEntry = none) : s.stored = s.temporaryEntry :=
  s.storedAt.eq_of_missing h

/-- The world with a file as the document. -/
def written (s : Site w output) (bytes : List UInt8) : World := { w with top := w.top.put s.entry (.file bytes) }

theorem at?_written {bytes : List UInt8} (s : Site w output) : (s.written bytes).top.at? s.entry = some (.file bytes) :=
  Node.at?_put_concat s.hasDirectory

theorem kindAt?_written {bytes : List UInt8} {l : Location} (s : Site w output) (hfree : w.top.Free s.entry)
    (hl : l ≠ s.entry) : (s.written bytes).top.kindAt? l = w.top.kindAt? l :=
  Node.kindAt?_put_file s.hasDirectory hfree hl

/-- The document does not take the place of its temporary file. -/
theorem missing_written {bytes : List UInt8} (s : Site w output) (hfree : w.top.Free s.entry)
    (hmissing : w.top.at? s.temporaryEntry = none) : (s.written bytes).top.at? s.temporaryEntry = none := by
  have hkind : (s.written bytes).top.kindAt? s.temporaryEntry = w.top.kindAt? s.temporaryEntry :=
    s.kindAt?_written hfree s.entry_ne_temporaryEntry.symm
  rwa [Node.kindAt?, Node.kindAt?, hmissing, Option.map_none, Option.map_eq_none_iff] at hkind

end Site

/-! ## Writing -/

/-- The bytes of a text of characters are those that have been written. -/
theorem eq_encode_of_content {p : Path} {t : Text} {bytes : List UInt8}
    (h : w.content p (.ofText t) = (bytes, .ok ())) :
    bytes = Text.Utf8.encode t := by
  obtain ⟨hencode, _⟩ := World.content_eq_ok_iff.1 h
  rw [Text.CodePoints.encode_ofText] at hencode
  exact (Except.ok.inj hencode).symm

/-- **A write that succeeds has a site.** It has stored all of the text and moved the entry of the temporary
    file, which is no directory, to that of the document, which is none either. -/
theorem exists_site (h : writeText w output text = (w', .ok ())) :
    ∃ (s : Site w output) (bytes : List UInt8) (node : Node), w.content s.temporary text = (bytes, .ok ()) ∧
      (s.withStored bytes).at? s.temporaryEntry = some node ∧ node.isDirectory = false ∧
      ¬ (s.withStored bytes).HasDirectory s.entry ∧
      w' = { w with top := ((s.withStored bytes).remove s.temporaryEntry).put s.entry node } := by
  cases course_iff.2 h with
  | @replaced target temporary bytes w₁ _ opened all replace_eq =>
  obtain ⟨hadmitted, hrename⟩ := World.replace_eq_ok_iff.1 replace_eq
  rw [opened.refuses_eq] at hadmitted
  obtain ⟨d, last, hnames, ⟨hsource, rfl⟩ | ⟨stored, hstored, hstep⟩⟩ := opened.storedAt
  · -- Nothing has been stored, so that there is nothing to rename.
    rw [World.rename_missing hsource] at hrename
    cases hrename
  · obtain ⟨old, node, new, node?, hsource, hbusy, htgt, hnodir, hw'⟩ := World.eq_of_rename hrename
    have hhere : w₁.here = w.here := by rw [hstep]
    have hkeeps : Keeps w.top w₁.top := hstep ▸ hstored.keeps
    have hlast : isOrdinary last = true := by
      refine (hnames.keeps hhere hkeeps).isOrdinary_of_locate (hkeeps.hasDirectory hstored.hasDirectory) ?_ htgt hnodir
      rintro rfl
      obtain ⟨front, _, hparts, _⟩ := hnames
      simp [Path.name?, hparts] at hbusy
    rw [hstored.locate_entry hhere hkeeps] at hsource
    rw [(hnames.keeps hhere hkeeps).locate_entry (isLong_of_temporaryOf hnames opened.temporaryOf_eq hstored.isLong_eq)
      hlast] at htgt
    obtain ⟨rfl, hat⟩ := Prod.mk.inj (Except.ok.inj hsource)
    obtain ⟨rfl, rfl⟩ := Prod.mk.inj (Except.ok.inj htgt)
    subst hstep
    let s : Site w output :=
      { target, temporary, stored, directory := d, name := last, targetOf_eq := opened.targetOf_eq
        temporaryOf_eq := opened.temporaryOf_eq, names := hnames, hasDirectory := hstored.hasDirectory
        isLong_eq := hstored.isLong_eq, opens := opened.opens, admitted := hadmitted, isOrdinary_name := hlast
        isOrdinary_temporary := hstored.isOrdinary_name, locate_stored := hstored.locate_file, free := hstored.free }
    refine ⟨s, bytes, node, all, hat, ?_, ?_, hw' s.entry_ne_temporaryEntry⟩
    · cases node with
      | file bytes => rfl
      | link target => rfl
      | directory entries => exact absurd ⟨entries, hat⟩ hstored.not_hasDirectory_put
    · rintro ⟨entries, hdir⟩
      exact hnodir entries hdir

/-- A run that succeeds has collected records and written their document. -/
theorem document_eq_ok_iff {tools : Tools} {o : Options} {summary : Summary} :
    document w tools o = (w', .ok summary) ↔
      ∃ found, collectRecords w tools o.root = .ok found ∧
        writeDocument w o.outputPath (Annotations.document found.records) = (w', .ok ()) ∧
        summary = ⟨o.outputPath, found.fileCount, found.records.length⟩ := by
  unfold document
  cases hfound : collectRecords w tools o.root with
  | error stop => simp
  | ok found =>
      simp only [Except.ok.injEq, exists_eq_left', Prod.mk.injEq]
      rcases hwritten : writeDocument w o.outputPath (Annotations.document found.records) with ⟨w₁, stop | _⟩
      · simp [Except.map]
      · simp [Except.map, eq_comm]

/-- A run succeeds if it collects records and their document is written. -/
theorem document_of_written {tools : Tools} {o : Options} {found : Findings}
    (hfound : collectRecords w tools o.root = .ok found)
    (hwrite : (writeDocument w o.outputPath (Annotations.document found.records)).2 = .ok ()) :
    document w tools o = ((writeDocument w o.outputPath (Annotations.document found.records)).1,
      .ok ⟨o.outputPath, found.fileCount, found.records.length⟩) :=
  document_eq_ok_iff.2 ⟨found, hfound, Prod.ext rfl hwrite, rfl⟩

end PolicyTable.Policy
