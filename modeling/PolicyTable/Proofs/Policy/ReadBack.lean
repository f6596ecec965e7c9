import PolicyTable.Proofs.FileSystem.Moved
import PolicyTable.Proofs.Policy.WriteThrough
import PolicyTable.Proofs.Text.Utf8

/-!
# `PolicyTable.Proofs.Policy.ReadBack` — reading policy files, and reading what has been written

The text of a policy file is what its bytes write, with its line ends unified; other bytes are reported. A text is
written as its bytes, so it is read back up to its line ends.

What is read at the path of a document after a write is the text that has been written, if anything is read there.
There is one way to lose it, although the write succeeds. If the path of the temporary file is a link that leads to
the document, the text goes there, and then the link takes its place and leads to itself.

## Contents
- **Reading.** What a policy file is read as (`readPolicy_eq_ok_iff_writesText`), and when it is reported
  (`exists_readPolicy_eq_failed`).
- **Sites.** `Site.moved`: a write that succeeds stores a file and moves an entry. `Site.bytes_of_read`,
  `Site.read_of_moved_file` and `Site.exists_read_iff` say what is read after that.
- **Writing.** `LeadsBack`; `read_written_eq` and `exists_read_written_iff`. `Lasting` is enough for a document to be
  read.

Main statement: `readPolicy_back`, with `writeDocument_lost` for a document that is lost.
-/

namespace PolicyTable

namespace FileSystem

open Node (HasDirectory)

variable {top : Node} {aim : Aim} {l m : Location} {names : List Name} {n : Nat}

/-- A way to a directory goes along all of its names. -/
theorem Leads.walks_of_hasDirectory (h : Leads top aim l names n m) (hm : top.HasDirectory m) :
    Walks top l names n m [] := by
  obtain ⟨e, left, hwalk, hends⟩ := h
  cases hends with
  | here => exact hwalk
  | entry _ hd => exact absurd hm hd

/-- A way from a directory to something else ends at an entry of a directory. -/
theorem Leads.exists_entry (h : Leads top aim l names n m) (hl : top.HasDirectory l) (hm : ¬ top.HasDirectory m) :
    ∃ d x, m = d ++ [x] ∧ top.HasDirectory d := by
  obtain ⟨e, left, hwalk, hends⟩ := h
  cases hends with
  | here => exact absurd (hwalk.hasDirectory hl) hm
  | entry => exact ⟨_, _, rfl, hwalk.hasDirectory hl⟩

end FileSystem

namespace Policy

open FileSystem

variable {w w' : World} {output file : Path} {text t : Text} {bytes old : List UInt8} {node top' : Node} {links : Nat}

/-! ## Reading -/

/-- **A policy file is read as the text that its bytes write**, with its line ends unified. -/
theorem readPolicy_eq_ok_iff_writesText (h : w.read file = .ok bytes) :
    readPolicy w file = .ok t ↔ ∃ u, Text.Utf8.WritesText u bytes ∧ t = Text.unifyNewlines u := by
  simp only [readPolicy, h, textOfBytes, ← Text.Utf8.decode_eq_ok_iff]
  cases Text.Utf8.decode bytes with
  | error fault => simp [Except.map]
  | ok u => simp [Except.map, eq_comm]

/-- Other bytes are reported. -/
theorem exists_readPolicy_eq_failed (h : w.read file = .ok bytes) (hnot : ∀ u, ¬ Text.Utf8.WritesText u bytes) :
    ∃ fault, readPolicy w file = .error (.failed (.reading file (.undecodable fault))) := by
  simp only [readPolicy, h, textOfBytes]
  cases hdecode : Text.Utf8.decode bytes with
  | error fault => exact ⟨fault, rfl⟩
  | ok u => exact absurd (Text.Utf8.decode_eq_ok_iff.1 hdecode) (hnot u)

/-- A text is read back from its bytes with its line ends unified. -/
theorem readPolicy_of_read_encode (h : w.read file = .ok (Text.Utf8.encode text)) :
    readPolicy w file = .ok (Text.unifyNewlines text) :=
  (readPolicy_eq_ok_iff_writesText h).2 ⟨text, Text.Utf8.writesText_iff.2 rfl, rfl⟩

/-! ## Sites -/

namespace Site

variable (s : Site w output)

/-- The two ways that a write takes from the directory of the document: to it, and on to the stored file. -/
theorem exists_ways : ∃ front n links, s.target.parts = front ++ [s.name] ∧
    Walks w.top (s.target.anchor.location w.here) front n s.directory [] ∧
    Leads w.top .node s.directory [s.name ++ temporarySuffix] links s.stored ∧ links + n ≤ linkLimit := by
  obtain ⟨front, n, hparts, -, hwalk⟩ := s.names
  obtain ⟨-, -, k, hk, hleads⟩ := World.leads_of_locate s.locate_stored
  rw [eq_of_temporaryOf hparts s.temporaryOf_eq] at hleads
  obtain ⟨n₁, n₂, e, rfl, hwalk', hlast⟩ := hleads.of_append (by simp)
  obtain rfl := hwalk.eq_of_nil hwalk'
  have hfront : Leads w.top .node (s.target.anchor.location w.here) front n s.directory := hwalk.leads
  obtain ⟨rfl, -⟩ := hfront.unique hwalk'.leads (by decide)
  exact ⟨front, n, n₂, hparts, hwalk, hlast.of_aim (by decide), hk⟩

/-- **A write that succeeds has moved the entry of the temporary file**, after it has stored the bytes through it. -/
theorem moved (hw : w.top.WellFormed) (hnode : (s.withStored bytes).at? s.temporaryEntry = some node)
    (hleaf : node.isDirectory = false) (hdir : ¬ (s.withStored bytes).HasDirectory s.entry)
    (hlinks : Leads w.top .node s.directory [s.name ++ temporarySuffix] links s.stored) :
    Moved w.top (s.replaced bytes node) s.directory (s.name ++ temporarySuffix) s.name links s.stored bytes := by
  have hdistinct : (s.withStored bytes).Distinct := hw.distinct.put (Node.distinct_file bytes)
  have hsource : ¬ (s.withStored bytes).HasDirectory s.temporaryEntry := s.storedAt.not_hasDirectory_put
  have hkind {l : Location} (htmp : l ≠ s.temporaryEntry) (hentry : l ≠ s.entry) :
      (s.replaced bytes node).kindAt? l = (s.withStored bytes).kindAt? l :=
    (s.kindAt?_replaced hleaf hdir hentry).trans (Node.kindAt?_remove_leaf hdistinct (by simp [temporaryEntry]) hsource htmp)
  refine
    { hasDirectory := s.hasDirectory, isOrdinary_source := s.isOrdinary_temporary
      isOrdinary_target := s.isOrdinary_name, leads := hlinks, source := s.storedAt.not_hasDirectory
      stored := s.free.not_hasDirectory, target := fun hd => hdir (s.storedAt.keeps.hasDirectory hd)
      elsewhere := fun l htmp hentry hstored => ?_, gone := ?_, file := fun htmp hentry => ?_, moved := ?_ }
  · exact (hkind htmp hentry).trans (Node.kindAt?_put_free s.free hstored)
  · have hgone := s.kindAt?_replaced hleaf hdir s.entry_ne_temporaryEntry.symm
    have hnone := Node.at?_remove_append (l := []) hdistinct (m := s.temporaryEntry) (by simp [temporaryEntry])
    rw [List.append_nil] at hnone
    rw [Node.kindAt?, Node.kindAt?, hnone, Option.map_none, Option.map_eq_none_iff] at hgone
    exact hgone
  · obtain ⟨e, z, hstored, he⟩ := hlinks.exists_entry s.hasDirectory s.free.not_hasDirectory
    rw [← Node.kindAt?_eq_file_iff, hkind htmp hentry, Node.kindAt?_eq_file_iff, withStored, hstored]
    exact Node.at?_put_concat he
  · have hat : (s.replaced bytes node).at? s.entry = some node := s.at?_replaced
    rcases s.storedAt.cases_leads with ⟨hstored, -⟩ | ⟨target, hlink⟩
    · have hfile : (s.withStored bytes).at? s.temporaryEntry = some (.file bytes) := by
        rw [withStored, hstored]
        exact Node.at?_put_concat s.hasDirectory
      rw [hnode, Option.some.injEq] at hfile
      exact .inl ⟨hstored, hfile ▸ hat⟩
    · have hlink' : (s.withStored bytes).at? s.temporaryEntry = some (.link target) := s.storedAt.keeps.at?_link hlink
      obtain rfl := Option.some.inj (hnode.symm.trans hlink')
      exact .inr ⟨target, hlink, hat⟩

variable {s}

theorem Reached.not_hasLink (h : s.Reached) : ¬ w.top.HasLink s.entry := by
  rintro ⟨t, ht⟩
  obtain ⟨_, hfile⟩ := h.free_entry _ ht
  cases hfile

/-- **What is read at the path of the document afterwards is what has been stored**, if no link is overlooked on the
    way. -/
theorem bytes_of_read (hsees : ∀ t, w.probe .entry output = .ok (some (.link t)) → w.Sees output)
    (h : Moved w.top top' s.directory (s.name ++ temporarySuffix) s.name links s.stored bytes)
    (hread : World.read { w with top := top' } output = .ok old) : old = bytes := by
  rw [World.read_eq_ok_iff, World.probe_eq_some_iff] at hread
  obtain ⟨-, hlong, m, ⟨n, hn, hleads⟩, hm⟩ := hread
  by_contra hold
  -- otherwise the file was found there before, and it is the one that has been replaced
  obtain ⟨hleads, hm, hne⟩ := (h.of_leads hleads hm).resolve_left hold
  have hfinds : w.Finds output m := ⟨n, hn, hleads⟩
  rcases eq_of_targetOf s.targetOf_eq with ⟨⟨t, ht⟩, -⟩ | ⟨-, hlink⟩
  · have hplace := hfinds.locate_eq hlong
    refine hne (entry_eq_of_link (hsees t ht) ht hplace ?_).symm
    rintro d name rfl
    exact Node.hasDirectory_of_at?_concat hm
  · exact hne (hfinds.unique (reached_of_not_link h.target hlink).finds)

/-- A document that is reached is read afterwards, if the path of the temporary file was no link. -/
theorem read_of_moved_file
    (h : Moved w.top top' s.directory (s.name ++ temporarySuffix) s.name links s.stored bytes) (hreached : s.Reached)
    (htmp : ¬ w.top.HasLink s.temporaryEntry) : World.read { w with top := top' } output = .ok bytes := by
  obtain ⟨n, hn, hleads⟩ := hreached.finds
  rcases h.moved with ⟨hstored, hfile⟩ | ⟨t, ht, -⟩
  · have hne : s.stored ≠ s.entry := fun heq => s.entry_ne_temporaryEntry (heq.symm.trans hstored)
    obtain ⟨k, hk, hway⟩ := h.leads_of_file hreached.not_hasLink hleads hne hfile
    exact World.read_eq_ok_iff.2 (World.probe_eq_some_iff.2
      ⟨hreached.hasNul_eq, hreached.isLong_eq, s.entry, ⟨k, hk.trans hn, hway⟩, hfile⟩)
  · exact absurd ⟨t, ht⟩ htmp

/-- **A document that is no link is read afterwards**, unless it has been stored at its own place through a link. -/
theorem exists_read_iff
    (h : Moved w.top top' s.directory (s.name ++ temporarySuffix) s.name links s.stored bytes)
    (hlink : ∀ t, w.probe .entry output ≠ .ok (some (.link t))) :
    (∃ old, World.read { w with top := top' } output = .ok old) ↔ s.stored ≠ s.entry := by
  have hreached := reached_of_not_link (s := s) h.target hlink
  have hnolink := hreached.not_hasLink
  obtain ⟨front, n, links', hparts, hwalk, hleads, hlimit⟩ := s.exists_ways
  rw [s.target_eq_of_not_link hlink] at hparts hwalk
  obtain ⟨rfl, -⟩ := h.leads.unique hleads (by decide)
  have hfront : Walks top' (output.anchor.location w.here) front n s.directory [] := by
    have hne : s.directory ≠ s.directory ++ [s.name] := fun heq => by simpa using congrArg List.length heq
    have hstored : s.directory ≠ s.stored := fun heq => h.stored (heq ▸ s.hasDirectory)
    exact (h.leads_of_not_hasLink hnolink hwalk.leads (.inr hstored) hne).walks_of_hasDirectory
      (h.hasDirectory_iff.2 s.hasDirectory)
  constructor
  · rintro ⟨old, hread⟩ heq
    rw [World.read_eq_ok_iff, World.probe_eq_some_iff] at hread
    obtain ⟨-, -, m, ⟨k, -, hway⟩, -⟩ := hread
    rw [hparts] at hway
    obtain ⟨k', -, hlast⟩ := hway.of_walks (hfront.append [s.name]) (by decide)
    rcases h.target_cases with ⟨hne, -⟩ | ⟨-, hnone⟩
    · exact hne heq
    · exact hnone _ _ hlast
  · intro hne
    rcases h.target_cases with ⟨-, n', m, hn', ⟨e, left, hlast, hends⟩, hfile⟩ | ⟨htouches, -⟩
    · refine ⟨bytes, World.read_eq_ok_iff.2 (World.probe_eq_some_iff.2
        ⟨hreached.hasNul_eq, hreached.isLong_eq, m, ⟨n + n', by omega, e, left, ?_, hends⟩, hfile⟩)⟩
      rw [hparts]
      exact (hfront.append [s.name]).trans hlast
    · exact absurd htouches (not_or.2 ⟨hnolink, hne⟩)

end Site

/-! ## Writing -/

/-- The path of the temporary file leads to the place of the document itself. -/
def LeadsBack (w : World) (output : Path) : Prop :=
  ∃ temporary place, temporaryOf output = .ok temporary ∧ w.locate .file temporary = .ok place ∧
    w.locate .entry output = .ok place

theorem Site.leadsBack_iff (s : Site w output) (hlink : ∀ t, w.probe .entry output ≠ .ok (some (.link t))) :
    LeadsBack w output ↔ s.stored = s.entry := by
  have htarget := s.target_eq_of_not_link hlink
  have htmp := s.temporaryOf_eq
  have hentry := s.locate_entry
  rw [htarget] at htmp hentry
  constructor
  · rintro ⟨temporary, place, htmp', hstored, hplace⟩
    obtain rfl := Except.ok.inj (htmp.symm.trans htmp')
    have hsame : (s.stored, w.top.at? s.stored) = (s.entry, w.top.at? s.entry) :=
      Except.ok.inj ((s.locate_stored.symm.trans hstored).trans (hplace.symm.trans hentry))
    exact (Prod.mk.inj hsame).1
  · intro heq
    exact ⟨s.temporary, _, htmp, s.locate_stored, heq ▸ hentry⟩

/-- A write that succeeds has stored the bytes of the text and moved an entry. -/
theorem exists_moved (hw : w.top.WellFormed) (h : writeDocument w output text = (w', .ok ())) :
    ∃ (s : Site w output) (top' : Node) (links : Nat), w' = { w with top := top' } ∧
      Moved w.top top' s.directory (s.name ++ temporarySuffix) s.name links s.stored (Text.Utf8.encode text) := by
  obtain ⟨s, bytes, node, hall, hnode, hleaf, hdir, rfl⟩ := exists_site h
  obtain rfl := eq_encode_of_content hall
  obtain ⟨_, _, links, _, _, hlinks, _⟩ := s.exists_ways
  exact ⟨s, _, links, rfl, s.moved hw hnode hleaf hdir hlinks⟩

/-- **Nothing else is read at the path of a document than what has been written**, if no link is overlooked on the
    way. -/
theorem read_written_eq (hw : w.top.WellFormed)
    (hsees : ∀ t, w.probe .entry output = .ok (some (.link t)) → w.Sees output)
    (h : writeDocument w output text = (w', .ok ())) (hread : w'.read output = .ok bytes) :
    bytes = Text.Utf8.encode text := by
  obtain ⟨s, top', links, rfl, hmoved⟩ := exists_moved hw h
  exact Site.bytes_of_read hsees hmoved hread

/-- A document that is no link is read after a write, unless the path of its temporary file leads to it. -/
theorem exists_read_written_iff (hw : w.top.WellFormed) (hlink : ∀ t, w.probe .entry output ≠ .ok (some (.link t)))
    (h : writeDocument w output text = (w', .ok ())) : (∃ bytes, w'.read output = .ok bytes) ↔ ¬ LeadsBack w output := by
  obtain ⟨s, top', links, rfl, hmoved⟩ := exists_moved hw h
  rw [Site.exists_read_iff hmoved hlink, s.leadsBack_iff hlink]

/-- How the path of a document is such that it can be read after a write. It is no link, and the path of the temporary
    file does not lead to it. Or it is a link that can be followed without overlooking one, and the path of the
    temporary file is none. -/
inductive Lasting (w : World) (output : Path) : Prop
  | entry (noLink : ∀ t, w.probe .entry output ≠ .ok (some (.link t))) (notBack : ¬ LeadsBack w output)
  | link {t : Text} {target temporary : Path} (link : w.probe .entry output = .ok (some (.link t)))
      (followed : Followed w output) (sees : w.Sees output) (target_eq : targetOf w output = .ok target)
      (temporary_eq : temporaryOf target = .ok temporary)
      (noLink : ∀ t, w.probe .entry temporary ≠ .ok (some (.link t)))

/-- **A document at such a path is read as its bytes.** -/
theorem Lasting.read_written (h : Lasting w output) (hw : w.top.WellFormed)
    (hwrite : writeDocument w output text = (w', .ok ())) : w'.read output = .ok (Text.Utf8.encode text) := by
  cases h with
  | entry noLink notBack =>
      obtain ⟨bytes, hread⟩ := (exists_read_written_iff hw noLink hwrite).2 notBack
      rw [hread, read_written_eq hw (fun t ht => absurd ht (noLink t)) hwrite hread]
  | link link followed sees target_eq temporary_eq noLink =>
      obtain ⟨s, top', links, rfl, hmoved⟩ := exists_moved hw hwrite
      obtain rfl := Except.ok.inj (s.targetOf_eq.symm.trans target_eq)
      obtain rfl := Except.ok.inj (s.temporaryOf_eq.symm.trans temporary_eq)
      refine Site.read_of_moved_file hmoved (Site.reached_of_link hmoved.target sees link followed) ?_
      rintro ⟨t, ht⟩
      refine noLink t ?_
      rw [World.probe, if_neg (by simp [s.hasNul_eq]), s.locate_temporaryEntry]
      exact congrArg _ ht

/-- A file at a path without NUL that cannot be read is reported. -/
theorem exists_readPolicy_eq_refused (hnul : file.hasNul = false) (hnot : ¬ ∃ bytes, w.read file = .ok bytes) :
    ∃ fault, readPolicy w file = .error (.failed (.reading file (.refused fault))) := by
  cases hread : w.read file with
  | ok bytes => exact absurd ⟨bytes, hread⟩ hnot
  | error fault =>
      cases fault with
      | refused fault => exact ⟨fault, by simp only [readPolicy, hread]⟩
      | nulInPath =>
          rw [World.read, if_neg (by simp [hnul])] at hread
          split at hread <;> cases hread

/-- There is no NUL in the path of a document that has been written. -/
theorem hasNul_of_writeDocument (hlink : ∀ t, w.probe .entry output ≠ .ok (some (.link t)))
    (h : writeDocument w output text = (w', .ok ())) : output.hasNul = false := by
  obtain ⟨s, _⟩ := exists_site h
  rw [← s.target_eq_of_not_link hlink, ← hasNul_temporaryOf s.temporaryOf_eq]
  exact s.hasNul_eq

/-! ## Main statement -/

/-- **Reading, and reading back.** A policy file with any bytes is read just if they write a text, and then as that
    text with its line ends unified; otherwise it is reported. A document that is written at a path where nothing
    was is read as its text with the line ends unified, unless the path of the temporary file leads to it; then it
    is lost, and reading is reported. The line ends make no difference just if there is no CR. -/
theorem readPolicy_back (w : World) :
    (∀ (file : Path) (bytes : List UInt8), w.read file = .ok bytes →
      (∀ t, readPolicy w file = .ok t ↔ ∃ u, Text.Utf8.WritesText u bytes ∧ t = Text.unifyNewlines u) ∧
      ((∀ u, ¬ Text.Utf8.WritesText u bytes) →
        ∃ fault, readPolicy w file = .error (.failed (.reading file (.undecodable fault))))) ∧
    (∀ (w' : World) (output : Path) (text : Text), w.top.WellFormed → w.probe .entry output = .ok none →
      writeDocument w output text = (w', .ok ()) →
      (¬ LeadsBack w output → readPolicy w' output = .ok (Text.unifyNewlines text)) ∧
      (LeadsBack w output → ∃ fault, readPolicy w' output = .error (.failed (.reading output (.refused fault))))) ∧
    ∀ text, Text.unifyNewlines text = text ↔ '\r' ∉ text := by
  refine ⟨fun file bytes hread => ⟨fun t => readPolicy_eq_ok_iff_writesText hread, exists_readPolicy_eq_failed hread⟩,
    fun w' output text hw hfresh h => ?_, fun text => Text.unifyNewlines_eq_self_iff⟩
  have hlink : ∀ t, w.probe .entry output ≠ .ok (some (.link t)) := by simp [hfresh]
  have hiff := exists_read_written_iff hw hlink h
  constructor
  · intro hback
    obtain ⟨bytes, hread⟩ := hiff.2 hback
    obtain rfl := read_written_eq hw (fun t ht => absurd ht (hlink t)) h hread
    exact readPolicy_of_read_encode hread
  · intro hback
    exact exists_readPolicy_eq_refused (hasNul_of_writeDocument hlink h) fun hread => hiff.1 hread hback

/-- A file with a mark at its beginning and one that writes half of a pair, and a link for a temporary file. -/
def readBackWorld : World where
  top := .directory
    [("a.rego".toList, .file [0xef, 0xbb, 0xbf, 0x78, 0x0d, 0x0d, 0x0a]), ("b.rego".toList, .file [0xed, 0xa0, 0x80]),
      ("d".toList, .directory []), ("o.md.tmp".toList, .link "d/new.md".toList)]
  here := []

theorem wellFormed_readBackWorld : readBackWorld.top.WellFormed := by
  refine .directory (by decide) (by decide) ?_
  simp only [List.forall_mem_cons, List.not_mem_nil, false_imp_iff, implies_true, and_true]
  exact ⟨.file, .file, .flat (by decide) (by decide) (by decide), .link⟩

theorem not_leadsBack_readBackWorld : ¬ LeadsBack readBackWorld (.ofText "o.md".toList) := by
  rintro ⟨temporary, place, htmp, hstored, hentry⟩
  obtain rfl : Path.ofText "o.md.tmp".toList = temporary := Except.ok.inj htmp
  obtain rfl : (["d".toList, "new.md".toList], none) = place := Except.ok.inj hstored
  cases hentry

theorem readPolicy_back_through_link :
    readPolicy readBackWorld (.ofText "a.rego".toList) = .ok "\uFEFFx\n\n".toList ∧
      (∃ fault, readPolicy readBackWorld (.ofText "b.rego".toList) =
        .error (.failed (.reading (.ofText "b.rego".toList) (.undecodable fault)))) ∧
      ∃ w', writeDocument readBackWorld (.ofText "o.md".toList) "a\r\r\nb\r".toList = (w', .ok ()) ∧
        readPolicy w' (.ofText "o.md".toList) = .ok "a\n\nb\n".toList := by
  obtain ⟨hread, hwrite, -⟩ := readPolicy_back readBackWorld
  have hmark : Text.Utf8.WritesText "\uFEFFx\r\r\n".toList [0xef, 0xbb, 0xbf, 0x78, 0x0d, 0x0d, 0x0a] :=
    Text.Utf8.writesText_iff.2 (by decide)
  have hhalf (u : Text) : ¬ Text.Utf8.WritesText u [0xed, 0xa0, 0x80] := fun hu => by
    have hdecode := Text.Utf8.decode_eq_ok_iff.2 hu
    cases hdecode
  have hok : (writeDocument readBackWorld (.ofText "o.md".toList) "a\r\r\nb\r".toList).2 = .ok () := by decide +kernel
  refine ⟨((hread _ _ rfl).1 _).2 ⟨_, hmark, by decide⟩, (hread _ _ rfl).2 hhalf, _, Prod.ext rfl hok, ?_⟩
  exact (hwrite _ _ _ wellFormed_readBackWorld rfl (Prod.ext rfl hok)).1 not_leadsBack_readBackWorld

/-- A link in the place of the temporary file, which leads to the document. -/
def lostWorld : World where
  top := .directory [("o.md.tmp".toList, .link "o.md".toList)]
  here := []

/-- The write succeeds there, and leaves a link that leads to itself. -/
theorem writeDocument_lost :
    lostWorld.probe .entry (.ofText "o.md".toList) = .ok none ∧
      ∃ w', writeDocument lostWorld (.ofText "o.md".toList) "new\n".toList = (w', .ok ()) ∧
        w'.probe .entry (.ofText "o.md".toList) = .ok (some (.link "o.md".toList)) ∧
        readPolicy w' (.ofText "o.md".toList) = .error (.failed (.reading (.ofText "o.md".toList)
          (.refused { cause := .tooManyLinks, path := .ofText "o.md".toList }))) :=
  ⟨rfl, _, Prod.ext rfl (by decide +kernel), rfl, by decide +kernel⟩

end Policy

end PolicyTable
