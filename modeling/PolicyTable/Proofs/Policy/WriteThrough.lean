import PolicyTable.Proofs.Policy.Frame

/-!
# `PolicyTable.Proofs.Policy.WriteThrough` — a document is read where it has been written

The system follows a link name by name. The search for the path without links expands it in full, and passes over
names that are missing. Where the system comes to an end, both come to the same place: the document is put there, the
link stays, and the text is read through it.

A link that runs in a circle has no such place. The search gives up where it meets the link again, takes the rest of
the target as text, and looks whether what it has found runs in a circle too. If not, the write goes there, and the
document cannot be read. The search may also overlook a link, if the path of that is too long to be looked at
(`World.Sees` says that it does not), and then it goes elsewhere.

## Contents
- **Links.** `World.names_of_link`: a link that can be followed is an entry of a directory. `Followed`: how it is.
- **Sites.** `Site.Reached`: the path of the document leads to where the file is put. The write makes it so that the
  text is read (`Site.Reached.read_written`), and a link stays (`Site.Reached.probe_link_written`).

Main statement: `writeText_through`, with `writeDocument_circular` for a circle that is not reported.
-/

namespace PolicyTable.FileSystem.World

variable {w : World} {p : Path} {t : Text} {d : Location} {front : List Name} {name : Name} {aim : Aim} {n : Nat}

/-! ## Links -/

/-- The last name of a path is resolved from where the names before it lead, with the links that are left. -/
theorem locate_of_walks (hlong : p.isLong = false) (hparts : p.parts = front ++ [name]) (hn : n ≤ linkLimit)
    (hwalk : Walks w.top (p.anchor.location w.here) front n d []) (haim : aim ≠ .file) :
    w.locate aim p = resolve w.top aim (linkLimit - n) d [name] := by
  have hway : resolve w.top aim (linkLimit - n + n) _ (front ++ [name]) =
      resolve w.top aim (linkLimit - n) d ([] ++ [name]) :=
    hwalk.resolve_append (goesOn_of_ne_file haim (List.cons_ne_nil name []))
  rw [Nat.sub_add_cancel hn] at hway
  rw [locate, if_neg (by simp [hlong]), hparts, hway, List.nil_append]

/-- **A link that does not lead to a link is an entry that its path names.** -/
theorem names_of_link (h : w.probe .entry p = .ok (some (.link t)))
    (hfollowed : ∀ m target, w.locate .node p ≠ .ok (m, some (.link target))) :
    p.hasNul = false ∧ p.isLong = false ∧
      ∃ d name, w.Names p d name ∧ isOrdinary name = true ∧ w.top.at? (d ++ [name]) = some (.link t) := by
  obtain ⟨hnul, m, hentry⟩ := locate_of_probe h
  obtain ⟨hlong, hm, n, hn, hleads⟩ := leads_of_locate hentry
  refine ⟨hnul, hlong, ?_⟩
  rcases List.eq_nil_or_concat p.parts with hnil | ⟨front, name, hparts⟩
  · -- A path without names leads to where it starts, whatever is looked for.
    have hstart : ∀ aim, w.locate aim p = .ok (p.anchor.location w.here, w.top.at? (p.anchor.location w.here)) := by
      intro aim
      rw [locate, if_neg (by simp [hlong]), hnil, resolve_nil]
    refine absurd ?_ (hfollowed m t)
    rw [hstart, ← hstart .entry, hentry]
  rw [List.concat_eq_append] at hparts
  rw [hparts] at hleads
  obtain ⟨n₁, n₂, d, rfl, hwalk, hlast⟩ := hleads.of_append (by simp)
  have hlocate : ∀ aim ≠ .file, w.locate aim p = resolve w.top aim (linkLimit - n₁) d [name] :=
    fun aim haim => locate_of_walks hlong hparts (by omega) hwalk haim
  by_cases hplain : name = parentName ∨ name = selfName ∨ name = emptyName
  · obtain ⟨e, hresolve⟩ := @resolve_of_parent_or_self w.top d name (linkLimit - n₁) hplain
    refine absurd ?_ (hfollowed m t)
    rw [hlocate _ (by decide), hresolve, ← hresolve .entry, ← hlocate _ (by decide), hentry]
  · have ho : isOrdinary name = true := hlast.ordinary_first hplain
    rw [hlocate _ (by decide), resolve_entry ho] at hentry
    obtain ⟨rfl, hat⟩ := Prod.mk.inj (Except.ok.inj hentry)
    exact ⟨d, name, ⟨front, n₁, hparts, by omega, hwalk⟩, ho, hat⟩

end PolicyTable.FileSystem.World

namespace PolicyTable.Policy

open FileSystem
open FileSystem.Node (Keeps)

variable {w w' : World} {output : Path} {text : Text.CodePoints} {t : Text} {bytes : List UInt8} {m : Location}
  {node? : Option Node} {result : Except Stop Unit}

/-- How a link can be followed: to a file, to a directory or to a missing entry of a directory. Or there is no path
    without links, and the search for it says so. -/
inductive Followed (w : World) (output : Path) : Prop
  | file {m : Location} {bytes : List UInt8} (place : w.locate .node output = .ok (m, some (.file bytes)))
  | directory {m : Location} {entries : Entries}
      (place : w.locate .node output = .ok (m, some (.directory entries)))
  | missing {d : Location} {name : Name} (place : w.locate .node output = .ok (d ++ [name], none))
      (hasDirectory : w.top.HasDirectory d)
  | unresolved {unresolved : Unresolved} (reported : w.realPath output = .error unresolved)

/-- A link that can be followed leads to a place that is no link, and to an entry of a directory unless it leads to the
    top. -/
theorem Followed.cases (h : Followed w output) :
    (∃ m node?, w.locate .node output = .ok (m, node?) ∧ ¬ w.top.HasLink m ∧
      ∀ d name, m = d ++ [name] → w.top.HasDirectory d) ∨ ∃ unresolved, w.realPath output = .error unresolved := by
  cases h with
  | @file m bytes place =>
      obtain ⟨_, hm, _⟩ := World.leads_of_locate place
      refine .inl ⟨m, _, place, ?_, ?_⟩
      · rintro ⟨t, ht⟩
        rw [← hm] at ht
        cases ht
      · rintro d name rfl
        exact Node.hasDirectory_of_at?_concat hm.symm
  | @directory m entries place =>
      obtain ⟨_, hm, _⟩ := World.leads_of_locate place
      have hd : w.top.HasDirectory m := ⟨entries, hm.symm⟩
      refine .inl ⟨m, _, place, hd.not_hasLink, ?_⟩
      rintro d name rfl
      exact hd.of_concat
  | @missing d name place hasDirectory =>
      obtain ⟨_, hm, _⟩ := World.leads_of_locate place
      refine .inl ⟨_, _, place, ?_, fun d' name' heq => ?_⟩
      · rintro ⟨t, ht⟩
        rw [← hm] at ht
        cases ht
      · obtain ⟨rfl, _⟩ := List.append_inj' heq rfl
        exact hasDirectory
  | unresolved reported => exact .inr ⟨_, reported⟩

/-! ## Sites -/

namespace Site

variable {s : Site w output}

/-- The path of the document leads to the entry that the write works at, and a file may be put there. -/
structure Reached (s : Site w output) : Prop where
  hasNul_eq : output.hasNul = false
  isLong_eq : output.isLong = false
  finds : w.Finds output s.entry
  free_entry : w.top.Free s.entry

/-- **What has been written is read at the path of the document.** -/
theorem Reached.read_written (h : s.Reached) : (s.written bytes).read output = .ok bytes := by
  rw [World.read_eq_ok_iff, World.probe_eq_some_iff]
  refine ⟨h.hasNul_eq, h.isLong_eq, s.entry, ?_, s.at?_written⟩
  exact h.finds.to_file rfl (Node.keeps_put h.free_entry) s.at?_written

/-- Nothing stands at the path of the temporary file afterwards. -/
theorem Reached.probe_temporary_written (h : s.Reached) (hmissing : w.top.at? s.temporaryEntry = none) :
    (s.written bytes).probe .entry s.temporary = .ok none := by
  have hhere : (s.written bytes).here = w.here := rfl
  rw [s.storedAt.probe_entry hhere (Node.keeps_put h.free_entry)]
  exact congrArg _ (s.missing_written h.free_entry hmissing)

/-- A document that is no link is put at its own path. -/
theorem target_eq_of_not_link (s : Site w output) (hlink : ∀ t, w.probe .entry output ≠ .ok (some (.link t))) :
    s.target = output := by
  rcases eq_of_targetOf s.targetOf_eq with ⟨⟨t, ht⟩, _⟩ | ⟨htarget, _⟩
  · exact absurd ht (hlink t)
  · exact htarget

/-- A document that is no link is reached at its own entry. -/
theorem reached_of_not_link (hdir : ¬ w.top.HasDirectory s.entry)
    (hlink : ∀ t, w.probe .entry output ≠ .ok (some (.link t))) : s.Reached := by
  have hnul : s.target.hasNul = false := by rw [← hasNul_temporaryOf s.temporaryOf_eq, s.hasNul_eq]
  have htarget := s.target_eq_of_not_link hlink
  have hprobe : w.probe .entry s.target = .ok (w.top.at? s.entry) := by
    rw [World.probe, if_neg (by simp [hnul]), s.locate_entry]
  rw [htarget] at hprobe
  have hnolink : ¬ w.top.HasLink s.entry := by
    rintro ⟨t, ht⟩
    rw [ht] at hprobe
    exact hlink t hprobe
  have hfinds : w.Finds s.target s.entry := by
    obtain ⟨front, n, hparts, hn, hwalk⟩ := s.names
    refine ⟨n, hn, s.directory, [s.name], ?_, .entry s.isOrdinary_name hdir fun _ => hnolink⟩
    rw [hparts]
    exact hwalk.append [s.name]
  have hlong := s.isLong_target
  rw [htarget] at hnul hlong hfinds
  exact ⟨hnul, hlong, hfinds, Node.free_of_not hdir hnolink⟩

/-- The entry of a document that is a link is where the link leads, if no link is overlooked on the way. -/
theorem entry_eq_of_link (hsees : w.Sees output) (hlink : w.probe .entry output = .ok (some (.link t)))
    (hplace : w.locate .node output = .ok (m, node?)) (hd : ∀ d name, m = d ++ [name] → w.top.HasDirectory d) :
    s.entry = m := by
  obtain ⟨_, _, n, hn, hleads⟩ := World.leads_of_locate hplace
  rcases eq_of_targetOf s.targetOf_eq with ⟨_, hreal⟩ | ⟨_, hno⟩
  · have hnames := s.names
    rw [World.eq_of_realPath hsees hn hleads hreal] at hnames
    obtain ⟨d, _, rfl, _, _⟩ := id hnames
    obtain ⟨hdirectory, _⟩ := hnames.unique (names_of_leads hleads (hd d _ rfl)).1
    rw [entry, hdirectory]
  · exact absurd hlink (hno t)

/-- A document that is a link is reached where the link leads, if it can be followed. -/
theorem reached_of_link (hdir : ¬ w.top.HasDirectory s.entry) (hsees : w.Sees output)
    (hlink : w.probe .entry output = .ok (some (.link t))) (hfollowed : Followed w output) : s.Reached := by
  obtain ⟨hnul, _⟩ := World.locate_of_probe hlink
  rcases hfollowed.cases with ⟨m, node?, hplace, hnolink, hd⟩ | ⟨unresolved, hreported⟩
  · obtain ⟨hlong, _, n, hn, hleads⟩ := World.leads_of_locate hplace
    have hentry : s.entry = m := entry_eq_of_link hsees hlink hplace hd
    rw [← hentry] at hnolink hleads
    exact ⟨hnul, hlong, ⟨n, hn, hleads⟩, Node.free_of_not hdir hnolink⟩
  · -- It has been reported, and there was no write.
    rcases eq_of_targetOf s.targetOf_eq with ⟨_, hreal⟩ | ⟨_, hno⟩
    · rw [hreal] at hreported
      cases hreported
    · exact absurd hlink (hno t)

/-- **A link stays**, since the file is put elsewhere. -/
theorem Reached.probe_link_written (h : s.Reached) (hlink : w.probe .entry output = .ok (some (.link t))) :
    (s.written bytes).probe .entry output = .ok (some (.link t)) := by
  have hfollowed : ∀ m target, w.locate .node output ≠ .ok (m, some (.link target)) := by
    intro m target hplace
    rw [h.finds.locate_eq h.isLong_eq] at hplace
    obtain ⟨_, hnode⟩ := Prod.mk.inj (Except.ok.inj hplace)
    obtain ⟨old, hold⟩ := h.free_entry _ hnode
    cases hold
  obtain ⟨hnul, hlong, d, name, hnames, ho, hat⟩ := World.names_of_link hlink hfollowed
  have hkeeps : Keeps w.top (s.written bytes).top := Node.keeps_put h.free_entry
  have hhere : (s.written bytes).here = w.here := rfl
  rw [World.probe, if_neg (by simp [hnul]), (hnames.keeps hhere hkeeps).locate_entry hlong ho, hkeeps.at?_link hat]

end Site

/-- If nothing stands at the path of the temporary file, a write that succeeds puts the document at its entry, which is
    no directory, and leaves everything else as it is. -/
theorem exists_site_of_vacant (hvacant : Vacant w output) (h : writeText w output text = (w', .ok ())) :
    ∃ (s : Site w output) (bytes : List UInt8), w.content s.temporary text = (bytes, .ok ()) ∧
      w.top.at? s.temporaryEntry = none ∧ ¬ w.top.HasDirectory s.entry ∧ w' = s.written bytes := by
  obtain ⟨s, bytes, node, hall, hnode, _, hdir, rfl⟩ := exists_site h
  have hmissing : w.top.at? s.temporaryEntry = none :=
    missing_of_vacant hvacant s.targetOf_eq s.temporaryOf_eq s.storedAt
  refine ⟨s, bytes, hall, hmissing, fun hd => hdir (s.storedAt.keeps.hasDirectory hd), ?_⟩
  have hfile : (s.withStored bytes).at? s.temporaryEntry = some (.file bytes) := by
    rw [Site.withStored, Site.stored_eq hmissing]
    exact Node.at?_put_concat s.hasDirectory
  obtain rfl := Option.some.inj (hnode.symm.trans hfile)
  rw [Site.withStored, Site.temporaryEntry, s.storedAt.remove_put hmissing]
  rfl

/-- **A document is read where it has been written.** Suppose that nothing stands at the path of the temporary file,
    and that the document, if it is a link, can be followed or is reported, and no link is overlooked on the way.
    A write that stops leaves the world as it is, if an opened temporary file can be written in full and taken away.
    After one that succeeds, the bytes of the text are read at the path of the document, a link is still the same
    link, and nothing stands at the path of the temporary file. -/
theorem writeText_through (hvacant : Vacant w output)
    (hfollowed : ∀ t, w.probe .entry output = .ok (some (.link t)) → Followed w output ∧ w.Sees output)
    (h : writeText w output text = (w', result)) :
    (∀ stop, result = .error stop → Clears w output text → w' = w) ∧
      (result = .ok () → (∃ bytes, text.encode = .ok bytes ∧ w'.read output = .ok bytes) ∧
        (∀ t, w.probe .entry output = .ok (some (.link t)) → w'.probe .entry output = .ok (some (.link t))) ∧
        ∀ target temporary, targetOf w output = .ok target → temporaryOf target = .ok temporary →
          w'.probe .entry temporary = .ok none) := by
  constructor
  · rintro stop rfl hclears
    exact (stopped_of_writeText h).eq_of_vacant hvacant hclears
  · rintro rfl
    obtain ⟨s, bytes, hall, hmissing, hdir, rfl⟩ := exists_site_of_vacant hvacant h
    have hreached : s.Reached := by
      by_cases hlink : ∃ t, w.probe .entry output = .ok (some (.link t))
      · obtain ⟨t, hlink⟩ := hlink
        obtain ⟨hfollowed, hsees⟩ := hfollowed t hlink
        exact Site.reached_of_link hdir hsees hlink hfollowed
      · exact Site.reached_of_not_link hdir (not_exists.1 hlink)
    obtain ⟨hencode, _⟩ := World.content_eq_ok_iff.1 hall
    refine ⟨⟨bytes, hencode, hreached.read_written⟩, fun t => hreached.probe_link_written,
      fun target temporary htarget htmp => ?_⟩
    obtain rfl := Except.ok.inj (s.targetOf_eq.symm.trans htarget)
    obtain rfl := Except.ok.inj (s.temporaryOf_eq.symm.trans htmp)
    exact hreached.probe_temporary_written hmissing

/-- A link to a link to a link to a missing file: to another directory, to an absolute path and to a neighbour. -/
def chainWorld : World where
  top := .directory
    [("far".toList, .directory [("b.md".toList, .link "c.md".toList)]),
      ("here".toList, .directory
        [("docs".toList, .directory [("a.md".toList, .link "/far/b.md".toList)]),
          ("p".toList, .directory [("o.md".toList, .link "../docs/a.md".toList)])])]
  here := ["here".toList, "p".toList]

theorem writeText_through_chain :
    ∃ w', writeText chainWorld (.ofText "o.md".toList) (.ofText "a\r\nb".toList) = (w', .ok ()) ∧
      w'.read (.ofText "o.md".toList) = .ok [97, 13, 10, 98] ∧
      w'.probe .entry (.ofText "o.md".toList) = .ok (some (.link "../docs/a.md".toList)) ∧
      w'.probe .entry (.ofText "/far/c.md.tmp".toList) = .ok none := by
  have htarget : targetOf chainWorld (.ofText "o.md".toList) = .ok (.ofText "/far/c.md".toList) := by decide +kernel
  have hprobe : chainWorld.probe .entry (.ofText "/far/c.md.tmp".toList) = .ok none := rfl
  have hplace : chainWorld.locate .node (.ofText "o.md".toList) = .ok (["far".toList] ++ ["c.md".toList], none) := by
    rfl
  have hsees : chainWorld.Sees (.ofText "o.md".toList) := by
    unfold World.Sees
    decide +kernel
  have hok : (writeText chainWorld (.ofText "o.md".toList) (.ofText "a\r\nb".toList)).2 = .ok () := by decide +kernel
  obtain ⟨⟨bytes, hencode, hread⟩, hlink, htemporary⟩ := (writeText_through (vacant_of_probe htarget rfl hprobe)
    (fun _ _ => ⟨.missing hplace ⟨_, rfl⟩, hsees⟩) (Prod.ext rfl hok)).2 rfl
  rw [Text.CodePoints.encode_ofText] at hencode
  obtain rfl := Except.ok.inj hencode
  exact ⟨_, Prod.ext rfl hok, hread, hlink _ rfl, htemporary _ _ htarget rfl⟩

/-- A link that leads back to itself before it leads elsewhere. -/
def circleWorld : World where
  top := .directory [("o.md".toList, .link "o.md/../real.md".toList)]
  here := []

/-- How reading fails there. -/
def circleFault : AccessFault := .refused { cause := .tooManyLinks, path := .ofText "o.md".toList }

/-- The system cannot follow the link. The write takes the link for the directory that it is in, goes to the file behind
    it and succeeds, and still nothing is read at the path of the document. -/
theorem writeDocument_circular :
    Vacant circleWorld (.ofText "o.md".toList) ∧
      circleWorld.probe .entry (.ofText "o.md".toList) = .ok (some (.link "o.md/../real.md".toList)) ∧
      circleWorld.read (.ofText "o.md".toList) = .error circleFault ∧
      ∃ w', writeDocument circleWorld (.ofText "o.md".toList) "new".toList = (w', .ok ()) ∧
        w'.read (.ofText "o.md".toList) = .error circleFault := by
  have htarget : targetOf circleWorld (.ofText "o.md".toList) = .ok (.ofText "/real.md".toList) := by decide +kernel
  have hvacant : Vacant circleWorld (.ofText "o.md".toList) := vacant_of_probe htarget rfl rfl
  exact ⟨hvacant, rfl, by decide +kernel, _, Prod.ext rfl (by decide +kernel), by decide +kernel⟩

end PolicyTable.Policy
