import PolicyTable.Proofs.Policy.Replacement

/-!
# `PolicyTable.Proofs.Policy.Frame` — what a write leaves alone

A write has two places in the tree: the entry of the document and the path of the temporary file. If nothing stands
at that path, a write that stops leaves the world as it is, and one that succeeds changes the entry of the document
alone. What stands there is taken for a temporary file: it is overwritten, and moved or taken away.

That is so where an opened temporary file can be written in full and taken away. Otherwise it stays.

## Contents
- **Stores.** What is left of a store when the entry has been taken away (`World.StoredAt.kindAt?_remove`).
- **Places.** `Vacant`, `Unlinked` and `Clears`, said of the path of the temporary file; `DocumentAt` and `TemporaryAt`.
- **Writes.** `Stopped` for a write that stops, `Site.kindAt?_replaced` for one that succeeds.

Main statement: `writeText_frame`, with `writeDocument_takes_neighbour` for what stands in the way.
-/

namespace PolicyTable.FileSystem.World.StoredAt

variable {w : World} {p : Path} {d m l : Location} {name : Name} {bytes : List UInt8}

/-! ## Stores -/

/-- What is stored and taken away again leaves no trace elsewhere. -/
theorem kindAt?_remove (h : w.StoredAt p d name m) (hw : w.top.Distinct) (hentry : l ≠ d ++ [name]) (hm : l ≠ m) :
    ((w.top.put m (.file bytes)).remove (d ++ [name])).kindAt? l = w.top.kindAt? l := by
  have hdistinct : (w.top.put m (.file bytes)).Distinct := hw.put (Node.distinct_file bytes)
  rw [Node.kindAt?_remove_leaf hdistinct (by simp) h.not_hasDirectory_put hentry, Node.kindAt?_put_free h.free hm]

/-- If the entry is no link, the file is stored there. -/
theorem eq_of_not_hasLink (h : w.StoredAt p d name m) (hlink : ¬ w.top.HasLink (d ++ [name])) : m = d ++ [name] :=
  (h.cases_leads.resolve_right hlink).1

/-- Where nothing was, it leaves no trace at all. -/
theorem remove_put (h : w.StoredAt p d name m) (hnone : w.top.at? (d ++ [name]) = none) :
    (w.top.put m (.file bytes)).remove (d ++ [name]) = w.top := by
  rw [h.eq_of_missing hnone]
  exact Node.remove_put h.hasDirectory hnone

end PolicyTable.FileSystem.World.StoredAt

namespace PolicyTable.Policy

open FileSystem
open FileSystem.Node (Keeps)

variable {w w' : World} {output target temporary : Path} {text : Text.CodePoints} {bytes : List UInt8} {node : Node}
  {l stored : Location} {d : Location} {name : Name} {stop : Stop} {result : Except Stop Unit}

/-! ## Places -/

/-- Nothing stands at the path of the temporary file for a document. -/
def Vacant (w : World) (output : Path) : Prop :=
  ∀ target temporary node, targetOf w output = .ok target → temporaryOf target = .ok temporary →
    w.probe .entry temporary ≠ .ok (some node)

/-- No link stands there. -/
def Unlinked (w : World) (output : Path) : Prop :=
  ∀ target temporary t, targetOf w output = .ok target → temporaryOf target = .ok temporary →
    w.probe .entry temporary ≠ .ok (some (.link t))

/-- A temporary file that is opened can be written in full and taken away. -/
def Clears (w : World) (output : Path) (text : Text.CodePoints) : Prop :=
  ∀ target temporary, targetOf w output = .ok target → temporaryOf target = .ok temporary → w.Opens temporary →
    (w.content temporary text).2 = .ok () ∧ w.refuses (.unlinking temporary) = none

/-- The location is that of the document: of its entry, or of the file to replace if it is a link. -/
def DocumentAt (w : World) (output : Path) (l : Location) : Prop :=
  ∃ target node?, targetOf w output = .ok target ∧ w.locate .entry target = .ok (l, node?)

/-- Something stands at the path of the temporary file, and the location is that of it. -/
def TemporaryAt (w : World) (output : Path) (l : Location) : Prop :=
  ∃ target temporary node, targetOf w output = .ok target ∧ temporaryOf target = .ok temporary ∧
    w.probe .entry temporary = .ok (some node) ∧ w.locate .entry temporary = .ok (l, some node)

theorem vacant_of_probe (htarget : targetOf w output = .ok target) (htmp : temporaryOf target = .ok temporary)
    (hprobe : w.probe .entry temporary = .ok none) : Vacant w output := by
  intro target' temporary' node htarget' htmp'
  obtain rfl := Except.ok.inj (htarget.symm.trans htarget')
  obtain rfl := Except.ok.inj (htmp.symm.trans htmp')
  rw [hprobe]
  simp

theorem missing_of_vacant (h : Vacant w output) (htarget : targetOf w output = .ok target)
    (htmp : temporaryOf target = .ok temporary) (hstored : w.StoredAt temporary d name stored) :
    w.top.at? (d ++ [name]) = none := by
  rw [Option.eq_none_iff_forall_ne_some]
  intro node hnode
  apply h target temporary node htarget htmp
  rw [hstored.probe_entry rfl (.refl _), hnode]

/-- Where no link stands, the temporary file is stored under its own name. -/
theorem stored_eq_of_unlinked (h : Unlinked w output) (htarget : targetOf w output = .ok target)
    (htmp : temporaryOf target = .ok temporary) (hstored : w.StoredAt temporary d name stored) :
    stored = d ++ [name] := by
  refine hstored.eq_of_not_hasLink ?_
  rintro ⟨t, ht⟩
  refine h target temporary t htarget htmp ?_
  rw [hstored.probe_entry rfl (.refl _), ht]

/-- Where the temporary file can be written in full and taken away, it has no cause to stay. -/
theorem Clears.not_stays (h : Clears w output text) (htarget : targetOf w output = .ok target)
    (htmp : temporaryOf target = .ok temporary) (hopens : w.Opens temporary) :
    ¬ ((w.content temporary text).2 ≠ .ok () ∨ w.refuses (.unlinking temporary) ≠ none) := by
  obtain ⟨hall, hadmitted⟩ := h target temporary htarget htmp hopens
  rintro (hpart | hrefused)
  · exact hpart hall
  · exact hrefused hadmitted

/-- **What has changed when the temporary file has been stored and taken away again** is what stood at its path. -/
theorem temporaryAt_of_remove (hw : w.top.WellFormed) (hunlinked : Unlinked w output)
    (htarget : targetOf w output = .ok target) (htmp : temporaryOf target = .ok temporary)
    (hstored : w.StoredAt temporary d name stored)
    (hchanged : ((w.top.put stored (.file bytes)).remove (d ++ [name])).kindAt? l ≠ w.top.kindAt? l) :
    TemporaryAt w output l := by
  obtain rfl := stored_eq_of_unlinked hunlinked htarget htmp hstored
  have hentry : l = d ++ [name] := by
    by_contra hentry
    exact hchanged (hstored.kindAt?_remove hw.distinct hentry hentry)
  subst hentry
  have hplace := hstored.locate_entry rfl (.refl _)
  cases hnode : w.top.at? (d ++ [name]) with
  | none => exact absurd (congrArg (Node.kindAt? · (d ++ [name])) (hstored.remove_put hnode)) hchanged
  | some node =>
      rw [hnode] at hplace
      exact ⟨target, temporary, node, htarget, htmp, by rw [hstored.probe_entry rfl (.refl _), hnode], hplace⟩

/-! ## Writes -/

/-- **What a write that stops leaves behind**: the world before it, or one in which a temporary file has been stored.
    The entry of that has been taken away again, unless the file holds a part of the text only or its removal is
    refused. -/
inductive Stopped (w : World) (output : Path) (text : Text.CodePoints) : World → Prop
  | unchanged : Stopped w output text w
  | undone {target temporary : Path} {bytes : List UInt8} {d stored : Location} {name : Name}
      (target_eq : targetOf w output = .ok target) (temporary_eq : temporaryOf target = .ok temporary)
      (storedAt : w.StoredAt temporary d name stored) :
      Stopped w output text { w with top := (w.top.put stored (.file bytes)).remove (d ++ [name]) }
  | left {target temporary : Path} {bytes : List UInt8} {d stored : Location} {name : Name}
      (target_eq : targetOf w output = .ok target) (temporary_eq : temporaryOf target = .ok temporary)
      (opens : w.Opens temporary) (storedAt : w.StoredAt temporary d name stored)
      (stays : (w.content temporary text).2 ≠ .ok () ∨ w.refuses (.unlinking temporary) ≠ none) :
      Stopped w output text { w with top := w.top.put stored (.file bytes) }

/-- An opened temporary file that cannot be taken away stays, if it has been stored at all. -/
theorem Opened.stopped {w₁ : World} {fault : Fault} (h : Opened w output target temporary bytes w₁)
    (hdiscard : w₁.discard temporary = .error fault) : Stopped w output text w₁ := by
  obtain ⟨d, name, _, ⟨_, rfl⟩ | ⟨stored, hstored, rfl⟩⟩ := h.storedAt
  · exact .unchanged
  · refine .left h.targetOf_eq h.temporaryOf_eq h.opens hstored (.inr fun hadmitted => ?_)
    rw [World.discard, hadmitted, hstored.unlink_eq] at hdiscard
    cases hdiscard

theorem stopped_of_course (h : Course w output text w' (.error stop)) : Stopped w output text w' := by
  cases h with
  | targetless => exact .unchanged
  | nameless => exact .unchanged
  | unencodable => exact .unchanged
  | nul => exact .unchanged
  | unopened => exact .unchanged
  | cutOff opened part =>
      obtain ⟨d, name, _, ⟨_, rfl⟩ | ⟨stored, hstored, rfl⟩⟩ := opened.storedAt
      · exact .unchanged
      · exact .left opened.targetOf_eq opened.temporaryOf_eq opened.opens hstored (.inl (by simp [part]))
  | undone opened _ _ discard_eq =>
      obtain ⟨_, hunlink⟩ := World.discard_eq_ok_iff.1 discard_eq
      obtain ⟨d, name, _, ⟨hmissing, rfl⟩ | ⟨stored, hstored, rfl⟩⟩ := opened.storedAt
      · rw [World.unlink_missing hmissing] at hunlink
        cases hunlink
      · rw [hstored.unlink_eq, Except.ok.injEq] at hunlink
        exact hunlink ▸ .undone opened.targetOf_eq opened.temporaryOf_eq hstored
  | lost opened _ _ discard_eq => exact opened.stopped discard_eq
  | stuck opened _ _ discard_eq => exact opened.stopped discard_eq

theorem stopped_of_writeText (h : writeText w output text = (w', .error stop)) : Stopped w output text w' :=
  stopped_of_course (course_iff.2 h)

/-- **A write that stops leaves the world as it is** if nothing stands at the path of the temporary file and an opened
    one can be written in full and taken away. -/
theorem Stopped.eq_of_vacant (h : Stopped w output text w') (hvacant : Vacant w output)
    (hclears : Clears w output text) : w' = w := by
  cases h with
  | unchanged => rfl
  | undone htarget htmp hstored => rw [hstored.remove_put (missing_of_vacant hvacant htarget htmp hstored)]
  | left htarget htmp hopens _ hstays => exact absurd hstays (hclears.not_stays htarget htmp hopens)

/-- What a write that stops has changed is at the path of the temporary file. -/
theorem Stopped.temporaryAt (h : Stopped w output text w') (hw : w.top.WellFormed) (hunlinked : Unlinked w output)
    (hclears : Clears w output text) (hchanged : w'.top.kindAt? l ≠ w.top.kindAt? l) : TemporaryAt w output l := by
  cases h with
  | unchanged => exact absurd rfl hchanged
  | undone htarget htmp hstored => exact temporaryAt_of_remove hw hunlinked htarget htmp hstored hchanged
  | left htarget htmp hopens _ hstays => exact absurd hstays (hclears.not_stays htarget htmp hopens)

namespace Site

/-- The tree after the entry of the temporary file has become that of the document. -/
def replaced (s : Site w output) (bytes : List UInt8) (node : Node) : Node :=
  ((s.withStored bytes).remove s.temporaryEntry).put s.entry node

variable (s : Site w output)

/-- The entry of the temporary file is not on the way to the document or below it. -/
theorem not_prefix (t : Location) : ¬ s.temporaryEntry <+: s.entry ++ t := by
  intro h
  rw [temporaryEntry, entry, List.append_assoc, List.prefix_append_right_inj, List.singleton_append,
    List.cons_prefix_cons] at h
  have hlength := length_temporaryName s.name
  rw [h.1] at hlength
  omega

/-- The directory of the document is still there without the entry of the temporary file. -/
theorem hasDirectory_removed : ((s.withStored bytes).remove s.temporaryEntry).HasDirectory s.directory := by
  have hapart : ¬ s.temporaryEntry <+: s.directory := by
    intro h
    have hlength := h.length_le
    rw [temporaryEntry, List.length_append, List.length_singleton] at hlength
    omega
  rw [← Node.kindAt?_eq_directory_iff, Node.kindAt?_remove_of_not_prefix hapart, Node.kindAt?_eq_directory_iff]
  exact s.storedAt.keeps.hasDirectory s.hasDirectory

/-- The node has become the entry of the document. -/
theorem at?_replaced : (s.replaced bytes node).at? s.entry = some node :=
  Node.at?_put_concat s.hasDirectory_removed

/-- Moving a node with nothing below it changes its entry and that of the document. -/
theorem kindAt?_replaced (hnode : node.isDirectory = false) (hdir : ¬ (s.withStored bytes).HasDirectory s.entry)
    (hentry : l ≠ s.entry) :
    (s.replaced bytes node).kindAt? l = ((s.withStored bytes).remove s.temporaryEntry).kindAt? l := by
  refine Node.kindAt?_put_leaf s.hasDirectory_removed (fun t ht => ?_) (fun t ht => ?_) hentry
  · have hbelow : (s.withStored bytes).at? (s.entry ++ t) = none := Node.at?_append_of_not_hasDirectory hdir ht
    have hkind : ((s.withStored bytes).remove s.temporaryEntry).kindAt? (s.entry ++ t) =
        (s.withStored bytes).kindAt? (s.entry ++ t) := Node.kindAt?_remove_of_not_prefix (s.not_prefix t)
    rwa [Node.kindAt?, Node.kindAt?, hbelow, Option.map_none, Option.map_eq_none_iff] at hkind
  · obtain ⟨x, r, rfl⟩ := List.exists_cons_of_ne_nil ht
    cases node with
    | file old => rfl
    | link target => rfl
    | directory entries => cases hnode

end Site

/-- **What a write that succeeds has changed is the document, or at the path of the temporary file.** -/
theorem documentAt_or_temporaryAt (hw : w.top.WellFormed) (hunlinked : Unlinked w output)
    (h : writeText w output text = (w', .ok ())) (hchanged : w'.top.kindAt? l ≠ w.top.kindAt? l) :
    DocumentAt w output l ∨ TemporaryAt w output l := by
  obtain ⟨s, bytes, node, _, _, hleaf, hdir, rfl⟩ := exists_site h
  by_cases hentry : l = s.entry
  · left
    subst hentry
    exact ⟨s.target, _, s.targetOf_eq, s.locate_entry⟩
  · right
    have hkind : (s.replaced bytes node).kindAt? l = ((s.withStored bytes).remove s.temporaryEntry).kindAt? l :=
      s.kindAt?_replaced hleaf hdir hentry
    exact temporaryAt_of_remove hw hunlinked s.targetOf_eq s.temporaryOf_eq s.storedAt (hkind ▸ hchanged)

theorem unchanged_rest (h : writeText w output text = (w', result)) : ∃ top', w' = { w with top := top' } := by
  rcases result with stop | _
  · cases stopped_of_writeText h with
    | unchanged => exact ⟨w.top, rfl⟩
    | undone => exact ⟨_, rfl⟩
    | left => exact ⟨_, rfl⟩
  · obtain ⟨s, bytes, node, _, _, _, _, rfl⟩ := exists_site h
    exact ⟨_, rfl⟩

/-- **A write leaves everything else alone.** Suppose that a temporary file that is opened can be written in full and
    taken away. If the write stops, and nothing stands at the path of the temporary file, the world is as it was.
    In any case, if no link stands there, what has changed is the entry of the document after a write that succeeds,
    or it is something that stood at the path of the temporary file. -/
theorem writeText_frame (hw : w.top.WellFormed) (hclears : Clears w output text)
    (h : writeText w output text = (w', result)) :
    (∀ stop, result = .error stop → Vacant w output → w' = w) ∧
      (∃ top', w' = { w with top := top' }) ∧
      (Unlinked w output → ∀ l, w'.top.kindAt? l ≠ w.top.kindAt? l →
        result = .ok () ∧ DocumentAt w output l ∨ TemporaryAt w output l) := by
  refine ⟨?_, unchanged_rest h, fun hunlinked l hchanged => ?_⟩
  · rintro stop rfl hvacant
    exact (stopped_of_writeText h).eq_of_vacant hvacant hclears
  · rcases result with stop | _
    · exact .inr ((stopped_of_writeText h).temporaryAt hw hunlinked hclears hchanged)
    · exact (documentAt_or_temporaryAt hw hunlinked h hchanged).imp_left fun hdocument => ⟨rfl, hdocument⟩

/-- Two directories, and two files with the names of temporary files. -/
def neighbourWorld : World where
  top := .directory
    [("d".toList, .directory []), ("d.tmp".toList, .file [77]), ("e".toList, .directory []),
      ("o.md.tmp".toList, .file [77])]
  here := []

theorem wellFormed_neighbourWorld : neighbourWorld.top.WellFormed := by
  refine .directory (by decide) (by decide) ?_
  simp only [List.forall_mem_cons, List.not_mem_nil, false_imp_iff, implies_true, and_true]
  exact ⟨.flat (by decide) (by decide) (by decide), .file, .flat (by decide) (by decide) (by decide), .file⟩

/-- How a write stops whose document is a directory. -/
def directoryStop (name : String) : Stop :=
  .failed (.writing (.ofText name.toList) (.refused
    { cause := .isDirectory, path := .ofText (name ++ ".tmp").toList, target? := some (.ofText name.toList) }))

/-- Nothing is refused there, and texts of characters are written in full. -/
theorem clears_neighbourWorld (output : Path) (text : Text) : Clears neighbourWorld output (.ofText text) := by
  intro _ _ _ _ _
  refine ⟨?_, rfl⟩
  simp [World.content, neighbourWorld]

/-- A write to a directory with nothing beside it. -/
theorem writeText_frame_directory :
    ∃ w', writeText neighbourWorld (.ofText "e".toList) (.ofText "new".toList) = (w', .error (directoryStop "e")) ∧
      w' = neighbourWorld := by
  have hstopped : (writeText neighbourWorld (.ofText "e".toList) (.ofText "new".toList)).2 =
      .error (directoryStop "e") := by decide +kernel
  have hvacant : Vacant neighbourWorld (.ofText "e".toList) := vacant_of_probe rfl rfl rfl
  obtain ⟨hsame, _⟩ := writeText_frame wellFormed_neighbourWorld (clears_neighbourWorld _ _) (Prod.ext rfl hstopped)
  exact ⟨_, Prod.ext rfl hstopped, hsame _ rfl hvacant⟩

/-- A file with the name of the temporary file is gone after a write, whether that succeeds or not. -/
theorem writeDocument_takes_neighbour :
    neighbourWorld.top.WellFormed ∧
      (neighbourWorld.locate .entry (.ofText "o.md".toList) = .ok (["o.md".toList], none) ∧
        ∃ w', writeDocument neighbourWorld (.ofText "o.md".toList) "new".toList = (w', .ok ()) ∧
          neighbourWorld.top.kindAt? ["o.md.tmp".toList] = some (.file [77]) ∧
          w'.top.kindAt? ["o.md.tmp".toList] = none) ∧
      ∃ w', writeDocument neighbourWorld (.ofText "d".toList) "new".toList = (w', .error (directoryStop "d")) ∧
        neighbourWorld.top.kindAt? ["d.tmp".toList] = some (.file [77]) ∧ w'.top.kindAt? ["d.tmp".toList] = none :=
  ⟨wellFormed_neighbourWorld,
    ⟨rfl, _, Prod.ext rfl (by decide +kernel), rfl, rfl⟩,
    _, Prod.ext rfl (by decide +kernel), rfl, rfl⟩

end PolicyTable.Policy
