import PolicyTable.Proofs.FileSystem.Moved
import PolicyTable.Proofs.Policy.Frame
import PolicyTable.Proofs.Sequence

/-!
# `PolicyTable.Proofs.Policy.Preservation` — a run that stops early and the document from before

A run can stop in many places, and most of them come before it has changed anything. A write that stops later has
stored a temporary file, all of it or a part, and has taken its entry away again, or not. Every other file is read as
before, since the way to it goes through the entry only if it ends at the file that has been stored.

That file may be the document itself: the path of the temporary file may be a link to it. Then the text is in the
document when the renaming is refused, or it has been cut off there.

## Contents
- **Ways.** `Leads.of_stored`: a way to another file goes on as before.
- **Reading.** `World.StoredAt.read_eq`, for any tree that differs at the two places only.
- **Runs.** `SharesFile`; `read_writeText_of_error` for a write.

Main statement: `read_document_of_error`, with `document_overwritten` for a document that is not left alone.
-/

namespace PolicyTable.FileSystem

open Node (HasDirectory HasLink)

variable {top top' : Node} {l m d s : Location} {names : List Name} {x : Name} {n links : Nat}

/-! ## Ways -/

/-- **A way that does not end where the entry `x` leads goes on as before**, if the tree has changed there and at the
    entry only, and neither is a directory. -/
theorem Leads.of_stored (h : Leads top .node l names n m) (hentry : Leads top .node d [x] links s)
    (hd : top.HasDirectory d) (hx : ¬ top.HasDirectory (d ++ [x])) (hs : ¬ top.HasDirectory s) (hm : m ≠ s)
    (hrest : ∀ l, l ≠ d ++ [x] → l ≠ s → top'.kindAt? l = top.kindAt? l) : Leads top' .node l names n m := by
  have hlink : ¬ top.HasLink s := hentry.not_hasLink (by decide) hd
  obtain ⟨e, left, hwalk, hends⟩ := h
  induction hwalk with
  | @refl l names =>
      cases hends with
      | here => exact ⟨_, _, .refl, .here⟩
      | @entry name ho hnodir hnolink =>
          have hkind : top'.kindAt? (l ++ [name]) = top.kindAt? (l ++ [name]) := by
            refine hrest _ (fun heq => ?_) hm
            -- The entry itself is no link, so that it leads to its own place.
            obtain ⟨rfl, hname⟩ := List.append_inj' heq rfl
            obtain rfl : name = x := by simpa using hname
            have hself : Leads top .node l [name] 0 (l ++ [name]) := ⟨l, [name], .refl, .entry ho hnodir hnolink⟩
            exact hm (hself.unique hentry (by decide)).2
          refine ⟨_, _, .refl, .entry ho ?_ fun haim => ?_⟩
          · rwa [← Node.kindAt?_eq_directory_iff, hkind, Node.kindAt?_eq_directory_iff]
          · rintro ⟨t, ht⟩
            rw [← Node.kindAt?_eq_link_iff, hkind, Node.kindAt?_eq_link_iff] at ht
            exact hnolink haim ⟨t, ht⟩
  | @head l _ _ names _ _ k n hop hwalk ih =>
      refine (ih hends).head ?_
      cases hop with
      | parent => exact .parent
      | self hn => exact .self hn
      | @directory name rest ho hdir =>
          refine .directory ho ?_
          rwa [← Node.kindAt?_eq_directory_iff, hrest _ (fun heq => hx (heq ▸ hdir)) (fun heq => hs (heq ▸ hdir)),
            Node.kindAt?_eq_directory_iff]
      | @link name t rest ho ht =>
          refine .link ho ?_
          rwa [← Node.kindAt?_eq_link_iff, hrest _ (fun heq => ?_) (fun heq => hlink (heq ▸ ⟨t, ht⟩)),
            Node.kindAt?_eq_link_iff]
          -- A way through the entry ends where the entry leads.
          obtain ⟨rfl, hname⟩ := List.append_inj' heq rfl
          obtain rfl : name = x := by simpa using hname
          have hthrough : Leads top .node l (name :: rest) (n + 1) m := ⟨_, _, .head (.link ho ht) hwalk, hends⟩
          exact hm (hentry.eq_of_first (by decide) hthrough hs hd)

/-! ## Reading -/

/-- **Another file than the stored one is read as before**, if the tree has changed there and at the entry only. -/
theorem World.StoredAt.read_eq {w : World} {p q : Path} {name : Name} {bytes : List UInt8} (h : w.StoredAt p d name s)
    (hread : w.read q = .ok bytes) (hapart : ¬ w.Finds q s)
    (hrest : ∀ l, l ≠ d ++ [name] → l ≠ s → top'.kindAt? l = w.top.kindAt? l) :
    World.read { w with top := top' } q = .ok bytes := by
  rw [World.read_eq_ok_iff, World.probe_eq_some_iff] at hread ⊢
  obtain ⟨hnul, hlong, m, ⟨n, hn, hleads⟩, hm⟩ := hread
  have hms : m ≠ s := fun heq => hapart ⟨n, hn, heq ▸ hleads⟩
  obtain ⟨links, hentry⟩ := h.leads
  refine ⟨hnul, hlong, m, ⟨n, hn, hleads.of_stored (hentry.of_aim (by decide)) h.hasDirectory h.not_hasDirectory
    h.free.not_hasDirectory hms hrest⟩, ?_⟩
  rw [← Node.kindAt?_eq_file_iff, hrest m (fun heq => ?_) hms, Node.kindAt?_eq_file_iff, hm]
  -- There is a file at the end of the way, so it is the stored one if it is the entry.
  subst heq
  refine hms (h.eq_of_not_hasLink ?_).symm
  rintro ⟨t, ht⟩
  rw [hm] at ht
  cases ht

end PolicyTable.FileSystem

namespace PolicyTable.Policy

open FileSystem

variable {w w' : World} {output : Path} {text : Text.CodePoints} {bytes : List UInt8} {stop : Stop}

/-! ## Runs -/

/-- The path of the temporary file leads to the file that is read as the document. -/
def SharesFile (w : World) (output : Path) : Prop :=
  ∃ target temporary m node?, targetOf w output = .ok target ∧ temporaryOf target = .ok temporary ∧
    w.locate .file temporary = .ok (m, node?) ∧ w.Finds output m

/-- Where the temporary file is stored, it is not the document. -/
theorem not_finds_of_storedAt {target temporary : Path} {d stored : Location} {name : Name}
    (hapart : ¬ SharesFile w output) (htarget : targetOf w output = .ok target)
    (htmp : temporaryOf target = .ok temporary) (hstored : w.StoredAt temporary d name stored) :
    ¬ w.Finds output stored := by
  intro hfinds
  exact hapart ⟨target, temporary, stored, _, htarget, htmp, hstored.locate_file, hfinds⟩

/-- **A write that stops leaves the document as it was**, unless the path of the temporary file leads to it. -/
theorem read_writeText_of_error (hw : w.top.WellFormed) (h : writeText w output text = (w', .error stop))
    (hread : w.read output = .ok bytes) (hapart : ¬ SharesFile w output) : w'.read output = .ok bytes := by
  cases stopped_of_writeText h with
  | unchanged => exact hread
  | undone htarget htmp hstored =>
      refine hstored.read_eq hread (not_finds_of_storedAt hapart htarget htmp hstored) fun l hentry hfile => ?_
      exact hstored.kindAt?_remove hw.distinct hentry hfile
  | left htarget htmp _ hstored _ =>
      refine hstored.read_eq hread (not_finds_of_storedAt hapart htarget htmp hstored) fun l _ hfile => ?_
      exact Node.kindAt?_put_free hstored.free hfile

/-- **A run that stops early leaves the document as it was**, unless the path of the temporary file leads to it.
    Whatever the tree is, whatever is refused and wherever the run stops, what could be read at the document's path
    before is read there afterwards. -/
theorem read_document_of_error (w : World) (tools : Tools) (o : Options) {stop : Stop} {bytes : List UInt8}
    (hw : w.top.WellFormed) (hstop : (document w tools o).2 = .error stop)
    (hread : w.read o.outputPath = .ok bytes) (hapart : ¬ SharesFile w o.outputPath) :
    (document w tools o).1.read o.outputPath = .ok bytes := by
  unfold document at hstop ⊢
  cases hfound : collectRecords w tools o.root with
  | error => exact hread
  | ok found =>
      rw [hfound] at hstop
      dsimp only at hstop ⊢
      have hwritten := map_eq_error_iff.1 hstop
      exact read_writeText_of_error hw (Prod.ext rfl hwritten) hread hapart

/-- A directory with a document from before, on a disk that is full after one byte. -/
def fullWorld : World where
  top := .directory [("p".toList, .directory [("policies.md".toList, .file [79])])]
  here := []
  breaksOff := fun _ _ => some (1, .noSpace)

def fullOptions : Options := { root := .ofText "p".toList }

/-- How a run stops there. The temporary file stays, with the first byte. -/
def fullStop : Stop := .failed (.writing (.ofText "p/policies.md".toList) (.brokenOff .noSpace))

theorem wellFormed_fullWorld : fullWorld.top.WellFormed :=
  .directory (by decide) (by decide) (by simpa using .flat (by decide) (by decide) (by decide))

theorem not_sharesFile_fullWorld : ¬ SharesFile fullWorld fullOptions.outputPath := by
  rintro ⟨target, temporary, m, node?, htarget, htmp, hstored, hfinds⟩
  obtain rfl : Path.ofText "p/policies.md".toList = target := Except.ok.inj htarget
  obtain rfl : Path.ofText "p/policies.md.tmp".toList = temporary := Except.ok.inj htmp
  obtain ⟨rfl, -⟩ : ["p".toList, "policies.md.tmp".toList] = m ∧ none = node? := Prod.mk.inj (Except.ok.inj hstored)
  have hlocate := hfinds.locate_eq (by decide +kernel)
  cases hlocate

theorem read_document_of_full :
    (document fullWorld .plain fullOptions).2 = .error fullStop ∧
      fullWorld.read fullOptions.outputPath = .ok [79] ∧
      (document fullWorld .plain fullOptions).1.read fullOptions.outputPath = .ok [79] ∧
      (document fullWorld .plain fullOptions).1.read (.ofText "p/policies.md.tmp".toList) = .ok [35] := by
  have hstop : (document fullWorld .plain fullOptions).2 = .error fullStop := by decide +kernel
  have hread : fullWorld.read fullOptions.outputPath = .ok [79] := by decide
  exact ⟨hstop, hread, read_document_of_error fullWorld _ fullOptions wellFormed_fullWorld hstop hread
    not_sharesFile_fullWorld, by decide +kernel⟩

/-- A document that is a link to a file in another directory. Nothing may be renamed or taken away there, and a link
    with the name of the temporary file leads to the file. -/
def lockedWorld : World where
  top := .directory
    [("docs".toList,
        .directory [("real.md".toList, .file [79]), ("real.md.tmp".toList, .link "real.md".toList)]),
      ("p".toList, .directory [("policies.md".toList, .link "../docs/real.md".toList)])]
  here := []
  refuses
    | .opening _ => none
    | .renaming _ _ | .unlinking _ => some .permissionDenied

/-- Names that are so long, and so many, that the path of an entry below them is too long to be looked at. -/
def farNames : List Name := List.replicate 16 (List.replicate 240 'd')

def farName : Name := List.replicate 250 'l'

/-- The way back up from below these names. -/
def farUp : Text := (List.replicate 16 "../".toList).flatten

/-- Entries below names. -/
def below (entries : Entries) : List Name → Entries
  | [] => entries
  | name :: names => [(name, .directory (below entries names))]

/-- A document that is a link. It leads to a file at the top through a link that the search for the path without links
    overlooks. The search finds a directory far below instead, and beside it a link to the file. -/
def overlookedWorld : World where
  top := .directory <|
    [("p".toList, .directory [("policies.md".toList, .link ("../s/".toList ++ farName ++ "/../real.md".toList))]),
      ("q".toList, .directory []), ("real.md".toList, .file [79]),
      ("s".toList, .link (List.intercalate ['/'] farNames))] ++
    below [("real.md".toList, .directory []), ("real.md.tmp".toList, .link (farUp ++ "real.md".toList)),
      (farName, .link (farUp ++ "q".toList))] farNames
  here := []

/-- A run stops, and the text that could not be put in place is read at the path of the document. -/
def Overwritten (w : World) : Prop :=
  w.read fullOptions.outputPath = .ok [79] ∧ (∃ stop, (document w .plain fullOptions).2 = .error stop) ∧
    (document w .plain fullOptions).1.read fullOptions.outputPath = .ok (Text.Utf8.encode (Annotations.document []))

theorem overwritten_of_isOk (hread : w.read fullOptions.outputPath = .ok [79])
    (hdone : (document w .plain fullOptions).2.isOk = false ∧
      (document w .plain fullOptions).1.read fullOptions.outputPath =
        .ok (Text.Utf8.encode (Annotations.document []))) : Overwritten w := by
  obtain ⟨hstop, hread'⟩ := hdone
  refine ⟨hread, ?_, hread'⟩
  cases hresult : (document w .plain fullOptions).2 with
  | error stop => exact ⟨stop, rfl⟩
  | ok summary =>
      rw [hresult] at hstop
      cases hstop

/-- That happens in both worlds. -/
theorem document_overwritten : Overwritten lockedWorld ∧ Overwritten overlookedWorld := by
  constructor
  · exact overwritten_of_isOk (by decide) (by decide +kernel)
  · exact overwritten_of_isOk (by decide +kernel) (by decide +kernel)

end PolicyTable.Policy
