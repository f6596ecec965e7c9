import PolicyTable.Proofs.FileSystem.Below
import PolicyTable.Proofs.Policy.Writing

/-!
# `PolicyTable.Proofs.Policy.Storing` — where writing the document is not handled

Where the system refuses to open the temporary file, to write to it or to rename it, that is handled. Taking the
temporary file away again is not: as far as the tree goes it can always be done, but it may be refused all the same.
Nor are the operations before the file is opened, and texts without bytes. A look at the document may be refused, the
links in its path may run in a circle or have no end, it may have no last name, there may be a NUL in its path, or
its path or its text may have no bytes.

## Contents
- **Storing.** `World.StoredAt`: the entry that a path names, and the location where its file is stored. As far as the
  tree goes, what has been stored can be taken away again (`World.StoredAt.unlink_eq`).
- **Temporary file.** Where the opened one is (`Opened.storedAt`).
- **Writing.** `WriteEscapes`, and `writeText_crashed_iff`.
-/

namespace PolicyTable.FileSystem

open Node (HasDirectory Keeps)

namespace World

variable {w w' : World} {p : Path} {d m : Location} {name : Name} {front : List Name} {bytes : List UInt8}

/-! ## Storing -/

/-- A path that is stored at names an entry of a place. -/
theorem names_of_store (h : w.store p bytes = .ok w') (hparts : p.parts = front ++ [name]) :
    ∃ d, w.Names p d name := by
  obtain ⟨_, m, node?, hplace, _⟩ := eq_of_store h
  obtain ⟨_, _, n, hn, hleads⟩ := leads_of_locate hplace
  rw [hparts] at hleads
  obtain ⟨n₁, n₂, d, rfl, hwalk, _⟩ := hleads.of_append (by simp)
  exact ⟨d, front, n₁, hparts, by omega, hwalk⟩

theorem hasNul_of_store (h : w.store p bytes = .ok w') : p.hasNul = false := by
  by_contra hnul
  rw [store, if_pos (by simpa using hnul)] at h
  cases h

/-- Where the file at a path is stored. The path names an entry of a directory and leads to a location where a file
    may be put, which is another one if the entry is a link. -/
structure StoredAt (w : World) (p : Path) (d : Location) (name : Name) (m : Location) : Prop where
  names : w.Names p d name
  hasDirectory : w.top.HasDirectory d
  isLong_eq : p.isLong = false
  hasNul_eq : p.hasNul = false
  isOrdinary_name : isOrdinary name = true
  locate_file : w.locate .file p = .ok (m, w.top.at? m)
  free : w.top.Free m

/-- A store that succeeds has put the file at such a location, or there was no directory for it. -/
theorem Names.storedAt_of_store (hnames : w.Names p d name) (hpart : isPart name = true) (hp : name ≠ parentName)
    (h : w.store p bytes = .ok w') :
    w.locate .entry p = .ok (d ++ [name], none) ∧ w' = w ∨
      ∃ m, w.StoredAt p d name m ∧ w' = { w with top := w.top.put m (.file bytes) } := by
  have hnul := hasNul_of_store h
  obtain ⟨ho, _, hcases⟩ := hnames.store_spec hpart hp h
  obtain ⟨hlong, m, node?, hplace, hnode, rfl⟩ := eq_of_store h
  obtain ⟨rfl, _, hfree⟩ := hnames.leads_of_locate hlong hpart hplace hnode
  rcases hcases with ⟨hd, hsame⟩ | ⟨hd, _⟩
  · left
    refine ⟨?_, hsame⟩
    rw [hnames.locate_entry hlong ho, Node.at?_concat_of_not_hasDirectory hd]
  · right
    exact ⟨m, ⟨hnames, hd, hlong, hnul, ho, hplace, hfree hd⟩, rfl⟩

namespace StoredAt

variable (h : w.StoredAt p d name m)

include h

theorem isPart_name : isPart name = true := by
  obtain ⟨_, hs, he, _⟩ := isOrdinary_iff.1 h.isOrdinary_name
  by_contra hpart
  exact not_or.2 ⟨hs, he⟩ (isPart_eq_false (Bool.eq_false_iff.2 hpart))

/-- The entry leads to where the file is stored. -/
theorem leads : ∃ n, Leads w.top .file d [name] n m := by
  have hnode : ∀ entries, w.top.at? m ≠ some (.directory entries) :=
    fun entries hentries => h.free.not_hasDirectory ⟨entries, hentries⟩
  obtain ⟨_, hleads, _⟩ := h.names.leads_of_locate h.isLong_eq h.isPart_name h.locate_file hnode
  exact hleads

/-- The file is stored at the entry itself, unless that is a link. -/
theorem cases_leads : m = d ++ [name] ∧ ¬ w.top.HasDirectory (d ++ [name]) ∨ w.top.HasLink (d ++ [name]) := by
  obtain ⟨_, hleads⟩ := h.leads
  obtain ⟨_, ⟨_, hm, hnodir, _⟩ | ⟨hd, hrest⟩ | ⟨target, _, hlink, _⟩⟩ :=
    hleads.cases_part (by decide) h.isPart_name (isOrdinary_iff.1 h.isOrdinary_name).1
  · exact .inl ⟨hm, hnodir⟩
  · exact absurd (hrest.eq_of_nil ▸ hd) h.free.not_hasDirectory
  · exact .inr ⟨target, hlink⟩

/-- A file whose entry is missing is stored there. -/
theorem eq_of_missing (hnone : w.top.at? (d ++ [name]) = none) : m = d ++ [name] := by
  rcases h.cases_leads with ⟨hm, _⟩ | ⟨target, hlink⟩
  · exact hm
  · rw [hnone] at hlink
    cases hlink

theorem not_hasDirectory : ¬ w.top.HasDirectory (d ++ [name]) := by
  rcases h.cases_leads with ⟨_, hd⟩ | hlink
  · exact hd
  · exact fun hd => hd.not_hasLink hlink

/-- The entry is no directory after the store either. -/
theorem not_hasDirectory_put : ¬ (w.top.put m (.file bytes)).HasDirectory (d ++ [name]) := by
  by_cases hm : d ++ [name] = m
  · rintro ⟨entries, hdir⟩
    rw [← hm, Node.at?_put_concat h.hasDirectory] at hdir
    cases hdir
  · rw [← Node.kindAt?_eq_directory_iff, Node.kindAt?_put_free h.free hm, Node.kindAt?_eq_directory_iff]
    exact h.not_hasDirectory

theorem keeps : Keeps w.top (w.top.put m (.file bytes)) := Node.keeps_put h.free

/-- A change that keeps the directories and the links keeps the place of the entry. -/
theorem locate_entry (hhere : w'.here = w.here) (hkeeps : Keeps w.top w'.top) :
    w'.locate .entry p = .ok (d ++ [name], w'.top.at? (d ++ [name])) :=
  (h.names.keeps hhere hkeeps).locate_entry h.isLong_eq h.isOrdinary_name

theorem probe_entry (hhere : w'.here = w.here) (hkeeps : Keeps w.top w'.top) :
    w'.probe .entry p = .ok (w'.top.at? (d ++ [name])) := by
  rw [probe, if_neg (by simp [h.hasNul_eq]), h.locate_entry hhere hkeeps]

/-- **What has been stored can be taken away again**, if that is not refused. -/
theorem unlink_eq : World.unlink { w with top := w.top.put m (.file bytes) } p =
    .ok { w with top := (w.top.put m (.file bytes)).remove (d ++ [name]) } := by
  have hentry : World.locate { w with top := w.top.put m (.file bytes) } .entry p =
      .ok (d ++ [name], (w.top.put m (.file bytes)).at? (d ++ [name])) := h.locate_entry rfl h.keeps
  have hnode : ∃ node, (w.top.put m (.file bytes)).at? (d ++ [name]) = some node := by
    cases hold : w.top.at? (d ++ [name]) with
    | none =>
        rw [h.eq_of_missing hold]
        exact ⟨_, Node.at?_put_concat h.hasDirectory⟩
    | some old => exact h.keeps.at?_some hold
  obtain ⟨node, hnode⟩ := hnode
  rw [hnode] at hentry
  unfold unlink
  rw [hentry]
  cases node with
  | file old => rfl
  | link target => rfl
  | directory entries => exact absurd ⟨entries, hnode⟩ h.not_hasDirectory_put

end StoredAt

end World

end PolicyTable.FileSystem

namespace PolicyTable.Policy

open FileSystem

variable {w w₁ : World} {output target temporary : Path} {text : Text.CodePoints} {bytes : List UInt8} {crash : Crash}

/-! ## Temporary file -/

/-- If a temporary file can be stored then its path and that of the document name entries of one directory. -/
theorem exists_names_of_store (htmp : temporaryOf target = .ok temporary) (hstore : w.store temporary bytes = .ok w₁) :
    ∃ d last, w.Names target d last := by
  obtain ⟨front, last, hparts⟩ := exists_concat_of_temporaryOf htmp
  have hparts' : temporary.parts = front ++ [last ++ temporarySuffix] := by rw [eq_of_temporaryOf hparts htmp]
  obtain ⟨d, front', n, hfront, hn, hwalk⟩ := World.names_of_store hstore hparts'
  obtain ⟨rfl, _⟩ := List.append_inj' (hparts'.symm.trans hfront) rfl
  rw [eq_of_temporaryOf hparts htmp] at hwalk
  exact ⟨d, last, front, n, hparts, hn, hwalk⟩

/-- **An opened temporary file has been stored beside the target**, or there is no directory for it, and nothing has
    changed. -/
theorem Opened.storedAt (h : Opened w output target temporary bytes w₁) :
    ∃ d name, w.Names target d name ∧
      (w.locate .entry temporary = .ok (d ++ [name ++ temporarySuffix], none) ∧ w₁ = w ∨
        ∃ m, w.StoredAt temporary d (name ++ temporarySuffix) m ∧
          w₁ = { w with top := w.top.put m (.file bytes) }) := by
  obtain ⟨d, name, hnames⟩ := exists_names_of_store h.temporaryOf_eq h.store_eq
  exact ⟨d, name, hnames, (names_temporaryOf hnames h.temporaryOf_eq).storedAt_of_store (isPart_temporaryName name)
    (temporaryName_ne_parentName name) h.store_eq⟩

/-- As far as the tree goes, an opened temporary file can be taken away, or is not found. -/
theorem Opened.unlink_cases (h : Opened w output target temporary bytes w₁) :
    (∃ w₂, w₁.unlink temporary = .ok w₂) ∨ w₁.unlink temporary = .error { cause := .notFound, path := temporary } := by
  obtain ⟨d, name, _, ⟨hmissing, rfl⟩ | ⟨m, hstored, rfl⟩⟩ := h.storedAt
  · exact .inr (World.unlink_missing hmissing)
  · exact .inl ⟨_, hstored.unlink_eq⟩

theorem Opened.refuses_eq (h : Opened w output target temporary bytes w₁) : w₁.refuses = w.refuses := by
  obtain ⟨_, _, _, _, _, rfl⟩ := World.eq_of_store h.store_eq
  rfl

/-! ## Writing -/

/-- The crashes of writing a document at a path. -/
inductive WriteEscapes (w : World) (output : Path) (text : Text.CodePoints) : Crash → Prop
  | look {fault : Fault} (refused : w.probe .entry output = .error fault) : WriteEscapes w output text (.refused fault)
  | unresolved {t : Text} {unresolved : Unresolved} (link : w.probe .entry output = .ok (some (.link t)))
      (realPath_eq : w.realPath output = .error unresolved) : WriteEscapes w output text (unresolvedCrash unresolved)
  | nameless {target : Path} (target_eq : targetOf w output = .ok target) (noName : target.parts = []) :
      WriteEscapes w output text (.noName target)
  | unencodableName {target temporary : Path} {gap : Text.Gap} (target_eq : targetOf w output = .ok target)
      (temporary_eq : temporaryOf target = .ok temporary)
      (gap_eq : Text.Gap.find? w.lacks Char.toNat temporary.text = some gap) :
      WriteEscapes w output text (.unencodable gap)
  | nul {target temporary : Path} (target_eq : targetOf w output = .ok target)
      (temporary_eq : temporaryOf target = .ok temporary)
      (encodable : Text.Gap.find? w.lacks Char.toNat temporary.text = none) (hasNul_eq : target.hasNul = true) :
      WriteEscapes w output text .nulInPath
  | unencodableText {target temporary : Path} {gap : Text.Gap} {w₁ : World}
      (opened : Opened w output target temporary [] w₁) (encode_eq : text.encode = .error gap) :
      WriteEscapes w output text (.unencodable gap)
  | removal {target temporary : Path} {bytes : List UInt8} {w₁ : World} {fault : Fault} {cause : Cause}
      (opened : Opened w output target temporary bytes w₁) (all : w.content temporary text = (bytes, .ok ()))
      (replace_eq : w₁.replace temporary target = .error fault)
      (refused : w.refuses (.unlinking temporary) = some cause) (cause_ne : cause ≠ .notFound) :
      WriteEscapes w output text (.refused { cause, path := temporary })

/-- There is a NUL in the path of a temporary file exactly if there is one in that of its target. -/
theorem hasNul_temporaryOf (h : temporaryOf target = .ok temporary) : temporary.hasNul = target.hasNul := by
  obtain ⟨front, last, hparts⟩ := exists_concat_of_temporaryOf h
  have hsuffix : '\x00' ∉ temporarySuffix := by decide
  have hname : '\x00' ∉ last ++ temporarySuffix ↔ '\x00' ∉ last := by
    rw [List.mem_append]
    exact not_congr (or_iff_left hsuffix)
  have hiff : temporary.hasNul = false ↔ target.hasNul = false := by
    rw [eq_of_temporaryOf hparts h, Path.hasNul_eq_false_iff, Path.hasNul_eq_false_iff, hparts]
    simp only [List.forall_mem_append, List.forall_mem_singleton, hname]
  cases htarget : target.hasNul with
  | false => exact hiff.2 htarget
  | true =>
      rw [← Bool.not_eq_false, hiff, htarget]
      exact Bool.noConfusion

/-- There is no target if the look at the document is refused, or if its links lead to no path. -/
theorem targetOf_eq_error_iff {stop : Stop} :
    targetOf w output = .error stop ↔
      (∃ fault, w.probe .entry output = .error fault ∧ stop = .crashed (.refused fault)) ∨
        ∃ t unresolved, w.probe .entry output = .ok (some (.link t)) ∧ w.realPath output = .error unresolved ∧
          stop = .crashed (unresolvedCrash unresolved) := by
  unfold targetOf
  constructor
  · intro h
    split at h
    · rename_i fault hlook
      cases h
      exact .inl ⟨fault, hlook, rfl⟩
    · rename_i t hlink
      split at h
      · cases h
      · rename_i unresolved hreal
        cases h
        exact .inr ⟨t, unresolved, hlink, hreal, rfl⟩
    · cases h
  · rintro (⟨fault, hlook, rfl⟩ | ⟨t, unresolved, hlink, hreal, rfl⟩)
    · rw [hlook]
    · simp only [hlink, hreal]

theorem temporaryOf_eq_error_iff {stop : Stop} :
    temporaryOf target = .error stop ↔ target.parts = [] ∧ stop = .crashed (.noName target) := by
  unfold temporaryOf Path.withName?
  by_cases hempty : target.parts = []
  · simp [hempty, eq_comm]
  · simp [hempty]

/-- The crashes of writing are real. -/
theorem WriteEscapes.crashed (h : WriteEscapes w output text crash) :
    ∃ w', Course w output text w' (.error (.crashed crash)) := by
  cases h with
  | look refused => exact ⟨w, .targetless (targetOf_eq_error_iff.2 (.inl ⟨_, refused, rfl⟩))⟩
  | unresolved link hreal => exact ⟨w, .targetless (targetOf_eq_error_iff.2 (.inr ⟨_, _, link, hreal, rfl⟩))⟩
  | nameless htarget noName => exact ⟨w, .nameless htarget (temporaryOf_eq_error_iff.2 ⟨noName, rfl⟩)⟩
  | unencodableName htarget htmp hgap => exact ⟨w, .unencodable htarget htmp hgap⟩
  | nul htarget htmp hgap hnul => exact ⟨w, .nul htarget htmp hgap ((hasNul_temporaryOf htmp).trans hnul)⟩
  | @unencodableText _ temporary gap w₁ opened hencode =>
      have hpart : w.content temporary text = ([], .error (.unencodable gap)) := by
        simp only [World.content, hencode]
      exact ⟨w₁, .cutOff opened hpart⟩
  | @removal _ temporary _ w₁ _ cause opened hall hreplace refused hcause =>
      have hdiscard : w₁.discard temporary = .error { cause, path := temporary } := by
        rw [World.discard, opened.refuses_eq, refused]
      exact ⟨w₁, .stuck opened hall hreplace hdiscard hcause⟩

/-- Writing crashes in no other way. -/
theorem writeEscapes_of_course {w' : World} (h : Course w output text w' (.error (.crashed crash))) :
    WriteEscapes w output text crash := by
  generalize hstop : (Except.error (.crashed crash) : Except Stop Unit) = result at h
  cases h with
  | targetless htarget =>
      cases hstop
      rcases targetOf_eq_error_iff.1 htarget with ⟨fault, hlook, heq⟩ | ⟨t, unresolved, hlink, hreal, heq⟩
      · cases heq
        exact .look hlook
      · cases heq
        exact .unresolved hlink hreal
  | nameless htarget htmp =>
      cases hstop
      obtain ⟨hparts, heq⟩ := temporaryOf_eq_error_iff.1 htmp
      cases heq
      exact .nameless htarget hparts
  | unencodable htarget htmp hgap =>
      cases hstop
      exact .unencodableName htarget htmp hgap
  | nul htarget htmp hgap hnul =>
      cases hstop
      exact .nul htarget htmp hgap (by rw [← hasNul_temporaryOf htmp, hnul])
  | unopened => cases hstop
  | cutOff opened hpart =>
      rcases World.content_eq_error hpart with ⟨gap, hencode, rfl, rfl⟩ | ⟨cause, rfl⟩
      · cases hstop
        exact .unencodableText opened hencode
      · cases hstop
  | replaced => cases hstop
  | undone => cases hstop
  | lost => cases hstop
  | @stuck _ temporary _ w₁ _ fault' opened hall hreplace hdiscard hcause =>
      cases hstop
      rw [World.discard, opened.refuses_eq] at hdiscard
      cases hrefused : w.refuses (.unlinking temporary) with
      | some cause =>
          rw [hrefused] at hdiscard
          cases hdiscard
          exact .removal opened hall hreplace hrefused hcause
      | none =>
          -- The tree would let it be taken away.
          rw [hrefused] at hdiscard
          dsimp only at hdiscard
          rcases opened.unlink_cases with ⟨w₂, hunlink⟩ | hunlink
          · rw [hunlink] at hdiscard
            cases hdiscard
          · rw [hunlink] at hdiscard
            cases hdiscard
            exact absurd rfl hcause

/-- **Writing crashes in these ways exactly.** -/
theorem writeText_crashed_iff :
    (writeText w output text).2 = .error (.crashed crash) ↔ WriteEscapes w output text crash := by
  constructor
  · intro h
    exact writeEscapes_of_course (course_iff.2 (Prod.ext rfl h))
  · intro h
    obtain ⟨w', hcourse⟩ := h.crashed
    rw [course_iff.1 hcourse]

/-- A temporary file that may not take the place of the document, and may not be taken away either. -/
example :
    (writeDocument
      { top := .directory [("o.md".toList, .file [79])]
        here := []
        refuses := fun change => if change = .opening (.ofText "o.md.tmp".toList) then none else some .permissionDenied }
      (.ofText "o.md".toList) "new".toList).2 =
      .error (.crashed (.refused { cause := .permissionDenied, path := .ofText "o.md.tmp".toList })) := by
  decide +kernel

end PolicyTable.Policy
