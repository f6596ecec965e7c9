import PolicyTable.Policy.Documentation
import PolicyTable.Proofs.FileSystem.Reading
import PolicyTable.Proofs.FileSystem.RealPath

/-!
# `PolicyTable.Proofs.Policy.Writing` — the course of a write

A write has two paths: that of the file to replace, and that of the temporary file beside it. It may stop before it has
opened the temporary file, and then nothing has changed. Once that is open, it is empty, and gets what can be
written of the text. If that is all, the file takes the place of the other one, or is taken away again, or stays
where it is.

## Contents
- **Target.** What `targetOf` gives (`eq_of_targetOf`), and what a path without links names (`names_of_leads`).
- **Temporary file.** It is an entry of the same place as the target (`names_temporaryOf`).
- **Course.** `Opened` and `Course`, with one case for each way that a write can go.

Main statement: `course_iff`.
-/

namespace PolicyTable.Policy

open FileSystem

variable {w w' : World} {output target temporary : Path} {d : Location} {last : Name} {text : Text.CodePoints}
  {bytes : List UInt8}

/-! ## Target -/

/-- The target is the document itself, or where it leads if it is a link. -/
theorem eq_of_targetOf (h : targetOf w output = .ok target) :
    (∃ t, w.probe .entry output = .ok (some (.link t))) ∧ w.realPath output = .ok target ∨
      target = output ∧ ∀ t, w.probe .entry output ≠ .ok (some (.link t)) := by
  unfold targetOf at h
  split at h
  · cases h
  · rename_i t hlink
    split at h
    · rename_i path hpath
      cases h
      exact .inl ⟨⟨t, hlink⟩, hpath⟩
    · cases h
  · rename_i hno hprobe
    cases h
    refine .inr ⟨rfl, fun t ht => ?_⟩
    rw [hprobe] at ht
    cases ht
    exact hno t rfl

/-- A path with a name to replace has a last name. -/
theorem exists_concat_of_temporaryOf (h : temporaryOf target = .ok temporary) :
    ∃ front last, target.parts = front ++ [last] := by
  rcases List.eq_nil_or_concat target.parts with hnil | ⟨front, last, hparts⟩
  · simp [temporaryOf, Path.withName?, hnil] at h
  · exact ⟨front, last, by rw [hparts, List.concat_eq_append]⟩

/-- Without its links, a path names the entry of a directory that it leads to. -/
theorem names_of_leads {n : Nat}
    (hleads : Leads w.top .node (output.anchor.location w.here) output.parts n (d ++ [last]))
    (hd : w.top.HasDirectory d) : w.Names ⟨.root, d ++ [last]⟩ d last ∧ isOrdinary last = true := by
  -- The location has ordinary names only, so as names of a path they lead there again.
  have hord := hleads.ordinary (w.location_ordinary output.anchor)
  have hwalk : Walks w.top [] d 0 d [] :=
    walks_location hd fun x hx => hord x (List.mem_append_left _ hx)
  exact ⟨⟨d, 0, rfl, Nat.zero_le _, hwalk⟩, hord last (by simp)⟩

/-! ## Temporary file -/

theorem length_temporaryName (last : Name) : (last ++ temporarySuffix).length = last.length + 4 := by
  rw [List.length_append]
  rfl

/-- The name of a temporary file counts, and is not that of the directory above. -/
theorem isPart_temporaryName (last : Name) : isPart (last ++ temporarySuffix) = true := by
  by_contra hpart
  have hlen := length_temporaryName last
  rcases isPart_eq_false (Bool.eq_false_iff.2 hpart) with h | h
  · rw [h] at hlen
    simp [selfName] at hlen
  · rw [h] at hlen
    simp [emptyName] at hlen

theorem temporaryName_ne_parentName (last : Name) : last ++ temporarySuffix ≠ parentName := by
  intro h
  have hlen := length_temporaryName last
  rw [h] at hlen
  simp [parentName] at hlen

theorem eq_of_temporaryOf {front : List Name} (hparts : target.parts = front ++ [last])
    (htmp : temporaryOf target = .ok temporary) :
    temporary = ⟨target.anchor, front ++ [last ++ temporarySuffix]⟩ := by
  have hname : target.name? = some last := by simp [Path.name?, hparts]
  rw [temporaryOf, hname, Path.withName?, hparts, if_neg (by simp)] at htmp
  cases htmp
  simp

/-- The temporary file is an entry of the same place. -/
theorem names_temporaryOf (h : w.Names target d last) (htmp : temporaryOf target = .ok temporary) :
    w.Names temporary d (last ++ temporarySuffix) := by
  obtain ⟨front, n, hparts, hn, hwalk⟩ := h
  rw [eq_of_temporaryOf hparts htmp]
  exact ⟨front, n, rfl, hn, hwalk⟩

/-- A path is not too long if the path of its temporary file is not. -/
theorem isLong_of_temporaryOf (h : w.Names target d last) (htmp : temporaryOf target = .ok temporary)
    (hlong : temporary.isLong = false) : target.isLong = false := by
  obtain ⟨front, n, hparts, _⟩ := h
  have htarget : target = ⟨target.anchor, front ++ [last]⟩ := by rw [← hparts]
  have htext : temporary.text = target.text ++ temporarySuffix := by
    rw [eq_of_temporaryOf hparts htmp, Path.text_concat_append, ← htarget]
  rw [Path.isLong, decide_eq_false_iff_not] at hlong ⊢
  rw [htext, Text.Utf8.encode_append, List.length_append] at hlong
  omega

/-! ## Course -/

/-- The temporary file for a document has been opened, and holds the bytes. -/
structure Opened (w : World) (output target temporary : Path) (bytes : List UInt8) (w₁ : World) : Prop where
  targetOf_eq : targetOf w output = .ok target
  temporaryOf_eq : temporaryOf target = .ok temporary
  opens : w.Opens temporary
  store_eq : w.store temporary bytes = .ok w₁

/-- **How a write goes.** The world is that before it, or that with the temporary file, or that after the
    temporary file has been moved or taken away. -/
inductive Course (w : World) (output : Path) (text : Text.CodePoints) : World → Except Stop Unit → Prop
  /-- There is no file to replace. -/
  | targetless {stop : Stop} (target_eq : targetOf w output = .error stop) : Course w output text w (.error stop)
  /-- It has no name to build that of the temporary file from. -/
  | nameless {target : Path} {stop : Stop} (target_eq : targetOf w output = .ok target)
      (temporary_eq : temporaryOf target = .error stop) : Course w output text w (.error stop)
  /-- Its name has no bytes. -/
  | unencodable {target temporary : Path} {gap : Text.Gap} (target_eq : targetOf w output = .ok target)
      (temporary_eq : temporaryOf target = .ok temporary)
      (gap_eq : Text.Gap.find? w.lacks Char.toNat temporary.text = some gap) :
      Course w output text w (.error (.crashed (.unencodable gap)))
  /-- There is a NUL in it. -/
  | nul {target temporary : Path} (target_eq : targetOf w output = .ok target)
      (temporary_eq : temporaryOf target = .ok temporary)
      (encodable : Text.Gap.find? w.lacks Char.toNat temporary.text = none) (hasNul_eq : temporary.hasNul = true) :
      Course w output text w (.error (.crashed .nulInPath))
  /-- The temporary file cannot be opened. -/
  | unopened {target temporary : Path} {fault : Fault} (target_eq : targetOf w output = .ok target)
      (temporary_eq : temporaryOf target = .ok temporary)
      (write_eq : w.write temporary text = (w, .error (.unopened (.refused fault)))) :
      Course w output text w (.error (.failed (.writing target (.refused fault))))
  /-- It holds a part of the text only, and stays. -/
  | cutOff {target temporary : Path} {bytes : List UInt8} {w₁ : World} {fault : WriteFault}
      (opened : Opened w output target temporary bytes w₁) (part : w.content temporary text = (bytes, .error fault)) :
      Course w output text w₁ (.error (writeStop target fault))
  /-- It holds all of it, and takes the place of the target. -/
  | replaced {target temporary : Path} {bytes : List UInt8} {w₁ w₂ : World}
      (opened : Opened w output target temporary bytes w₁) (all : w.content temporary text = (bytes, .ok ()))
      (replace_eq : w₁.replace temporary target = .ok w₂) : Course w output text w₂ (.ok ())
  /-- It cannot, and is taken away again. -/
  | undone {target temporary : Path} {bytes : List UInt8} {w₁ w₂ : World} {fault : Fault}
      (opened : Opened w output target temporary bytes w₁) (all : w.content temporary text = (bytes, .ok ()))
      (replace_eq : w₁.replace temporary target = .error fault) (discard_eq : w₁.discard temporary = .ok w₂) :
      Course w output text w₂ (.error (.failed (.writing target (.refused fault))))
  /-- It cannot, and is not found any more. -/
  | lost {target temporary : Path} {bytes : List UInt8} {w₁ : World} {fault fault' : Fault}
      (opened : Opened w output target temporary bytes w₁) (all : w.content temporary text = (bytes, .ok ()))
      (replace_eq : w₁.replace temporary target = .error fault) (discard_eq : w₁.discard temporary = .error fault')
      (cause_eq : fault'.cause = .notFound) :
      Course w output text w₁ (.error (.failed (.writing target (.refused fault))))
  /-- It cannot, and stays since it cannot be taken away either. -/
  | stuck {target temporary : Path} {bytes : List UInt8} {w₁ : World} {fault fault' : Fault}
      (opened : Opened w output target temporary bytes w₁) (all : w.content temporary text = (bytes, .ok ()))
      (replace_eq : w₁.replace temporary target = .error fault) (discard_eq : w₁.discard temporary = .error fault')
      (cause_ne : fault'.cause ≠ .notFound) : Course w output text w₁ (.error (.crashed (.refused fault')))

/-- An opened temporary file that holds all of the text is what a write goes on from. -/
theorem Opened.writeText_eq {w₁ : World} (h : Opened w output target temporary bytes w₁)
    (hall : w.content temporary text = (bytes, .ok ())) :
    writeText w output text = replaceDocument w₁ temporary target := by
  have hwrite : w.write temporary text = (w₁, .ok ()) := World.write_eq_ok_iff.2 ⟨h.opens, bytes, hall, h.store_eq⟩
  simp only [writeText, h.targetOf_eq, h.temporaryOf_eq, hwrite]

/-- Behind the opened temporary file there are four ways to go. -/
theorem course_replaceDocument {w₁ : World} (h : Opened w output target temporary bytes w₁)
    (hall : w.content temporary text = (bytes, .ok ())) :
    Course w output text (replaceDocument w₁ temporary target).1 (replaceDocument w₁ temporary target).2 := by
  unfold replaceDocument
  cases hreplace : w₁.replace temporary target with
  | ok w₂ => exact .replaced h hall hreplace
  | error fault =>
      dsimp only
      split
      · rename_i w₂ hdiscard
        exact .undone h hall hreplace hdiscard
      · rename_i hdiscard
        exact .lost h hall hreplace hdiscard rfl
      · rename_i fault' hne hdiscard
        refine .stuck h hall hreplace hdiscard fun hcause => ?_
        obtain ⟨_, path, target?⟩ := fault'
        obtain rfl : _ = Cause.notFound := hcause
        exact hne path target? rfl

/-- **A write goes in one of these ways.** -/
theorem course_writeText (w : World) (output : Path) (text : Text.CodePoints) :
    Course w output text (writeText w output text).1 (writeText w output text).2 := by
  cases htarget : targetOf w output with
  | error stop =>
      simp only [writeText, htarget]
      exact .targetless htarget
  | ok target =>
      cases htmp : temporaryOf target with
      | error stop =>
          simp only [writeText, htarget, htmp]
          exact .nameless htarget htmp
      | ok temporary =>
          rcases w.write_cases temporary text with
            ⟨gap, hgap, hwrite⟩ | ⟨hgap, hnul, hwrite⟩ | ⟨fault, hwrite⟩ | ⟨hopens, w₁, hstore⟩
          · simp only [writeText, htarget, htmp, hwrite]
            exact .unencodable htarget htmp hgap
          · simp only [writeText, htarget, htmp, hwrite]
            exact .nul htarget htmp hgap hnul
          · simp only [writeText, htarget, htmp, hwrite]
            exact .unopened htarget htmp hwrite
          · have hopened : Opened w output target temporary _ w₁ := ⟨htarget, htmp, hopens, hstore⟩
            cases hresult : (w.content temporary text).2 with
            | ok =>
                have hall : w.content temporary text = (_, .ok ()) := Prod.ext rfl hresult
                rw [hopened.writeText_eq hall]
                exact course_replaceDocument hopened hall
            | error fault =>
                have hwrite := hopens.write_eq hstore
                rw [hresult] at hwrite
                simp only [writeText, htarget, htmp, hwrite]
                exact .cutOff hopened (Prod.ext rfl hresult)

/-- **The ways are those of a write, and there are no others.** -/
theorem course_iff {result : Except Stop Unit} :
    Course w output text w' result ↔ writeText w output text = (w', result) := by
  constructor
  · intro h
    cases h with
    | targetless htarget => simp only [writeText, htarget]
    | nameless htarget htmp => simp only [writeText, htarget, htmp]
    | unencodable htarget htmp hgap => simp only [writeText, htarget, htmp, World.write, hgap, writeStop]
    | nul htarget htmp hgap hnul => simp only [writeText, htarget, htmp, World.write, hgap, hnul, if_true, writeStop]
    | unopened htarget htmp hwrite => simp only [writeText, htarget, htmp, hwrite, writeStop]
    | @cutOff _ temporary _ _ fault hopened hpart =>
        have hstore : w.store temporary (w.content temporary text).1 = .ok w' := by
          rw [hpart]
          exact hopened.store_eq
        have hwrite := hopened.opens.write_eq hstore
        rw [hpart] at hwrite
        simp only [writeText, hopened.targetOf_eq, hopened.temporaryOf_eq, hwrite]
    | replaced hopened hall hreplace => rw [hopened.writeText_eq hall, replaceDocument, hreplace]
    | undone hopened hall hreplace hdiscard =>
        rw [hopened.writeText_eq hall]
        simp only [replaceDocument, hreplace, hdiscard]
    | @lost _ _ _ _ _ fault' hopened hall hreplace hdiscard hcause =>
        obtain ⟨_, _, _⟩ := fault'
        obtain rfl : _ = Cause.notFound := hcause
        rw [hopened.writeText_eq hall]
        simp only [replaceDocument, hreplace, hdiscard]
    | stuck hopened hall hreplace hdiscard hcause =>
        rw [hopened.writeText_eq hall]
        simp only [replaceDocument, hreplace, hdiscard]
        split
        · rename_i heq
          cases heq
        · rename_i heq
          cases heq
          exact absurd rfl hcause
        · rename_i heq
          cases heq
          rfl
  · intro h
    have hcourse := course_writeText w output text
    rwa [h] at hcourse

end PolicyTable.Policy
