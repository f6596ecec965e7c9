import Mathlib.Data.List.TakeWhile
import PolicyTable.Proofs.Annotations.Table
import PolicyTable.Proofs.Policy.Acceptance

/-!
# `PolicyTable.Proofs.Policy.Rendering` — a document has one line for each record

Nothing is escaped in a document, so it is the way a record comes about that keeps it on its line: line ends are
brought into one form when a file is read, a comment ends where its line ends, and a word where a space is.

## Contents
- **Sources.** `oneLine_of_mem_scan`: the comments of a source that was read stand on one line.
- **Records.** `tidy_of_fileRecords` and `tidy_of_collectRecords`.

Main statement: `renderDocument_lines`.
-/

namespace PolicyTable.Policy

open FileSystem
open Rego (Grammar Comment scan commentAt withoutCr)
open Annotations (Record OneLine recordsOfDocument?)

variable {w : World} {tools : Tools} {root file : Path} {source text : Text} {c : Comment}
  {records : List Record} {found : Findings}

/-! ## Sources -/

theorem mem_of_mem_withoutCr {t : Text} {x : Char} (h : x ∈ withoutCr t) : x ∈ t := by
  fun_induction withoutCr t with
  | case1 => exact h
  | case2 => cases h
  | case3 c r _ ih =>
      rcases List.mem_cons.1 h with rfl | h
      · exact List.mem_cons_self ..
      · exact List.mem_cons_of_mem _ (ih h)

/-- A comment ends at the end of its line. -/
theorem oneLine_of_mem_scan (hsource : '\r' ∉ source) (h : c ∈ (scan source).comments) : OneLine c.text := by
  obtain ⟨i, _, rfl⟩ := mem_scan_comments.1 h
  constructor
  · intro hn
    have hline := List.mem_takeWhile_imp (mem_of_mem_withoutCr hn)
    simp at hline
  · intro hr
    have hline := (List.takeWhile_prefix _).subset (mem_of_mem_withoutCr hr)
    exact hsource (List.mem_of_mem_drop hline)

theorem HasSource.cr_not_mem (h : HasSource w file source) : '\r' ∉ source := by
  obtain ⟨_, text, _, _, rfl⟩ := h
  exact Text.cr_not_mem_unifyNewlines text

/-! ## Records -/

theorem tidy_of_fileRecords (h : fileRecords w tools.grammar file = .ok records) : ∀ r ∈ records, r.Tidy := by
  obtain ⟨source, hsource, _, _, hrecords⟩ := fileRecords_eq_ok_iff.1 h
  exact Annotations.tidy_of_recordsOf (fun c hc => oneLine_of_mem_scan hsource.cr_not_mem hc) hrecords

/-- **All records of a directory are tidy.** -/
theorem tidy_of_collectRecords (h : collectRecords w tools root = .ok found) : ∀ r ∈ found.records, r.Tidy := by
  obtain ⟨files, lists, _, hlists, rfl⟩ := collectRecords_eq_ok_iff.1 h
  intro r hr
  obtain ⟨records, hmem, hr⟩ := List.mem_flatten.1 hr
  obtain ⟨file, _, hfile⟩ := exists_of_mem_mapM hlists hmem
  exact tidy_of_fileRecords hfile r hr

/-! ## Documents -/

theorem renderDocument_eq_ok_iff :
    renderDocument w tools root = .ok text ↔
      ∃ found, collectRecords w tools root = .ok found ∧ text = Annotations.document found.records := by
  rw [renderDocument, map_eq_ok_iff]
  exact exists_congr fun found => and_congr_right fun _ => eq_comm

/-- **A document has one line for each record.** It has no CR, and it ends with its last line end: four lines of
    the head, then a line for each record, in order. If no text of a record has a bar in it and every record has a
    kind, the records are read back from the document, so that the documents of other such records are others. -/
theorem renderDocument_lines (h : renderDocument w tools root = .ok text) :
    ∃ found, collectRecords w tools root = .ok found ∧ '\r' ∉ text ∧
      text.count '\n' = 4 + found.records.length ∧ text.getLast? = some '\n' ∧
      Text.split '\n' text =
        ["# Policies".toList, [], "|API Groups|Kinds|Description|".toList, "|---|---|---|".toList] ++
          found.records.map (fun r => '|' :: List.intercalate [',', ' '] r.groups ++
            '|' :: List.intercalate [',', ' '] r.kinds ++ '|' :: r.description ++ ['|']) ++ [[]] ∧
      ((∀ r ∈ found.records, r.BarFree ∧ r.kinds ≠ []) →
        recordsOfDocument? text = some found.records ∧
          ∀ w' tools' root' text' found', renderDocument w' tools' root' = .ok text' →
            collectRecords w' tools' root' = .ok found' → (∀ r ∈ found'.records, r.BarFree ∧ r.kinds ≠ []) →
            found'.records ≠ found.records → text' ≠ text) := by
  obtain ⟨found, hfound, rfl⟩ := renderDocument_eq_ok_iff.1 h
  have htidy := tidy_of_collectRecords hfound
  refine ⟨found, hfound, Annotations.cr_not_mem_document htidy, Annotations.count_document htidy, ?_, ?_, ?_⟩
  · exact List.getLast?_concat
  · have hrow : ∀ r : Record, r.row = '|' :: List.intercalate [',', ' '] r.groups ++
        '|' :: List.intercalate [',', ' '] r.kinds ++ '|' :: r.description ++ ['|'] := by
      intro r
      simp [Record.row, Annotations.row, Annotations.comma, List.intercalate_cons_cons]
    rw [Annotations.split_document htidy, funext hrow]
    rfl
  · intro hbar
    have hread := Annotations.recordsOfDocument?_document htidy hbar
    refine ⟨hread, fun w' tools' root' text' found' h' hfound' hbar' hne heq => hne ?_⟩
    obtain ⟨found'', hfound'', rfl⟩ := renderDocument_eq_ok_iff.1 h'
    obtain rfl := Except.ok.inj (hfound'.symm.trans hfound'')
    have hread' := Annotations.recordsOfDocument?_document (tidy_of_collectRecords hfound') hbar'
    rw [heq, hread] at hread'
    exact (Option.some.inj hread').symm

/-- A policy file whose groups and kinds end in commas. -/
def commaEntries : Entries :=
  [("a.rego".toList, .file (Text.Utf8.encode "# D, E\r\n# @Kinds a,/B /,\n".toList))]

def commaWorld : World where
  top := .directory commaEntries
  here := []

theorem renderDocument_lines_commas :
    ∃ (text : Text) (found : Findings), renderDocument commaWorld .plain (.ofText ".".toList) = .ok text ∧
      found.records = [⟨["a,".toList, []], ["B".toList, ",".toList], "D, E".toList⟩] ∧
      text.count '\n' = 5 ∧ recordsOfDocument? text = some found.records := by
  have hfiles : collect commaWorld Tools.plain.policyFiles (.ofText ".".toList) = .ok [.ofText "a.rego".toList] := by
    rw [@collect_eq_of_sorted _ _ _ commaEntries rfl (by decide) (by decide)]
    decide +kernel
  have hfound : collectRecords commaWorld .plain (.ofText ".".toList) =
      .ok ⟨[⟨["a,".toList, []], ["B".toList, ",".toList], "D, E".toList⟩], 1⟩ :=
    collectRecords_eq_ok_iff.2 ⟨_, [[⟨["a,".toList, []], ["B".toList, ",".toList], "D, E".toList⟩]], hfiles,
      by decide +kernel, rfl⟩
  have htext := renderDocument_eq_ok_iff.2 ⟨_, hfound, rfl⟩
  obtain ⟨found, hfound', _, hcount, _, _, hread⟩ := renderDocument_lines htext
  obtain rfl := Except.ok.inj (hfound.symm.trans hfound')
  exact ⟨_, _, htext, rfl, hcount, (hread (by unfold Record.BarFree; decide)).1⟩

end PolicyTable.Policy
