import PolicyTable.Proofs.Policy.Outcome

/-!
# `PolicyTable.Proofs.Policy.Acceptance` — a document has only accepted sources

A directory has records only if each of its policy files can be read, has no lexical errors and is accepted by
the grammar check. A file with records came with an empty list of diagnostics, and an empty list stands for
acceptance whatever the complaints of the grammar check look like.

## Contents
- **Directory.** `collectRecords_eq_ok_iff` takes a successful run apart into its files.
- **One file.** `sourceRecords_eq_ok_iff` and `fileRecords_eq_ok_iff`.

Main statement: `only_accepted_sources`.
-/

namespace PolicyTable.Policy

open FileSystem
open Rego (Grammar scan extract locatedLines)
open Annotations (Record recordsOf)

variable {w : World} {grammar : Grammar} {tools : Tools} {root file : Path} {files : List Path} {source source' : Text}
  {records : List Record} {found : Findings}

/-! ## Directory -/

/-- A run gives records if its files are collected and each of them has records. -/
theorem collectRecords_eq_ok_iff :
    collectRecords w tools root = .ok found ↔
      ∃ files lists, collect w tools.policyFiles root = .ok files ∧
        files.mapM (fileRecords w tools.grammar) = .ok lists ∧
        found = ⟨lists.flatten, files.length⟩ := by
  constructor
  · intro h
    obtain ⟨files, hfiles, h⟩ := bind_eq_ok_iff.1 h
    obtain ⟨lists, hlists, h⟩ := bind_eq_ok_iff.1 h
    exact ⟨files, lists, hfiles, hlists, (Except.ok.inj h).symm⟩
  · rintro ⟨files, lists, hfiles, hlists, rfl⟩
    exact bind_eq_ok_iff.2 ⟨files, hfiles, bind_eq_ok_iff.2 ⟨lists, hlists, rfl⟩⟩

/-! ## One file -/

theorem HasSource.unique (h : HasSource w file source) (h' : HasSource w file source') : source = source' :=
  Except.ok.inj ((readPolicy_eq_ok_iff.2 h).symm.trans (readPolicy_eq_ok_iff.2 h'))

/-- A source has records if it is accepted and well annotated. -/
theorem sourceRecords_eq_ok_iff :
    sourceRecords grammar file source = .ok records ↔
      (scan source).diagnostics = [] ∧ grammar source = .accepted ∧
        recordsOf (scan source).comments = .ok records := by
  have hiff : SourceOutcome grammar file source (.ok records) ↔ sourceRecords grammar file source = .ok records :=
    sourceOutcome_iff
  rw [← hiff]
  constructor
  · rintro ⟨⟩
    exact ⟨‹_›, ‹_›, ‹_›⟩
  · rintro ⟨hclean, haccepted, hrecords⟩
    exact .records hclean haccepted hrecords

/-- A file has records if it has a source that is accepted and well annotated. -/
theorem fileRecords_eq_ok_iff :
    fileRecords w grammar file = .ok records ↔
      ∃ source, HasSource w file source ∧ (scan source).diagnostics = [] ∧ grammar source = .accepted ∧
        recordsOf (scan source).comments = .ok records := by
  rw [fileRecords, bind_eq_ok_iff]
  exact exists_congr fun source => and_congr readPolicy_eq_ok_iff sourceRecords_eq_ok_iff

/-! ## Acceptance -/

/-- **Only accepted sources give records.** An extraction that gives a result has the comments of the scan, and
    no diagnostics exactly if the scan finds no lexical error and the grammar check accepts; the grammar check is
    asked exactly if the scan finds none, and has no say otherwise. An extraction gives no result exactly if the
    grammar check is asked and complains with a numeral that is too long to be read. Hence a run that gives
    records has collected no file that is lexically broken or rejected. -/
theorem only_accepted_sources (grammar : Grammar) :
    (∀ source, (∀ extraction, extract grammar source = .ok extraction →
        extraction.comments = (scan source).comments ∧
        (extraction.diagnostics = [] ↔ (scan source).diagnostics = [] ∧ grammar source = .accepted) ∧
        extraction.verdict? = if (scan source).diagnostics = [] then some (grammar source) else none) ∧
      ((scan source).diagnostics ≠ [] → ∀ grammar', extract grammar' source = extract grammar source) ∧
      ((∃ numeral, extract grammar source = .error numeral) ↔
        (scan source).diagnostics = [] ∧ ∃ text, grammar source = .rejected text ∧
          ∃ l ∈ locatedLines text, Rego.maxDigits < l.line.length ∨ Rego.maxDigits < l.column.length)) ∧
    ∀ (tools : Tools) w root files file source, tools.grammar = grammar →
      collect w tools.policyFiles root = .ok files → file ∈ files → HasSource w file source →
      ((scan source).diagnostics ≠ [] ∨ grammar source ≠ .accepted) →
      ∀ found, collectRecords w tools root ≠ .ok found := by
  refine ⟨fun source => ⟨fun extraction h => Rego.extract_ok h, fun hlexical grammar' => ?_,
    Rego.exists_extract_error_iff⟩, ?_⟩
  · exact Rego.extract_congr fun hclean => absurd hclean hlexical
  · rintro tools w root files file source rfl hfiles hfile hsource hbad found h
    obtain ⟨files', lists, hfiles', hlists, _⟩ := collectRecords_eq_ok_iff.1 h
    obtain rfl := Except.ok.inj (hfiles.symm.trans hfiles')
    obtain ⟨records, _, hrecords⟩ := exists_of_mapM_eq_ok hlists hfile
    obtain ⟨source', hsource', hclean, haccepted, _⟩ := fileRecords_eq_ok_iff.1 hrecords
    obtain rfl := hsource.unique hsource'
    exact hbad.elim (· hclean) (· haccepted)

/-- One policy file, and a grammar check that rejects it without a word. -/
def plainEntries : Entries := [("a.rego".toList, .file (Text.Utf8.encode "package a # x\n".toList))]

def plainWorld : World where
  top := .directory plainEntries
  here := []

def silentRejection : Grammar := fun _ => .rejected " \n".toList

theorem only_accepted_sources_silent :
    (∃ extraction, extract silentRejection "package a # x\n".toList = .ok extraction ∧
        extraction.comments = [⟨" x".toList, 1, 11⟩] ∧ extraction.diagnostics ≠ []) ∧
      ∀ found,
        collectRecords plainWorld { Tools.plain with grammar := silentRejection } (.ofText ".".toList) ≠ .ok found := by
  obtain ⟨hextract, hcollect⟩ := only_accepted_sources silentRejection
  have hsource : HasSource plainWorld (.ofText "a.rego".toList) "package a # x\n".toList :=
    readPolicy_eq_ok_iff.1 (by decide +kernel)
  have hfiles : collect plainWorld Tools.plain.policyFiles (.ofText ".".toList) = .ok [.ofText "a.rego".toList] := by
    rw [@collect_eq_of_sorted _ _ _ plainEntries rfl (by decide) (by decide)]
    decide +kernel
  constructor
  · have hfound : extract silentRejection "package a # x\n".toList =
        .ok ⟨[⟨" x".toList, 1, 11⟩], [⟨0, 0, "invalid Rego module".toList⟩], some (.rejected " \n".toList)⟩ := by
      decide +kernel
    obtain ⟨_, hdiagnostics, _⟩ := (hextract _).1 _ hfound
    exact ⟨_, hfound, rfl, fun h => absurd (hdiagnostics.1 h).2 (by decide)⟩
  · let tools : Tools := { Tools.plain with grammar := silentRejection }
    exact hcollect tools plainWorld _ _ _ _ rfl hfiles (by simp) hsource (.inr (by decide))

end PolicyTable.Policy
