import PolicyTable.CommandLine.Run
import PolicyTable.Proofs.Policy.Acceptance
import PolicyTable.Proofs.Policy.Replacement

/-!
# `PolicyTable.Proofs.Policy.Sources` — what a run does to the files that it reads

The document may be given the name of a policy file, and then it takes the place of that file. A run changes the
tree at the entry of the document, at that of the temporary file and where the temporary file is stored, and
nowhere else. A policy file that can be read without these is read as before.

## Contents
- **Workplaces.** `workplaces`, the locations that a write works at, are those of its site
  (`Site.workplaces_eq`). The rest of the tree is still there afterwards (`Site.within`).

Main statement: `document_keeps_sources`, with `document_overwrites_source` for a policy file that is not kept.
-/

namespace PolicyTable.Policy

open FileSystem
open FileSystem.Node (Within)

variable {w w' : World} {output file : Path} {files : List Path} {tools : Tools} {o : Options}
  {summary : Summary} {bytes : List UInt8}

/-! ## Workplaces -/

/-- The locations that a write at a path works at: the entry of the document, over a link if it is one, the entry
    of the temporary file, and the file that is stored for it, which is elsewhere if that entry is a link. -/
def workplaces (w : World) (output : Path) : List Location :=
  match targetOf w output with
  | .error _ => []
  | .ok target =>
    match temporaryOf target with
    | .error _ => []
    | .ok temporary =>
      [w.locate .entry target, w.locate .entry temporary, w.locate .file temporary].filterMap fun place =>
        place.toOption.map Prod.fst

namespace Site

theorem workplaces_eq (s : Site w output) : workplaces w output = [s.entry, s.temporaryEntry, s.stored] := by
  unfold workplaces
  simp only [s.targetOf_eq, s.temporaryOf_eq, s.locate_entry, s.locate_temporaryEntry, s.locate_stored]
  rfl

theorem nil_not_mem_workplaces (s : Site w output) : [] ∉ workplaces w output := by
  have hstored : s.stored ≠ [] := by
    intro hnil
    obtain ⟨entries, hentries⟩ := s.hasDirectory.nil
    obtain ⟨bytes, hbytes⟩ := s.free _ (hnil ▸ hentries)
    cases hbytes
  simp [s.workplaces_eq, entry, temporaryEntry, Ne.symm hstored]

/-- **Everything but the workplaces is still there.** -/
theorem within (s : Site w output) (hw : w.top.WellFormed) (bytes : List UInt8) (node : Node) :
    Within (w.without (workplaces w output)).top
      (((s.withStored bytes).remove s.temporaryEntry).put s.entry node) := by
  intro l kind hl
  rw [World.kindAt?_without hw s.nil_not_mem_workplaces, s.workplaces_eq] at hl
  split_ifs at hl with hplace
  simp only [List.mem_cons, List.not_mem_nil, or_false, exists_eq_or_imp, exists_eq_left, not_or] at hplace
  obtain ⟨hentry, htemporary, hstored⟩ := hplace
  rw [Node.kindAt?_put hentry, Node.kindAt?_remove_of_not_prefix htemporary, withStored, Node.kindAt?_put hstored]
  exact hl

end Site

/-! ## Runs -/

/-- **A run keeps the policy files that can be read without its workplaces.** -/
theorem document_keeps_sources (hw : w.top.WellFormed) (h : document w tools o = (w', .ok summary))
    (hfiles : collect w tools.policyFiles o.root = .ok files) (hfile : file ∈ files)
    (hapart : (w.without (workplaces w o.outputPath)).read file = w.read file) :
    ∃ bytes, w.read file = .ok bytes ∧ w'.read file = .ok bytes := by
  obtain ⟨found, hfound, hwrite, _⟩ := document_eq_ok_iff.1 h
  obtain ⟨files', lists, hfiles', hlists, _⟩ := collectRecords_eq_ok_iff.1 hfound
  obtain rfl := Except.ok.inj (hfiles.symm.trans hfiles')
  obtain ⟨records, _, hrecords⟩ := exists_of_mapM_eq_ok hlists hfile
  obtain ⟨source, ⟨bytes, _, hread, _⟩, _⟩ := fileRecords_eq_ok_iff.1 hrecords
  obtain ⟨s, _, node, _, _, _, _, rfl⟩ := exists_site hwrite
  refine ⟨bytes, hread, ?_⟩
  rw [hread] at hapart
  exact World.read_of_within hapart rfl (s.within hw _ node)

/-- A directory with a policy file and a document from before. -/
def namedEntries : Entries :=
  [("a.rego".toList, .file (Text.Utf8.encode "package a\n".toList)),
    ("policies.md".toList, .file (Text.Utf8.encode "old\n".toList))]

def namedWorld : World where
  top := .directory [("p".toList, .directory namedEntries)]
  here := []

theorem wellFormed_namedWorld : namedWorld.top.WellFormed :=
  .directory (by decide) (by decide) (by simpa using .flat (by decide) (by decide) (by decide))

/-- A run there finds no records. -/
theorem collectRecords_namedWorld :
    collect namedWorld Tools.plain.policyFiles (.ofText "p".toList) = .ok [.ofText "p/a.rego".toList] ∧
      collectRecords namedWorld .plain (.ofText "p".toList) = .ok ⟨[], 1⟩ := by
  have hfiles : collect namedWorld Tools.plain.policyFiles (.ofText "p".toList) = .ok [.ofText "p/a.rego".toList] := by
    rw [@collect_eq_of_sorted _ _ _ namedEntries rfl (by decide) (by decide)]
    decide +kernel
  refine ⟨hfiles, collectRecords_eq_ok_iff.2 ⟨[.ofText "p/a.rego".toList], [[]], hfiles, ?_, rfl⟩⟩
  decide +kernel

theorem document_keeps_sources_named :
    ∃ o w', CommandLine.optionsOf "p".toList "policies.md".toList = .ok o ∧
      document namedWorld .plain o = (w', .ok ⟨.ofText "p/policies.md".toList, 1, 0⟩) ∧
      ∃ bytes, namedWorld.read (.ofText "p/a.rego".toList) = .ok bytes ∧
        w'.read (.ofText "p/a.rego".toList) = .ok bytes := by
  obtain ⟨hfiles, hfound⟩ := collectRecords_namedWorld
  let o : Options := { root := .ofText "p".toList }
  have hdocument := document_of_written (o := o) hfound (by decide +kernel)
  exact ⟨o, _, by decide +kernel, hdocument,
    document_keeps_sources wellFormed_namedWorld hdocument hfiles (by simp) (by decide +kernel)⟩

/-- A run whose document has the name of the policy file: afterwards the document is read in its place. -/
theorem document_overwrites_source :
    ∃ o w', CommandLine.optionsOf "p".toList "a.rego".toList = .ok o ∧ namedWorld.top.WellFormed ∧
      collect namedWorld Tools.plain.policyFiles o.root = .ok [.ofText "p/a.rego".toList] ∧
      document namedWorld .plain o = (w', .ok ⟨.ofText "p/a.rego".toList, 1, 0⟩) ∧
      namedWorld.read (.ofText "p/a.rego".toList) = .ok (Text.Utf8.encode "package a\n".toList) ∧
      w'.read (.ofText "p/a.rego".toList) ≠ namedWorld.read (.ofText "p/a.rego".toList) := by
  obtain ⟨hfiles, hfound⟩ := collectRecords_namedWorld
  let o : Options := { root := .ofText "p".toList, output := "a.rego".toList }
  exact ⟨o, _, by decide +kernel, wellFormed_namedWorld, hfiles,
    document_of_written (o := o) hfound (by decide +kernel), by decide +kernel, by decide +kernel⟩

end PolicyTable.Policy
