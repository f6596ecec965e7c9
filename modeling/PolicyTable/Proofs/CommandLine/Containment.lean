import PolicyTable.CommandLine.Run
import PolicyTable.Proofs.Policy.Outcome
import PolicyTable.Proofs.Policy.Storing

/-!
# `PolicyTable.Proofs.CommandLine.Containment` — what a run turns into an exit code, and what it does not

A failure of any stage gives the exit code 2: in the walk, in reading, in parsing, in an annotation and in
writing. A crash gives none. Crashes come from places where the file system is asked something and a refusal is
not expected: a look at the root, at an entry on the walk or at the document, and the removal of a temporary file that
cannot take the place of the document. Apart from those, a numeral in a complaint may be too long to be read, the
links of the document may run in a circle or have no end, and its path may have no last name, a NUL in it, or no bytes.
Where reading, opening, writing and renaming are refused, that is handled.

## Contents
- **Files.** `fileRecords_crashed`: a file that is collected makes a run crash through a complaint only.
- **Escapes.** `Escapes`, and `escapes_of_crashed` for the document of a directory.
- **Runs.** `Asks`, and what a run gives for a request (`run_of_asks`).

Main statement: `run_contained`.
-/

namespace PolicyTable.CommandLine

open FileSystem
open Policy
open Rego (Grammar diagnosticsOf)

variable {w : World} {grammar : Grammar} {tools : Tools} {o : Options} {root file : Path} {crash : Crash}
  {arguments : List Text}

/-! ## Files -/

/-- A source makes a run crash if a numeral of the complaint about it is too long. -/
theorem sourceRecords_crashed {source : Text} (h : sourceRecords grammar file source = .error (.crashed crash)) :
    ∃ text numeral, grammar source = .rejected text ∧ diagnosticsOf text = .error numeral ∧
      crash = .longNumeral numeral := by
  by_cases hclean : (Rego.scan source).diagnostics = []
  · rw [sourceRecords_of_clean hclean] at h
    cases hverdict : grammar source with
    | accepted =>
        rw [hverdict] at h
        change (Annotations.recordsOf (Rego.scan source).comments).mapError _ = _ at h
        cases hrecords : Annotations.recordsOf (Rego.scan source).comments with
        | ok records =>
            rw [hrecords] at h
            cases h
        | error bad =>
            rw [hrecords] at h
            cases h
    | rejected text =>
        rw [hverdict, Rego.Verdict.diagnostics] at h
        cases hds : diagnosticsOf text with
        | error numeral =>
            rw [hds] at h
            cases h
            exact ⟨text, numeral, rfl, hds, rfl⟩
        | ok ds =>
            rw [hds] at h
            dsimp only at h
            rw [if_neg (by simpa using Rego.ne_nil_of_diagnosticsOf hds)] at h
            cases h
  · rw [sourceRecords_of_lexical hclean] at h
    cases h

theorem fileRecords_crashed (hnul : file.hasNul = false)
    (h : fileRecords w grammar file = .error (.crashed crash)) :
    ∃ source text numeral, HasSource w file source ∧ grammar source = .rejected text ∧
      diagnosticsOf text = .error numeral ∧ crash = .longNumeral numeral := by
  rcases bind_eq_error_iff.1 h with hread | ⟨source, hread, hsource⟩
  · unfold readPolicy at hread
    split at hread
    · rename_i hrefused
      unfold World.read at hrefused
      rw [if_neg (by simp [hnul])] at hrefused
      split at hrefused <;> cases hrefused
    · cases hread
    · split at hread <;> cases hread
  · obtain ⟨text, numeral, hverdict, hds, rfl⟩ := sourceRecords_crashed hsource
    exact ⟨source, text, numeral, readPolicy_eq_ok_iff.1 hread, hverdict, hds, rfl⟩

/-! ## Escapes -/

/-- The crashes of documenting a directory. -/
inductive Escapes (w : World) (tools : Tools) (o : Options) : Crash → Prop
  | root {fault : Fault} (look : w.probe .node o.root = .error fault) : Escapes w tools o (.refused fault)
  | entry {dir : Node} {crash : Crash} (isRoot : w.probe .node o.root = .ok (some dir))
      (hinders : Hinders w o.root dir (.crashed crash)) : Escapes w tools o crash
  | complaint {files : List Path} {file : Path} {source text : Text} {numeral : Rego.LongNumeral}
      (collected : collect w tools.policyFiles o.root = .ok files) (mem : file ∈ files)
      (read : HasSource w file source) (rejected : tools.grammar source = .rejected text)
      (long : diagnosticsOf text = .error numeral) : Escapes w tools o (.longNumeral numeral)
  | document {found : Findings} {crash : Crash} (collected : collectRecords w tools o.root = .ok found)
      (writing : WriteEscapes w o.outputPath (.ofText (Annotations.document found.records)) crash) :
      Escapes w tools o crash

theorem escapes_of_collect (hw : w.top.WellFormed)
    (h : collect w tools.policyFiles o.root = .error (.crashed crash)) : Escapes w tools o crash := by
  cases hroot : w.probe .node o.root with
  | error fault =>
      rw [collect, hroot] at h
      cases h
      exact .root hroot
  | ok node? =>
      have hdir : ∃ entries, node? = some (.directory entries) := by
        rw [collect, hroot] at h
        rcases node? with _ | (bytes | target | entries)
        · cases h
        · cases h
        · cases h
        · exact ⟨entries, rfl⟩
      obtain ⟨entries, rfl⟩ := hdir
      have hA := @collect_answers w tools.policyFiles o.root entries hw hroot
      rw [h] at hA
      exact .entry hroot hA

/-- **Documenting a directory crashes in no other way.** -/
theorem escapes_of_crashed (hw : w.top.WellFormed) (h : (document w tools o).2 = .error (.crashed crash)) :
    Escapes w tools o crash := by
  unfold document at h
  cases hrecords : collectRecords w tools o.root with
  | error stop =>
      rw [hrecords] at h
      obtain rfl : stop = .crashed crash := by cases h; rfl
      rcases bind_eq_error_iff.1 hrecords with hcollect | ⟨files, hfiles, hrest⟩
      · exact escapes_of_collect hw hcollect
      · rcases bind_eq_error_iff.1 hrest with hfailed | ⟨lists, _, hdone⟩
        · obtain ⟨before, file, after, hsplit, _, hfile⟩ := mapM_eq_error_iff.1 hfailed
          have hmem : file ∈ files := by
            rw [hsplit]
            simp
          obtain ⟨source, text, numeral, hsource, hverdict, hds, rfl⟩ :=
            fileRecords_crashed (hasNul_of_mem_collect hw hfiles hmem) hfile
          exact .complaint hfiles hmem hsource hverdict hds
        · cases hdone
  | ok found =>
      rw [hrecords] at h
      exact .document hrecords (writeText_crashed_iff.1 (map_eq_error_iff.1 h))

/-- A run that comes to writing crashes if writing does. -/
theorem document_crashed_of_writeEscapes {found : Findings} (h : collectRecords w tools o.root = .ok found)
    (hwriting : WriteEscapes w o.outputPath (.ofText (Annotations.document found.records)) crash) :
    (document w tools o).2 = .error (.crashed crash) := by
  rw [document, h]
  exact map_eq_error_iff.2 (writeText_crashed_iff.2 hwriting)

/-! ## Runs -/

/-- The arguments ask for a document with the options. -/
def Asks (arguments : List Text) (o : Options) : Prop :=
  ∃ request, parse arguments = .ok request ∧ optionsOf request.directory request.output = .ok o

theorem Asks.unique {o' : Options} (h : Asks arguments o) (h' : Asks arguments o') : o = o' := by
  obtain ⟨request, hparse, hoptions⟩ := h
  obtain ⟨request', hparse', hoptions'⟩ := h'
  obtain rfl := Except.ok.inj (hparse.symm.trans hparse')
  exact Except.ok.inj (hoptions.symm.trans hoptions')

/-- What is said and left behind is told by what documenting the directory gives. -/
theorem run_eq_of_asks (h : Asks arguments o) :
    run w tools arguments =
      match document w tools o with
      | (w', .ok summary) =>
        { world := w'
          caller := { output := tools.print (summaryText summary) }
          log := [doneEntry summary]
          exit := .ok exitDone }
      | (w', .error (.failed failure)) => refusedRun w' "Documentation generation failed".toList failure.message
      | (w', .error (.crashed crash)) => { world := w', exit := .error crash } := by
  obtain ⟨request, hparse, hoptions⟩ := h
  rcases hdone : document w tools o with ⟨w', (failure | crash) | summary⟩
  · simp only [run, hparse, runDoc, hoptions, hdone]
  · simp only [run, hparse, runDoc, hoptions, hdone]
  · simp only [run, hparse, runDoc, hoptions, hdone]

theorem run_of_asks (h : Asks arguments o) :
    (run w tools arguments).exit =
      match (document w tools o).2 with
      | .ok _ => .ok 0
      | .error (.failed _) => .ok 2
      | .error (.crashed crash) => .error crash := by
  rw [run_eq_of_asks h]
  generalize document w tools o = done
  obtain ⟨w', stop | summary⟩ := done
  · cases stop <;> rfl
  · rfl

/-- Arguments ask for a document or are refused. -/
theorem run_cases (w : World) (tools : Tools) (arguments : List Text) :
    (∃ o, Asks arguments o) ∨ (run w tools arguments).exit = .ok 2 := by
  cases hparse : parse arguments with
  | error refusal =>
      right
      rw [run, hparse]
      rfl
  | ok request =>
      cases hoptions : optionsOf request.directory request.output with
      | ok o => exact .inl ⟨o, request, hparse, hoptions⟩
      | error blank =>
          right
          rw [run, hparse]
          dsimp only
          rw [runDoc, hoptions]
          rfl

/-- **A run has the exit code 0 or 2, or it ends in one of the crashes that nothing handles.** Whatever stage
    fails, the exit code is 2, and it is 0 exactly if the document has been written. A run that comes to writing
    does end in the crashes of writing. -/
theorem run_contained (w : World) (tools : Tools) (arguments : List Text) (hw : w.top.WellFormed) :
    ((run w tools arguments).exit = .ok 0 ∨ (run w tools arguments).exit = .ok 2 ∨
      ∃ o crash, Asks arguments o ∧ Escapes w tools o crash ∧ (run w tools arguments).exit = .error crash) ∧
    (∀ o failure, Asks arguments o → (document w tools o).2 = .error (.failed failure) →
      (run w tools arguments).exit = .ok 2) ∧
    ((run w tools arguments).exit = .ok 0 ↔
      ∃ o summary, Asks arguments o ∧ (document w tools o).2 = .ok summary) ∧
    ∀ o found crash, Asks arguments o → collectRecords w tools o.root = .ok found →
      WriteEscapes w o.outputPath (.ofText (Annotations.document found.records)) crash →
      (run w tools arguments).exit = .error crash := by
  refine ⟨?_, ?_, ?_, ?_⟩
  · rcases run_cases w tools arguments with ⟨o, hasks⟩ | hrefused
    · have hrun := @run_of_asks w tools o arguments hasks
      cases hdone : (document w tools o).2 with
      | ok summary =>
          rw [hdone] at hrun
          exact .inl hrun
      | error stop =>
          rw [hdone] at hrun
          cases stop with
          | failed failure => exact .inr (.inl hrun)
          | crashed crash => exact .inr (.inr ⟨o, crash, hasks, escapes_of_crashed hw hdone, hrun⟩)
    · exact .inr (.inl hrefused)
  · intro o failure hasks hfailed
    rw [run_of_asks hasks, hfailed]
  · constructor
    · intro hzero
      rcases run_cases w tools arguments with ⟨o, hasks⟩ | hrefused
      · have hrun := @run_of_asks w tools o arguments hasks
        rw [hzero] at hrun
        cases hdone : (document w tools o).2 with
        | ok summary => exact ⟨o, summary, hasks, hdone⟩
        | error stop =>
            rw [hdone] at hrun
            cases stop <;> cases hrun
      · rw [hrefused] at hzero
        cases hzero
    · rintro ⟨o, summary, hasks, hdone⟩
      rw [run_of_asks hasks, hdone]
  · intro o found crash hasks hfound hwriting
    rw [run_of_asks hasks, document_crashed_of_writeEscapes hfound hwriting]

/-- A directory with one policy file, whose annotation has a word without a slash. -/
def misannotatedWorld : World where
  top := .directory [("a.rego".toList, .file (Text.Utf8.encode "# @Kinds bad\n".toList))]
  here := []

theorem run_contained_misannotated :
    (run misannotatedWorld .plain ["doc".toList, ".".toList]).exit = .ok 2 := by
  obtain ⟨_, hfailed, _⟩ := run_contained misannotatedWorld .plain ["doc".toList, ".".toList]
    (.flat (by decide) (by decide) (by decide))
  refine hfailed { root := .ofText ".".toList }
    (.annotating (.ofText "a.rego".toList) ⟨1, ⟨"bad".toList⟩⟩) ⟨⟨".".toList, defaultOutput⟩, ?_, rfl⟩ ?_
  · decide +kernel
  · decide +kernel

/-- A directory without policy files. -/
def emptyWorld : World where
  top := .directory []
  here := []

/-- Where the document is to be the directory itself, it has no last name, and a run ends without an exit code. -/
theorem run_nameless_escapes :
    (run emptyWorld .plain ["doc".toList, ".".toList, "-o".toList, ".".toList]).exit =
      .error (.noName ⟨.relative, []⟩) := by
  decide +kernel

end PolicyTable.CommandLine
