import PolicyTable.CommandLine.Run
import PolicyTable.Proofs.CommandLine.Containment
import PolicyTable.Proofs.Policy.ReadBack
import PolicyTable.Proofs.Policy.Rendering
import PolicyTable.Proofs.Policy.Repetition
import PolicyTable.Proofs.Text.Numerals

/-!
# `PolicyTable.Proofs.CommandLine.Summary` — what a run that succeeds says

A run with the exit code 0 hands one line to the printer, and nothing else is written. The line has the number of
policy files that have been collected, the number of records and the path of the document. The records are counted
before they are written, and the document that is read at the path afterwards has as many rows.

What the printer makes of the line is its own affair. A plain line it may be expected to write as it is, and then the
path is in the output as it is. A printer may also take a part of the path for the code of a picture.

## Contents
- **Plain lines.** `IsPlainLine`, and `PrintsPlain` for a printer that writes them as they are.
- **Runs.** `exists_document_of_done`: what a run with the exit code 0 has done.

Main statement: `run_summary`, with `run_summary_pictured` for a path that is shown in another way.
-/

namespace PolicyTable.CommandLine

open FileSystem
open Policy

variable {w : World} {tools : Tools} {arguments : List Text} {line words : Text}

/-! ## Plain lines -/

/-- Is there nothing about the character that a printer may show in another way? A colon may begin the code of a
    picture. -/
def isPlainChar (c : Char) : Bool := Text.isPrintable c && c != ':'

/-- There is nothing in the line that may be shown in another way, and no blank at its end. -/
structure IsPlainLine (line : Text) : Prop where
  chars : line.all isPlainChar = true
  last : ∃ c, line.getLast? = some c ∧ c ≠ ' '

/-- The printer writes plain lines as they are. -/
def PrintsPlain (tools : Tools) : Prop :=
  ∀ line, IsPlainLine line → tools.print line = line ++ ['\n']

theorem isPlainChar_of_mem_ofNat {c : Char} {n : Nat} (h : c ∈ Text.ofNat n) : isPlainChar c = true := by
  have hall : ∀ d < 10, isPlainChar (Nat.digitChar d) = true := by decide +kernel
  obtain ⟨d, hd, rfl⟩ := Text.exists_of_mem_ofNat h
  exact hall d hd

/-- The words of a summary are plain up to the path. -/
theorem isPlainLine_summaryText {s : Summary} (h : IsPlainLine s.outputPath.text) : IsPlainLine (summaryText s) := by
  obtain ⟨hchars, c, hlast, hc⟩ := h
  have hdigits : ∀ n, (Text.ofNat n).all isPlainChar = true := fun n =>
    List.all_eq_true.2 fun c hc => isPlainChar_of_mem_ofNat hc
  refine ⟨?_, c, ?_, hc⟩
  · unfold summaryText
    simp only [List.all_append, hdigits, hchars, Bool.and_true]
    decide +kernel
  · unfold summaryText
    rw [List.getLast?_append, hlast, Option.some_or]

/-! ## Runs -/

/-- A run with the exit code 0 has documented a directory. -/
theorem exists_document_of_done (h : (run w tools arguments).exit = .ok 0) :
    ∃ o w' summary, Asks arguments o ∧ document w tools o = (w', .ok summary) ∧
      run w tools arguments =
        { world := w'
          caller := { output := tools.print (summaryText summary) }
          log := [doneEntry summary]
          exit := .ok exitDone } := by
  rcases run_cases w tools arguments with ⟨o, hasks⟩ | hrefused
  · have hrun := @run_eq_of_asks w tools o arguments hasks
    rcases hdocument : document w tools o with ⟨w', (failure | crash) | summary⟩
    · rw [hrun, hdocument] at h
      cases h
    · rw [hrun, hdocument] at h
      cases h
    · rw [hdocument] at hrun
      exact ⟨o, w', summary, hasks, hdocument, hrun⟩
  · rw [hrefused] at h
    cases h

/-- **What a run that succeeds says.** One line is printed to the output of its caller, and nothing is written to the
    errors and to the process. The line has the numbers of records and of policy files and the path of the document. If
    the printer writes plain lines as they are, and the path is plain, then the line is the output. A document that is
    read at the path afterwards has as many rows as the line says, if no link is overlooked on the way. It can be read
    if the path is lasting. -/
theorem run_summary (hw : w.top.WellFormed) (hdone : (run w tools arguments).exit = .ok 0) :
    ∃ o files found line, Asks arguments o ∧ collect w tools.policyFiles o.root = .ok files ∧
      collectRecords w tools o.root = .ok found ∧
      line = "Wrote ".toList ++ Text.ofNat found.records.length ++ " policies from ".toList ++
        Text.ofNat files.length ++ " files to ".toList ++ o.outputPath.text ∧
      (run w tools arguments).process = {} ∧
      (run w tools arguments).caller = { output := tools.print line, errors := [] } ∧
      (PrintsPlain tools → IsPlainLine o.outputPath.text → tools.print line = line ++ ['\n']) ∧
      ((∀ t, w.probe .entry o.outputPath = .ok (some (.link t)) → w.Sees o.outputPath) →
        ∀ bytes, (run w tools arguments).world.read o.outputPath = .ok bytes →
          ∃ text, Text.Utf8.WritesText text bytes ∧ (Annotations.dataRows text).length = found.records.length) ∧
      (Lasting w o.outputPath → ∃ bytes, (run w tools arguments).world.read o.outputPath = .ok bytes) := by
  obtain ⟨o, w', summary, hasks, hdocument, hrun⟩ := exists_document_of_done hdone
  obtain ⟨found, hfound, hwrite, rfl⟩ := document_eq_ok_iff.1 hdocument
  obtain ⟨files, lists, hfiles, hlists, rfl⟩ := collectRecords_eq_ok_iff.1 hfound
  rw [hrun]
  refine ⟨o, files, _, _, hasks, hfiles, hfound, rfl, rfl, rfl, fun hprints hplain => ?_, fun hsees bytes hread => ?_,
    fun hlasting => ?_⟩
  · exact hprints _ (isPlainLine_summaryText (s := ⟨o.outputPath, _, _⟩) hplain)
  · obtain rfl := read_written_eq hw hsees hwrite hread
    refine ⟨_, Text.Utf8.writesText_iff.2 rfl, ?_⟩
    rw [Annotations.dataRows_document (tidy_of_collectRecords hfound), List.length_map]
  · exact ⟨_, hlasting.read_written hw hwrite⟩

/-- The plainest printer writes every line as it is. -/
theorem printsPlain_plain : PrintsPlain .plain := fun _ _ => rfl

theorem lasting_twiceOptions : Lasting twiceWorld twiceOptions.outputPath := by
  have hprobe : twiceWorld.probe .entry twiceOptions.outputPath =
      .ok (some (.file (Text.Utf8.encode "old\n".toList))) := rfl
  refine .entry (by simp [hprobe]) ?_
  rintro ⟨temporary, place, htmp, hstored, hentry⟩
  obtain rfl : Path.ofText "policies.md.tmp".toList = temporary := Except.ok.inj htmp
  obtain rfl : (["policies.md.tmp".toList], none) = place := Except.ok.inj hstored
  cases hentry

theorem run_summary_twice :
    (run twiceWorld .plain ["doc".toList, ".".toList]).caller =
        { output := "Wrote 1 policies from 2 files to policies.md\n".toList, errors := [] } ∧
      ∃ bytes text, Text.Utf8.WritesText text bytes ∧ (Annotations.dataRows text).length = 1 ∧
        (run twiceWorld .plain ["doc".toList, ".".toList]).world.read (.ofText "policies.md".toList) = .ok bytes := by
  have hasks : Asks ["doc".toList, ".".toList] twiceOptions :=
    ⟨⟨".".toList, defaultOutput⟩, by decide +kernel, by decide +kernel⟩
  have hdocument := document_of_written (o := twiceOptions) collectRecords_twiceWorld.2 (by decide +kernel)
  have hdone : (run twiceWorld .plain ["doc".toList, ".".toList]).exit = .ok 0 := by
    rw [run_of_asks hasks, hdocument]
  obtain ⟨o, files, found, line, hasks', hfiles, hfound, rfl, -, hcaller, hprinted, hrows, hlasting⟩ :=
    run_summary wellFormed_twiceWorld hdone
  obtain rfl := hasks.unique hasks'
  obtain rfl := Except.ok.inj (collectRecords_twiceWorld.1.symm.trans hfiles)
  obtain rfl := Except.ok.inj (collectRecords_twiceWorld.2.symm.trans hfound)
  obtain ⟨bytes, hread⟩ := hlasting lasting_twiceOptions
  obtain ⟨text, hwrites, hcount⟩ := hrows (fun _ ht => by cases ht) bytes hread
  refine ⟨?_, bytes, text, hwrites, hcount, hread⟩
  rw [hcaller, hprinted printsPlain_plain ⟨by decide +kernel, 'd', by decide +kernel, by decide⟩]
  rfl

/-- A line with a picture in the place of every code for the number one hundred. -/
def pictured : Text → Text
  | ':' :: '1' :: '0' :: '0' :: ':' :: rest => '💯' :: pictured rest
  | c :: rest => c :: pictured rest
  | [] => []

/-- Tools whose printer shows that picture. -/
def picturing : Tools := { Tools.plain with print := fun line => pictured line ++ ['\n'] }

theorem pictured_eq (h : ':' ∉ line) : pictured line = line := by
  induction line with
  | nil => rfl
  | cons c rest ih =>
      obtain ⟨hc, hrest⟩ := not_or.1 (mt List.mem_cons.2 h)
      rw [pictured, ih hrest]
      rintro _ rfl
      exact absurd rfl hc

/-- It writes plain lines as they are. -/
theorem printsPlain_picturing : PrintsPlain picturing := by
  intro line hline
  have hcolon : ':' ∉ line := fun hmem => by
    have hplain := List.all_eq_true.1 hline.chars _ hmem
    simp [isPlainChar] at hplain
  exact congrArg (· ++ ['\n']) (pictured_eq hcolon)

/-- A directory whose name is a code. -/
def picturedWorld : World where
  top := .directory [(":100:".toList, .directory [("a.rego".toList, .file [])])]
  here := []

/-- There a picture is shown in the place of the name, so that the path is not in the output. -/
theorem run_summary_pictured :
    PrintsPlain picturing ∧
      ∃ o, Asks ["doc".toList, ":100:".toList] o ∧ o.outputPath.text = ":100:/policies.md".toList ∧
        (run picturedWorld picturing ["doc".toList, ":100:".toList]).exit = .ok 0 ∧
        (run picturedWorld picturing ["doc".toList, ":100:".toList]).caller.output =
          "Wrote 0 policies from 1 files to 💯/policies.md\n".toList ∧
        ∀ words, (run picturedWorld picturing ["doc".toList, ":100:".toList]).caller.output ≠
          words ++ (o.outputPath.text ++ ['\n']) := by
  let o : Options := { root := .ofText ":100:".toList }
  have hasks : Asks ["doc".toList, ":100:".toList] o :=
    ⟨⟨":100:".toList, defaultOutput⟩, by decide +kernel, by decide +kernel⟩
  have hfiles : collect picturedWorld picturing.policyFiles o.root = .ok [.ofText ":100:/a.rego".toList] := by
    rw [@collect_eq_of_sorted _ _ _ [("a.rego".toList, .file [])] rfl (by decide) (by decide)]
    decide +kernel
  have hfound : collectRecords picturedWorld picturing o.root = .ok ⟨[], 1⟩ :=
    collectRecords_eq_ok_iff.2 ⟨_, [[]], hfiles, by decide +kernel, rfl⟩
  have hdocument := document_of_written (o := o) hfound (by decide +kernel)
  have hpath : o.outputPath.text = ":100:/policies.md".toList := by decide +kernel
  have houtput : (run picturedWorld picturing ["doc".toList, ":100:".toList]).caller.output =
      "Wrote 0 policies from 1 files to 💯/policies.md\n".toList := by
    rw [run_eq_of_asks hasks, hdocument]
    decide +kernel
  refine ⟨printsPlain_picturing, o, hasks, hpath, ?_, houtput, ?_⟩
  · rw [run_of_asks hasks, hdocument]
  · intro words hwords
    rw [houtput, hpath] at hwords
    have hsuffix : ":100:/policies.md".toList ++ ['\n'] <:+
        "Wrote 0 policies from 1 files to 💯/policies.md\n".toList := ⟨words, hwords.symm⟩
    exact absurd hsuffix (by decide +kernel)

end PolicyTable.CommandLine
