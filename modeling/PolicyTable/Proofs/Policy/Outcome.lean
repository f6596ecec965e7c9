import PolicyTable.Policy.Documentation
import PolicyTable.Proofs.Annotations.Attribution
import PolicyTable.Proofs.Policy.Collection
import PolicyTable.Proofs.Rego.Comments
import PolicyTable.Proofs.Rego.Extraction

/-!
# `PolicyTable.Proofs.Policy.Outcome` — each policy file has its own outcome

What becomes of a policy file depends on that file alone. It cannot be read, or it has lexical errors, or the
grammar check rejects it, or a word of an annotation has no slash, or it has records: the first of these that
applies is its outcome. A directory has the records of its files one after the other, and what is wrong with
its first bad file is what is wrong with the directory, whatever the files after it hold.

## Contents
- **Offending comments.** `FirstBadAt` finds the word without a slash by the offset of its comment, and `lineAt`
  is the line of an offset.
- **One source.** `SourceOutcome`, and `sourceOutcome_iff`.
- **One file.** `FileOutcome`, and `fileOutcome_iff`; a file that can be opened has one
  (`exists_fileOutcome`).

Main statement: `collectRecords_outcomes`.
-/

namespace PolicyTable.Policy

open FileSystem
open Rego (Grammar scan startsComment commentAt commentsBefore comments_finalState diagnosticsOf Readable)
open Annotations (Record BadPair WellAnnotated FirstBad FirstBadWord isMarked recordsOf)

variable {w : World} {grammar : Grammar} {tools : Tools} {root file : Path} {files : List Path}
  {source word word' : Text}
  {offset offset' : Nat} {outcome outcome' : Except Failure (List Record)}

/-! ## Offending comments -/

/-- The line of an offset of a source, counted from one. -/
def lineAt (source : Text) (offset : Nat) : Nat := 1 + (source.take offset).count '\n'

/-- At the offset starts the first annotation of the source with a word that has no slash, and the word is the
    first such word. -/
structure FirstBadAt (source : Text) (offset : Nat) (word : Text) : Prop where
  starts : startsComment source offset = true
  marked : isMarked (commentAt source offset) = true
  firstWord : FirstBadWord (commentAt source offset) word
  before : ∀ i < offset, startsComment source i = true → WellAnnotated (commentAt source i)

theorem scan_comments (source : Text) : (scan source).comments = commentsBefore source source.length :=
  comments_finalState source

theorem lt_length_of_startsComment (h : startsComment source offset = true) : offset < source.length := by
  rw [startsComment, Bool.and_eq_true, decide_eq_true_iff] at h
  exact (List.getElem?_eq_some_iff.1 h.1).1

/-- The comments of a source are those that start at an offset. -/
theorem mem_scan_comments {c : Rego.Comment} :
    c ∈ (scan source).comments ↔ ∃ i, startsComment source i = true ∧ commentAt source i = c := by
  rw [scan_comments, commentsBefore, List.mem_map]
  refine exists_congr fun i => and_congr_left fun _ => ?_
  rw [List.mem_filter, List.mem_range, and_iff_right_iff_imp]
  exact lt_length_of_startsComment

/-- The first bad word of the comments is the one at its offset. -/
theorem exists_firstBadAt {c : Rego.Comment} (h : FirstBad (scan source).comments c word) :
    ∃ i, FirstBadAt source i word ∧ commentAt source i = c := by
  obtain ⟨before, after, hsplit, hbefore, hmarked, hword⟩ := h
  rw [scan_comments, commentsBefore, List.map_eq_append_iff] at hsplit
  obtain ⟨front, back, hoffsets, rfl, hback⟩ := hsplit
  obtain ⟨i, rest, rfl, rfl, _⟩ := List.map_eq_cons_iff.1 hback
  have hmem : ∀ j, j ∈ front ++ i :: rest ↔ startsComment source j = true := by
    intro j
    rw [← hoffsets, List.mem_filter, List.mem_range, and_iff_right_iff_imp]
    exact lt_length_of_startsComment
  have hsorted : (front ++ i :: rest).Pairwise (· < ·) := hoffsets ▸ List.pairwise_lt_range.filter _
  refine ⟨i, ⟨(hmem i).1 (by simp), hmarked, hword, fun j hj hstarts => ?_⟩, rfl⟩
  -- An offset before `i` stands in front of it, since the offsets are in order.
  have hfront : j ∈ front := by
    rcases List.mem_append.1 ((hmem j).2 hstarts) with hfront | hback
    · exact hfront
    · obtain ⟨_, htail, _⟩ := List.pairwise_append.1 hsorted
      obtain ⟨hle, _⟩ := List.pairwise_cons.1 htail
      rcases List.mem_cons.1 hback with rfl | hrest
      · omega
      · have := hle j hrest
        omega
  exact hbefore _ (List.mem_map.2 ⟨j, hfront, rfl⟩)

theorem FirstBadWord.unique {c : Rego.Comment} (h : FirstBadWord c word) (h' : FirstBadWord c word') :
    word = word' := by
  obtain ⟨front, back, hwords, hfront, hword⟩ := h
  obtain ⟨front', back', hwords', hfront', hword'⟩ := h'
  -- It is the first one that the test for a slash fails at.
  have hfind : ∀ {front back : List Text} {word : Text}, (∀ x ∈ front, '/' ∈ x) → '/' ∉ word →
      (front ++ word :: back).find? (fun x => decide ('/' ∉ x)) = some word := by
    intro front back word hfront hword
    rw [List.find?_append, List.find?_eq_none.2 (by simpa using hfront)]
    simp [hword]
  have heq := @hfind front back word hfront hword
  rw [← hwords, hwords', hfind hfront' hword'] at heq
  exact (Option.some.inj heq).symm

theorem FirstBadAt.not_wellAnnotated (h : FirstBadAt source offset word) :
    ¬ WellAnnotated (commentAt source offset) := by
  intro hwell
  obtain ⟨front, back, hwords, _, hword⟩ := h.firstWord
  exact hword (hwell h.marked word (by rw [hwords]; simp))

theorem FirstBadAt.unique (h : FirstBadAt source offset word) (h' : FirstBadAt source offset' word') :
    offset = offset' ∧ word = word' := by
  have hoffset : offset = offset' := by
    rcases Nat.lt_trichotomy offset offset' with hlt | heq | hgt
    · exact absurd (h'.before offset hlt h.starts) h.not_wellAnnotated
    · exact heq
    · exact absurd (h.before offset' hgt h'.starts) h'.not_wellAnnotated
  subst hoffset
  exact ⟨rfl, FirstBadWord.unique h.firstWord h'.firstWord⟩

/-- **Reading the comments of a source fails at its first bad word**, with the line on which the comment starts. -/
theorem recordsOf_scan_eq_error_iff {bad : BadPair} :
    recordsOf (scan source).comments = .error bad ↔
      ∃ i word, FirstBadAt source i word ∧ bad = ⟨lineAt source i, ⟨word⟩⟩ := by
  have herror : ∀ bad, recordsOf (scan source).comments = .error bad →
      ∃ i word, FirstBadAt source i word ∧ bad = ⟨lineAt source i, ⟨word⟩⟩ := by
    intro bad h
    obtain ⟨c, word, hfirst, rfl⟩ := Annotations.firstBad_of_foldlM (map_eq_error_iff.1 h)
    obtain ⟨i, hi, rfl⟩ := exists_firstBadAt hfirst
    exact ⟨i, word, hi, rfl⟩
  refine ⟨herror bad, ?_⟩
  rintro ⟨i, word, hi, rfl⟩
  cases hrecords : recordsOf (scan source).comments with
  | ok records =>
      have hall := Annotations.exists_recordsOf_iff.1 ⟨records, hrecords⟩
      exact absurd (hall _ (mem_scan_comments.2 ⟨i, hi.starts, rfl⟩)) hi.not_wellAnnotated
  | error bad' =>
      obtain ⟨i', word', hi', rfl⟩ := herror bad' hrecords
      obtain ⟨rfl, rfl⟩ := hi.unique hi'
      rfl

/-! ## One source -/

/-- What becomes of the source of a policy file: the first of these that applies. -/
inductive SourceOutcome (grammar : Grammar) (file : Path) (source : Text) : Except Failure (List Record) → Prop
  | lexical (errors : (scan source).diagnostics ≠ []) :
      SourceOutcome grammar file source (.error (.parsing file (scan source).diagnostics))
  | rejected {text : Text} {ds : List Rego.Diagnostic} (clean : (scan source).diagnostics = [])
      (verdict : grammar source = .rejected text) (diagnostics : diagnosticsOf text = .ok ds) :
      SourceOutcome grammar file source (.error (.parsing file ds))
  | misannotated {offset : Nat} {word : Text} (clean : (scan source).diagnostics = [])
      (verdict : grammar source = .accepted) (bad : FirstBadAt source offset word) :
      SourceOutcome grammar file source (.error (.annotating file ⟨lineAt source offset, ⟨word⟩⟩))
  | records {records : List Record} (clean : (scan source).diagnostics = [])
      (verdict : grammar source = .accepted) (read : recordsOf (scan source).comments = .ok records) :
      SourceOutcome grammar file source (.ok records)

theorem sourceRecords_of_lexical (h : (scan source).diagnostics ≠ []) :
    sourceRecords grammar file source = .error (.failed (.parsing file (scan source).diagnostics)) := by
  rw [sourceRecords, Rego.extract_of_lexical h]
  exact if_neg (by simpa using h)

theorem sourceRecords_of_clean (h : (scan source).diagnostics = []) :
    sourceRecords grammar file source =
      match (grammar source).diagnostics with
      | .error numeral => .error (.crashed (.longNumeral numeral))
      | .ok ds =>
        if ds.isEmpty then (recordsOf (scan source).comments).mapError fun bad => .failed (.annotating file bad)
        else .error (.failed (.parsing file ds)) := by
  rw [sourceRecords, Rego.extract_of_clean h]
  cases (grammar source).diagnostics with
  | error numeral => rfl
  | ok ds =>
      show (if ds.isEmpty = true then _ else _) = if ds.isEmpty = true then _ else _
      cases recordsOf (scan source).comments <;> rfl

/-- **A source has the outcome that is computed for it**, and no other. -/
theorem sourceOutcome_iff :
    SourceOutcome grammar file source outcome ↔
      sourceRecords grammar file source = outcome.mapError Stop.failed := by
  -- The cases are split in the order of the stages; within one, only one outcome can apply.
  by_cases hclean : (scan source).diagnostics = []
  · rw [sourceRecords_of_clean hclean]
    cases hverdict : grammar source with
    | rejected text =>
        show _ ↔ (match diagnosticsOf text with | .error _ => _ | .ok _ => _) = _
        constructor
        · rintro (errors | ⟨_, hverdict', hds⟩ | ⟨_, hverdict', _⟩ | ⟨_, hverdict', _⟩)
          · exact absurd hclean errors
          · rw [hverdict] at hverdict'
            cases hverdict'
            rw [hds]
            exact if_neg (by simpa using Rego.ne_nil_of_diagnosticsOf hds)
          · rw [hverdict] at hverdict'
            cases hverdict'
          · rw [hverdict] at hverdict'
            cases hverdict'
        · intro h
          cases hds : diagnosticsOf text with
          | error numeral =>
              rw [hds] at h
              cases outcome <;> cases h
          | ok ds =>
              rw [hds] at h
              dsimp only at h
              rw [if_neg (by simpa using Rego.ne_nil_of_diagnosticsOf hds)] at h
              cases outcome <;> cases h
              exact .rejected hclean hverdict hds
    | accepted =>
        show _ ↔ (recordsOf (scan source).comments).mapError _ = _
        constructor
        · rintro (errors | ⟨_, hverdict', _⟩ | ⟨_, _, hbad⟩ | ⟨_, _, hrecords⟩)
          · exact absurd hclean errors
          · rw [hverdict] at hverdict'
            cases hverdict'
          · rw [recordsOf_scan_eq_error_iff.2 ⟨_, _, hbad, rfl⟩]
            rfl
          · rw [hrecords]
            rfl
        · intro h
          cases hrecords : recordsOf (scan source).comments with
          | ok records =>
              rw [hrecords] at h
              cases outcome <;> cases h
              exact .records hclean hverdict hrecords
          | error bad =>
              obtain ⟨i, word, hbad, rfl⟩ := recordsOf_scan_eq_error_iff.1 hrecords
              rw [hrecords] at h
              cases outcome <;> cases h
              exact .misannotated hclean hverdict hbad
  · rw [sourceRecords_of_lexical hclean]
    constructor
    · rintro (_ | ⟨hclean', _⟩ | ⟨hclean', _⟩ | ⟨hclean', _⟩)
      · rfl
      · exact absurd hclean' hclean
      · exact absurd hclean' hclean
      · exact absurd hclean' hclean
    · intro h
      cases outcome <;> cases h
      exact .lexical hclean

/-! ## One file -/

/-- The text of a policy file: its bytes are strict UTF-8, and the line ends are brought into one form. -/
def HasSource (w : World) (file : Path) (source : Text) : Prop :=
  ∃ bytes text, w.read file = .ok bytes ∧ Text.Utf8.decode bytes = .ok text ∧ source = Text.unifyNewlines text

/-- What becomes of a policy file: the first of these that applies. -/
inductive FileOutcome (w : World) (grammar : Grammar) (file : Path) : Except Failure (List Record) → Prop
  | unreadable {fault : Fault} (read : w.read file = .error (.refused fault)) :
      FileOutcome w grammar file (.error (.reading file (.refused fault)))
  | undecodable {bytes : List UInt8} {fault : Text.Utf8.Fault} (read : w.read file = .ok bytes)
      (decode : Text.Utf8.decode bytes = .error fault) :
      FileOutcome w grammar file (.error (.reading file (.undecodable fault)))
  | source {source : Text} {outcome : Except Failure (List Record)} (read : HasSource w file source)
      (outcome_source : SourceOutcome grammar file source outcome) : FileOutcome w grammar file outcome

theorem readPolicy_eq_ok_iff : readPolicy w file = .ok source ↔ HasSource w file source := by
  unfold readPolicy HasSource textOfBytes
  constructor
  · intro h
    split at h
    · cases h
    · cases h
    · rename_i bytes hbytes
      split at h
      · rename_i text htext
        cases h
        obtain ⟨text, hdecode, rfl⟩ := map_eq_ok_iff.1 htext
        exact ⟨bytes, text, hbytes, hdecode, rfl⟩
      · cases h
  · rintro ⟨bytes, text, hbytes, hdecode, rfl⟩
    rw [hbytes]
    dsimp only
    rw [hdecode]
    rfl

theorem readPolicy_eq_failed_iff {failure : Failure} :
    readPolicy w file = .error (.failed failure) ↔
      (∃ fault, w.read file = .error (.refused fault) ∧ failure = .reading file (.refused fault)) ∨
        ∃ bytes fault, w.read file = .ok bytes ∧ Text.Utf8.decode bytes = .error fault ∧
          failure = .reading file (.undecodable fault) := by
  unfold readPolicy textOfBytes
  cases hbytes : w.read file with
  | error refusal =>
      cases refusal with
      | nulInPath => simp
      | refused fault => simp [eq_comm]
  | ok bytes =>
      cases hdecode : Text.Utf8.decode bytes with
      | ok text => simp [Except.map, hdecode]
      | error fault => simp [Except.map, hdecode, eq_comm]

/-- **A file has the outcome that is computed for it**, and no other. -/
theorem fileOutcome_iff :
    FileOutcome w grammar file outcome ↔ fileRecords w grammar file = outcome.mapError Stop.failed := by
  unfold fileRecords
  constructor
  · rintro (hread | ⟨hread, hdecode⟩ | ⟨hsource, houtcome⟩)
    · exact bind_eq_error_iff.2 (.inl (readPolicy_eq_failed_iff.2 (.inl ⟨_, hread, rfl⟩)))
    · exact bind_eq_error_iff.2 (.inl (readPolicy_eq_failed_iff.2 (.inr ⟨_, _, hread, hdecode, rfl⟩)))
    · rw [readPolicy_eq_ok_iff.2 hsource]
      exact sourceOutcome_iff.1 houtcome
  · intro h
    cases hread : readPolicy w file with
    | ok source =>
        rw [hread] at h
        exact .source (readPolicy_eq_ok_iff.1 hread) (sourceOutcome_iff.2 h)
    | error stop =>
        rw [hread] at h
        cases outcome with
        | ok records => cases h
        | error failure =>
            cases h
            rcases readPolicy_eq_failed_iff.1 hread with ⟨_, hrefused, rfl⟩ | ⟨_, _, hbytes, hdecode, rfl⟩
            · exact .unreadable hrefused
            · exact .undecodable hbytes hdecode

theorem FileOutcome.unique (h : FileOutcome w grammar file outcome) (h' : FileOutcome w grammar file outcome') :
    outcome = outcome' := by
  have heq := (fileOutcome_iff.1 h).symm.trans (fileOutcome_iff.1 h')
  cases outcome <;> cases outcome' <;> cases heq <;> rfl

/-- A file that can be opened has an outcome, if the complaint about it can be read. -/
theorem exists_fileOutcome (hnul : file.hasNul = false)
    (hgrammar : ∀ source text, grammar source = .rejected text → Readable text) :
    ∃ outcome, FileOutcome w grammar file outcome := by
  cases hread : w.read file with
  | error refusal =>
      cases refusal with
      | refused fault => exact ⟨_, .unreadable hread⟩
      | nulInPath =>
          unfold World.read at hread
          rw [if_neg (by simp [hnul])] at hread
          split at hread <;> cases hread
  | ok bytes =>
      cases hdecode : Text.Utf8.decode bytes with
      | error fault => exact ⟨_, .undecodable hread hdecode⟩
      | ok text =>
          have hsource : HasSource w file (Text.unifyNewlines text) := ⟨bytes, text, hread, hdecode, rfl⟩
          generalize Text.unifyNewlines text = source at hsource
          by_cases hclean : (scan source).diagnostics = []
          · cases hverdict : grammar source with
            | rejected text =>
                obtain ⟨ds, hds⟩ := Rego.exists_diagnosticsOf_iff.2 (hgrammar source text hverdict)
                exact ⟨_, .source hsource (.rejected hclean hverdict hds)⟩
            | accepted =>
                cases hrecords : recordsOf (scan source).comments with
                | ok records => exact ⟨_, .source hsource (.records hclean hverdict hrecords)⟩
                | error bad =>
                    obtain ⟨i, word, hbad, rfl⟩ := recordsOf_scan_eq_error_iff.1 hrecords
                    exact ⟨_, .source hsource (.misannotated hclean hverdict hbad)⟩
          · exact ⟨_, .source hsource (.lexical hclean)⟩

/-! ## Directory -/

/-- **A directory has the outcomes of its files.** Each file that is collected has exactly one outcome. If all of
    them have records, the directory has these one after the other; otherwise the first failure among them is
    the failure of the directory. The report of an annotation begins with the file and the line. -/
theorem collectRecords_outcomes (hw : w.top.WellFormed)
    (hgrammar : ∀ source text, tools.grammar source = .rejected text → Readable text)
    (hfiles : collect w tools.policyFiles root = .ok files) :
    (∀ file ∈ files, ∃! outcome, FileOutcome w tools.grammar file outcome) ∧
    (∀ lists, List.Forall₂ (fun file records => FileOutcome w tools.grammar file (.ok records)) files lists →
      collectRecords w tools root = .ok ⟨lists.flatten, files.length⟩) ∧
    (∀ before file after failure, files = before ++ file :: after →
      (∀ f ∈ before, ∃ records, FileOutcome w tools.grammar f (.ok records)) →
      FileOutcome w tools.grammar file (.error failure) →
      collectRecords w tools root = .error (.failed failure)) ∧
    ∀ file source offset word, (Failure.annotating file ⟨lineAt source offset, ⟨word⟩⟩).message =
      file.text ++ ": line ".toList ++ Text.ofNat (lineAt source offset) ++ ": ".toList ++
        (Annotations.BadWord.mk word).message := by
  have hrecords : collectRecords w tools root =
      (files.mapM (fileRecords w tools.grammar)).map fun lists => ⟨lists.flatten, files.length⟩ := by
    rw [collectRecords, hfiles]
    show (files.mapM (fileRecords w tools.grammar) >>= fun records => pure _) = _
    cases files.mapM (fileRecords w tools.grammar) <;> rfl
  refine ⟨fun file hfile => ?_, fun lists hlists => ?_, ?_, ?_⟩
  · obtain ⟨outcome, h⟩ := exists_fileOutcome (hasNul_of_mem_collect hw hfiles hfile) hgrammar
    exact ⟨outcome, h, fun _ h' => h'.unique h⟩
  · rw [hrecords, mapM_eq_ok_iff.2 (hlists.imp fun _ _ h => fileOutcome_iff.1 h)]
    rfl
  · rintro before file after failure rfl hbefore hfailure
    rw [hrecords, mapM_eq_error_iff.2 ⟨before, file, after, rfl, fun f hf => ?_, fileOutcome_iff.1 hfailure⟩]
    · rfl
    · obtain ⟨records, h⟩ := hbefore f hf
      exact ⟨records, fileOutcome_iff.1 h⟩
  · intro file source offset word
    rw [List.append_assoc file.text, List.append_assoc file.text, List.append_assoc file.text]
    rfl

/-- Two policy files: the annotation of the second one has nothing above it in its own file. -/
def describedEntries : Entries :=
  [("a.rego".toList, .file (Text.Utf8.encode "# D\n# @Kinds a/B\n".toList)),
    ("b.rego".toList, .file (Text.Utf8.encode "x := 1\n# @Kinds c/D\n".toList))]

def describedWorld : World where
  top := .directory describedEntries
  here := []

/-- The same with two bad files behind them: a word without a slash on the second line, and bytes that are no
    text. -/
def mixedEntries : Entries :=
  describedEntries ++
    [("c.rego".toList, .file (Text.Utf8.encode "\r\n# @Kinds bad\n".toList)),
      ("d.rego".toList, .file [255])]

def mixedWorld : World where
  top := .directory mixedEntries
  here := []

theorem collectRecords_outcomes_mixed :
    collectRecords describedWorld .plain (.ofText ".".toList) =
        .ok ⟨[⟨["a".toList], ["B".toList], "D".toList⟩, ⟨["c".toList], ["D".toList], []⟩], 2⟩ ∧
      collectRecords mixedWorld .plain (.ofText ".".toList) =
        .error (.failed (.annotating (.ofText "c.rego".toList) ⟨2, ⟨"bad".toList⟩⟩)) := by
  have hcollect : collect describedWorld Tools.plain.policyFiles (.ofText ".".toList) =
      .ok [.ofText "a.rego".toList, .ofText "b.rego".toList] := by
    rw [@collect_eq_of_sorted _ _ _ describedEntries rfl (by decide) (by decide)]
    decide +kernel
  have hcollect' : collect mixedWorld Tools.plain.policyFiles (.ofText ".".toList) =
      .ok [.ofText "a.rego".toList, .ofText "b.rego".toList, .ofText "c.rego".toList, .ofText "d.rego".toList] := by
    rw [@collect_eq_of_sorted _ _ _ mixedEntries rfl (by decide) (by decide)]
    decide +kernel
  constructor
  · obtain ⟨_, hall, _⟩ := @collectRecords_outcomes describedWorld .plain _ _
      (.flat (by decide) (by decide) (by decide)) (fun _ _ h => by cases h) hcollect
    exact hall [[⟨["a".toList], ["B".toList], "D".toList⟩], [⟨["c".toList], ["D".toList], []⟩]]
      (.cons (fileOutcome_iff.2 (by decide +kernel)) (.cons (fileOutcome_iff.2 (by decide +kernel)) .nil))
  · obtain ⟨_, _, hfirst, _⟩ := @collectRecords_outcomes mixedWorld .plain _ _
      (.flat (by decide) (by decide) (by decide)) (fun _ _ h => by cases h) hcollect'
    refine hfirst [.ofText "a.rego".toList, .ofText "b.rego".toList] (.ofText "c.rego".toList)
      [.ofText "d.rego".toList] _ rfl ?_ (fileOutcome_iff.2 (by decide +kernel))
    simp only [List.forall_mem_cons, List.not_mem_nil, false_imp_iff, implies_true, and_true]
    exact ⟨⟨[⟨["a".toList], ["B".toList], "D".toList⟩], fileOutcome_iff.2 (by decide +kernel)⟩,
      ⟨[⟨["c".toList], ["D".toList], []⟩], fileOutcome_iff.2 (by decide +kernel)⟩⟩

end PolicyTable.Policy
