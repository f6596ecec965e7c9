import PolicyTable.Annotations.Record
import PolicyTable.Proofs.Annotations.Words
import PolicyTable.Proofs.Rego.WellLexed
import PolicyTable.Proofs.Text.Pieces

/-!
# `PolicyTable.Proofs.Annotations.RoundTrip` — written annotations are read back

A `Block` is some code and one annotation of it: a line with a description and a line with the marker and
its pairs. Blocks are written one after the other. Scanning what is written and reading the comments gives
one record for each block.

## Contents
- **Writing.** `Block`, `Block.source` and the record that is expected, `Block.record`.
- **Scanning.** `Block.passes`: a block is code with two comments.
- **Reading.** `Block.ofComment_markerText` reads one marker line, `Block.foldlM_next` the comments of all
  blocks.

Main statement: `recordsOf_scan_blocks`.
-/

namespace PolicyTable.Annotations

open Rego (Comment scan Passes)

/-! ## Writing -/

/-- A pair that can be written as one word of a marker line. -/
structure KindPair.IsWord (p : KindPair) : Prop where
  group_space : ' ' ∉ p.group
  group_newline : '\n' ∉ p.group
  group_slash : '/' ∉ p.group
  kind_space : ' ' ∉ p.kind
  kind_newline : '\n' ∉ p.kind

/-- Some code, and an annotation to write behind it. The code has no comment and no error of its own; the
    description is one line without the marker in it; neither line ends in CR. -/
structure Block where
  code : Text
  description : Text
  pairs : List KindPair
  code_comments : (scan code).comments = []
  code_diagnostics : (scan code).diagnostics = []
  description_newline : '\n' ∉ description
  description_marker : ¬ marker <:+: description
  description_end : description.getLast? ≠ some '\r'
  pairs_ne_nil : pairs ≠ []
  pairs_isWord : ∀ p ∈ pairs, p.IsWord
  pairs_end : ∀ p, pairs.getLast? = some p → p.kind.getLast? ≠ some '\r'

namespace Block

/-- The text of the comment with the description. -/
def descriptionText (b : Block) : Text := ' ' :: b.description

/-- The text of the comment with the marker: the pairs stand behind it, with single spaces between. -/
def markerText (b : Block) : Text :=
  ' ' :: marker ++ ' ' :: List.intercalate [' '] (b.pairs.map KindPair.word)

/-- A block as it is written. -/
def source (b : Block) : Text :=
  b.code ++ '\n' :: '#' :: b.descriptionText ++ '\n' :: '#' :: b.markerText ++ ['\n']

/-- The record of a block. -/
def record (b : Block) : Record :=
  { groups := dedupe (b.pairs.map (·.group))
    kinds := b.pairs.map (·.kind)
    description := trimSpaces b.description }

/-! ## Scanning -/

/-- Code without comments and errors is passed over without comments. -/
theorem code_passes (b : Block) : Passes b.code [] := by
  have hlexed : Rego.WellLexed b.code := by
    obtain ⟨he, hb⟩ := Rego.diagnostics_eq_nil_iff_finalState.1 b.code_diagnostics
    exact Rego.wellLexed_of_finalState he hb
  have hnone : (Rego.finalState b.code).comments = [] := b.code_comments
  generalize b.code = code at hlexed hnone
  cases hlexed with
  | items h =>
      obtain ⟨texts, hp⟩ := h.passes
      have htexts : texts = [] := by
        rw [← (Rego.finalState_of_passes hp).1, hnone]
        rfl
      exact htexts ▸ hp
  | lastComment h hb =>
      -- A comment up to the end of the code would be one of its comments.
      obtain ⟨texts, hp⟩ := h.passes
      exact absurd hnone (Rego.finalState_of_passes_comment hp hb).1

theorem newline_not_mem_descriptionText (b : Block) : '\n' ∉ b.descriptionText := by
  simpa [descriptionText] using b.description_newline

theorem newline_not_mem_markerText (b : Block) : '\n' ∉ b.markerText := by
  have hwords : '\n' ∉ List.intercalate [' '] (b.pairs.map KindPair.word) := by
    refine Text.not_mem_intercalate (by decide) ?_
    intro piece hpiece
    obtain ⟨p, hp, rfl⟩ := List.mem_map.1 hpiece
    have hw := b.pairs_isWord p hp
    simp [KindPair.word, hw.group_newline, hw.kind_newline]
  have hmarker : '\n' ∉ marker := by decide
  simp [markerText, hwords, hmarker]

/-- No CR is taken off a text that does not end in one. -/
theorem commentText_of_ne {t : Text} (h : t.getLast? ≠ some '\r') :
    Rego.Scanner.commentText t = t :=
  if_neg h

theorem commentText_descriptionText (b : Block) :
    Rego.Scanner.commentText b.descriptionText = b.descriptionText := by
  apply commentText_of_ne
  unfold descriptionText
  cases hd : b.description with
  | nil => decide
  | cons c r =>
      rw [List.getLast?_cons_cons, ← hd]
      exact b.description_end

theorem commentText_markerText (b : Block) :
    Rego.Scanner.commentText b.markerText = b.markerText := by
  apply commentText_of_ne
  obtain ⟨front, last, hpairs⟩ : ∃ front last, b.pairs = front ++ [last] :=
    ⟨_, _, (List.dropLast_concat_getLast b.pairs_ne_nil).symm⟩
  obtain ⟨lead, hlead⟩ :=
    Text.exists_intercalate_concat [' '] (front.map KindPair.word)
  -- The line ends with the last kind, or with the slash before it if the kind is empty.
  have hend : b.markerText = (' ' :: marker ++ ' ' :: lead ++ last.group) ++ '/' :: last.kind := by
    rw [markerText, hpairs, List.map_append, List.map_singleton, hlead, KindPair.word]
    simp
  have hlast := b.pairs_end last (by rw [hpairs]; simp)
  rw [hend, List.getLast?_append, List.getLast?_cons, Option.some_or]
  cases hk : last.kind.getLast? with
  | none => decide
  | some c => rwa [hk] at hlast

/-- **A written block is code with two comments.** -/
theorem passes (b : Block) : Passes b.source [b.descriptionText, b.markerText] := by
  have hnl : Passes ['\n'] [] := .plain (by decide)
  have h1 := Passes.comment b.newline_not_mem_descriptionText
  have h2 := Passes.comment b.newline_not_mem_markerText
  rw [b.commentText_descriptionText] at h1
  rw [b.commentText_markerText] at h2
  have h := ((b.code_passes.append hnl).append h1).append h2
  simpa [source] using h

theorem passes_flatMap (blocks : List Block) :
    Passes (blocks.flatMap source) (blocks.flatMap fun b => [b.descriptionText, b.markerText]) := by
  induction blocks with
  | nil => exact .nil
  | cons b r ih => exact b.passes.append ih

end Block

/-! ## Reading -/

namespace Block

variable {c : Comment} {b : Block}

/-- The words of a written marker line are the written pairs. -/
theorem words_markerText (b : Block) : words b.markerText = b.pairs.map KindPair.word := by
  have hne : b.pairs.map KindPair.word ≠ [] := by simpa using b.pairs_ne_nil
  have hjoin : b.markerText =
      List.intercalate [' '] ([] :: marker :: b.pairs.map KindPair.word) := by
    rw [List.intercalate_cons_cons, List.intercalate_cons_of_ne_nil hne]
    simp [markerText]
  have hspace : ∀ piece ∈ [] :: marker :: b.pairs.map KindPair.word, ' ' ∉ piece := by
    intro piece hpiece
    rcases List.mem_cons.1 hpiece with rfl | hpiece
    · simp
    · rcases List.mem_cons.1 hpiece with rfl | hpiece
      · decide
      · obtain ⟨p, hp, rfl⟩ := List.mem_map.1 hpiece
        have hw := b.pairs_isWord p hp
        simp [KindPair.word, hw.group_space, hw.kind_space]
  rw [words, hjoin, Text.split_intercalate hspace (by simp)]
  rfl

theorem isMarked_markerText (h : c.text = b.markerText) : isMarked c = true := by
  rw [isMarked, Text.has_iff, h]
  exact ⟨[' '], _, rfl⟩

theorem not_isMarked_descriptionText (h : c.text = b.descriptionText) : isMarked c = false := by
  rw [← Bool.not_eq_true, isMarked, Text.has_iff, h]
  intro hin
  rcases List.infix_cons_iff.1 hin with hpre | hin
  · obtain ⟨r, hr⟩ := hpre
    cases hr
  · exact b.description_marker hin

/-- A written marker line below its description is read as the record of the block. -/
theorem ofComment_markerText (h : c.text = b.markerText) :
    Record.ofComment c b.descriptionText = .ok b.record := by
  have hpairs := KindPair.mapM_ofWord_eq_ok_iff.2 ⟨rfl, fun p hp => (b.pairs_isWord p hp).group_slash⟩
  rw [Record.ofComment, h, b.words_markerText, hpairs]
  simp only [record, trimSpaces, descriptionText]
  rw [Text.trimBy_cons (by decide)]

/-- **The comments of written blocks are read as the records of the blocks**, whatever was read before. -/
theorem foldlM_next (blocks : List Block) {comments : List Comment} (s : Reading)
    (h : comments.map (·.text) = blocks.flatMap fun b => [b.descriptionText, b.markerText]) :
    ∃ description, comments.foldlM Reading.next s =
      .ok { description, records := s.records ++ blocks.map record } := by
  induction blocks generalizing comments s with
  | nil =>
      obtain rfl := List.map_eq_nil_iff.1 h
      exact ⟨s.description, by simp; rfl⟩
  | cons b blocks ih =>
      -- The first two comments are the two lines of the first block.
      obtain ⟨c1, r1, rfl, h1, hr1⟩ := List.map_eq_cons_iff.1 h
      obtain ⟨c2, r2, rfl, h2, hr2⟩ := List.map_eq_cons_iff.1 hr1
      have hnext1 : s.next c1 = .ok { s with description := b.descriptionText } := by
        rw [Reading.next, not_isMarked_descriptionText h1, h1]
        rfl
      have hnext2 : Reading.next { s with description := b.descriptionText } c2 =
          .ok { description := b.descriptionText, records := s.records ++ [b.record] } := by
        rw [Reading.next, isMarked_markerText h2, ofComment_markerText h2]
        rfl
      obtain ⟨description, hrest⟩ :=
        ih { description := b.descriptionText, records := s.records ++ [b.record] } hr2
      refine ⟨description, ?_⟩
      rw [List.foldlM_cons, hnext1]
      show List.foldlM Reading.next _ (c2 :: r2) = _
      rw [List.foldlM_cons, hnext2]
      show List.foldlM Reading.next _ r2 = _
      rw [hrest]
      simp

end Block

/-- **Written annotations are read back.** What the blocks write is scanned without a diagnostic, and its
    comments give one record for each block, in order. -/
theorem recordsOf_scan_blocks (blocks : List Block) :
    (scan (blocks.flatMap Block.source)).diagnostics = [] ∧
      recordsOf (scan (blocks.flatMap Block.source)).comments = .ok (blocks.map Block.record) := by
  obtain ⟨hcomments, hdone⟩ := Rego.finalState_of_passes (Block.passes_flatMap blocks)
  refine ⟨Rego.diagnostics_eq_nil_iff_finalState.2 hdone, ?_⟩
  obtain ⟨description, hfold⟩ := Block.foldlM_next blocks {} hcomments
  show Except.map _ (List.foldlM Reading.next {} (Rego.finalState _).comments) = _
  rw [hfold]
  rfl

/-- A block with every kind of literal in its code, a group without a name, and kinds with a slash, a number
    sign and a quote in them. -/
def oddBlock : Block where
  code := "x := [\"# \\\" (\", \x60(\n#\x60] ".toList
  description := " All  pods ".toList
  pairs := [⟨[], "Pod/exec".toList⟩, ⟨"apps".toList, "#\"".toList⟩, ⟨[], []⟩]
  code_comments := by decide +kernel
  code_diagnostics := by decide +kernel
  description_newline := by decide
  description_marker := by
    rw [← Text.has_iff]
    decide
  description_end := by decide
  pairs_ne_nil := by decide
  pairs_isWord := by
    simp only [List.forall_mem_cons]
    refine ⟨?_, ?_, ?_, by simp⟩ <;> exact ⟨by decide, by decide, by decide, by decide, by decide⟩
  pairs_end := by
    intro p hp
    obtain rfl := Option.some.inj hp
    decide

/-- The block twice gives its record twice. -/
theorem recordsOf_scan_blocks_odd :
    (scan ([oddBlock, oddBlock].flatMap Block.source)).diagnostics = [] ∧
      recordsOf (scan ([oddBlock, oddBlock].flatMap Block.source)).comments =
        .ok (List.replicate 2
          { groups := [[], "apps".toList]
            kinds := ["Pod/exec".toList, "#\"".toList, []]
            description := "All  pods".toList }) := by
  have hrecord : oddBlock.record =
      { groups := [[], "apps".toList]
        kinds := ["Pod/exec".toList, "#\"".toList, []]
        description := "All  pods".toList } := by decide +kernel
  have hback := recordsOf_scan_blocks [oddBlock, oddBlock]
  rwa [List.map_cons, List.map_singleton, hrecord] at hback

end PolicyTable.Annotations
