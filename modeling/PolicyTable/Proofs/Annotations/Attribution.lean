import PolicyTable.Annotations.Record
import PolicyTable.Proofs.Annotations.Words

/-!
# `PolicyTable.Proofs.Annotations.Attribution` — each annotation has its words and the comment above it

Reading goes over the comments once and carries the latest text that is no annotation. Here the same is said
of positions. An annotation has one record, in the place that the number of annotations before it gives. Its
description is found by looking back to the last comment that is no annotation, however many annotations
stand between the two. What reading fails at is the first word without a slash.

## Contents
- **Positions.** `WellAnnotated`, `Describes` for the text found by looking back, `Record.Writes` for what a
  record is made of, and `FirstBad` for the word that reading fails at.
- **One comment.** `Record.writes_of_ofComment` and `Record.bad_of_ofComment`.
- **All comments.** `Told` is the invariant of reading; `told_of_foldlM` and `firstBad_of_foldlM` are its two
  ends.

Main statement: `recordsOfGiven_spec`.
-/

namespace PolicyTable.Annotations

open Rego (Comment)

variable {c : Comment} {comments before : List Comment} {text : Text} {s t : Reading} {bad : BadPair}

/-! ## Positions -/

/-- If the comment is an annotation, all its words have a slash. -/
def WellAnnotated (c : Comment) : Prop := isMarked c = true → ∀ word ∈ words c.text, '/' ∈ word

/-- The description that holds behind some comments: the text of the last one that is no annotation, and
    the empty text if all are. -/
inductive Describes : List Comment → Text → Prop
  | none {before : List Comment} (h : ∀ d ∈ before, isMarked d = true) : Describes before []
  | last {front back : List Comment} {c : Comment} (hc : isMarked c = false)
      (h : ∀ d ∈ back, isMarked d = true) : Describes (front ++ c :: back) c.text

/-- The record that an annotation writes below a description: its words are pairs, each one cut at its first
    slash. -/
def Record.Writes (c : Comment) (description : Text) (r : Record) : Prop :=
  ∃ pairs : List KindPair, words c.text = pairs.map KindPair.word ∧ (∀ p ∈ pairs, '/' ∉ p.group) ∧
    r.groups = dedupe (pairs.map (·.group)) ∧ r.kinds = pairs.map (·.kind) ∧
      r.description = trimSpaces description

/-- The word is the first one without a slash in its annotation. -/
def FirstBadWord (c : Comment) (word : Text) : Prop :=
  ∃ front back, words c.text = front ++ word :: back ∧ (∀ x ∈ front, '/' ∈ x) ∧ '/' ∉ word

/-- The comment is the first annotation with a word that has no slash, and the word the first such word. -/
def FirstBad (comments : List Comment) (c : Comment) (word : Text) : Prop :=
  ∃ before after, comments = before ++ c :: after ∧ (∀ d ∈ before, WellAnnotated d) ∧
    isMarked c = true ∧ FirstBadWord c word

/-- Looking back passes over an annotation. -/
theorem Describes.concat (h : Describes before text) (hc : isMarked c = true) :
    Describes (before ++ [c]) text := by
  have hback : ∀ back : List Comment, (∀ d ∈ back, isMarked d = true) →
      ∀ d ∈ back ++ [c], isMarked d = true := by
    intro back h d hd
    rcases List.mem_append.1 hd with hd | hd
    · exact h d hd
    · rwa [List.mem_singleton.1 hd]
  cases h with
  | none h => exact .none (hback _ h)
  | last hd h =>
      rw [List.append_assoc, List.cons_append]
      exact .last hd (hback _ h)

theorem FirstBad.not_wellAnnotated {word : Text} (h : FirstBad comments c word) :
    ¬ ∀ d ∈ comments, WellAnnotated d := by
  obtain ⟨before, after, rfl, _, hc, front, back, hwords, _, hword⟩ := h
  intro hall
  have hmem : word ∈ words c.text := by
    rw [hwords]
    simp
  exact hword (hall c (by simp) hc word hmem)

/-! ## One comment -/

/-- What a record is made of. -/
theorem Record.writes_of_ofComment {description : Text} {r : Record}
    (h : Record.ofComment c description = .ok r) : Record.Writes c description r := by
  unfold Record.ofComment at h
  split at h
  · rename_i pairs hpairs
    cases h
    obtain ⟨hwords, hgroups⟩ := KindPair.mapM_ofWord_eq_ok_iff.1 hpairs
    exact ⟨pairs, hwords, hgroups, rfl, rfl, rfl⟩
  · cases h

/-- What keeps a record from being made. -/
theorem Record.bad_of_ofComment {description : Text} (h : Record.ofComment c description = .error bad) :
    ∃ word, FirstBadWord c word ∧ bad = ⟨c.line, ⟨word⟩⟩ := by
  unfold Record.ofComment at h
  split at h
  · cases h
  · rename_i b hb
    cases h
    obtain ⟨front, word, back, hwords, hfront, hword, rfl⟩ := KindPair.mapM_ofWord_eq_error_iff.1 hb
    exact ⟨word, ⟨front, back, hwords, hfront, hword⟩, rfl⟩

/-- The words of a record have slashes. -/
theorem Record.Writes.slash_mem {description : Text} {r : Record} (h : Record.Writes c description r) :
    ∀ word ∈ words c.text, '/' ∈ word := by
  obtain ⟨pairs, hwords, _⟩ := h
  intro word hword
  rw [hwords] at hword
  obtain ⟨p, _, rfl⟩ := List.mem_map.1 hword
  exact List.mem_append_right _ (List.mem_cons_self ..)

theorem Record.Writes.wellAnnotated {description : Text} {r : Record} (h : Record.Writes c description r) :
    WellAnnotated c := fun _ => h.slash_mem

/-! ## All comments -/

/-- **The invariant of reading.** What has been carried along is what looking back finds, and the records
    are those of the annotations so far, each in its place. -/
structure Told (before : List Comment) (s : Reading) : Prop where
  describes : Describes before s.description
  length_eq : s.records.length = before.countP isMarked
  wellAnnotated : ∀ c ∈ before, WellAnnotated c
  record : ∀ front c back, before = front ++ c :: back → isMarked c = true →
    ∃ text r, Describes front text ∧ s.records[front.countP isMarked]? = some r ∧ Record.Writes c text r

theorem Told.start : Told [] {} where
  describes := .none (by simp)
  length_eq := rfl
  wellAnnotated := by simp
  record := by
    intro front c back h
    simp at h

/-- A comment that is no annotation is carried along. -/
theorem Told.carry (h : Told before s) (hc : isMarked c = false) :
    Told (before ++ [c]) { s with description := c.text } where
  describes := .last hc (by simp)
  length_eq := by simp [h.length_eq, List.countP_append, hc]
  wellAnnotated := by
    intro d hd
    rcases List.mem_append.1 hd with hd | hd
    · exact h.wellAnnotated d hd
    · intro hm
      rw [List.mem_singleton.1 hd, hc] at hm
      cases hm
  record := by
    -- No annotation is the last comment, so each one is an annotation so far.
    intro front d back heq hd
    rcases List.eq_nil_or_concat back with rfl | ⟨back, last, rfl⟩
    · obtain ⟨_, hlast⟩ := List.append_inj' heq rfl
      cases hlast
      rw [hc] at hd
      cases hd
    · rw [List.concat_eq_append, ← List.cons_append, ← List.append_assoc] at heq
      obtain ⟨rfl, _⟩ := List.append_inj' heq rfl
      exact h.record front d back rfl hd

/-- An annotation adds its record. -/
theorem Told.add {r : Record} (h : Told before s) (hc : isMarked c = true)
    (hr : Record.Writes c s.description r) :
    Told (before ++ [c]) { s with records := s.records ++ [r] } where
  describes := h.describes.concat hc
  length_eq := by simp [h.length_eq, List.countP_append, hc]
  wellAnnotated := by
    intro d hd
    rcases List.mem_append.1 hd with hd | hd
    · exact h.wellAnnotated d hd
    · rw [List.mem_singleton.1 hd]
      exact hr.wellAnnotated
  record := by
    -- The last comment has the new record; an earlier annotation keeps its place in the longer list.
    intro front d back heq hd
    rcases List.eq_nil_or_concat back with rfl | ⟨back, last, rfl⟩
    · obtain ⟨rfl, hlast⟩ := List.append_inj' heq rfl
      cases hlast
      refine ⟨s.description, r, h.describes, ?_, hr⟩
      rw [← h.length_eq, List.getElem?_concat_length]
    · rw [List.concat_eq_append, ← List.cons_append, ← List.append_assoc] at heq
      obtain ⟨rfl, _⟩ := List.append_inj' heq rfl
      obtain ⟨text, r', htext, hget, hwrites⟩ := h.record front d back rfl hd
      refine ⟨text, r', htext, ?_, hwrites⟩
      have hlt := (List.getElem?_eq_some_iff.1 hget).1
      rw [List.getElem?_append_left hlt, hget]

/-- **One more comment keeps the invariant.** -/
theorem Told.next (h : Told before s) (hs : s.next c = .ok t) : Told (before ++ [c]) t := by
  unfold Reading.next at hs
  by_cases hc : isMarked c = true
  · rw [if_pos hc] at hs
    obtain ⟨r, hr, rfl⟩ := map_eq_ok_iff.1 hs
    exact h.add hc (Record.writes_of_ofComment hr)
  · rw [if_neg hc] at hs
    cases hs
    exact h.carry (by simpa using hc)

theorem told_of_foldlM (h : comments.foldlM Reading.next {} = .ok t) : Told comments t :=
  foldlM_invariant .start (fun _ _ _ _ hs hnext => hs.next hnext) h

/-- **Reading fails at the first word without a slash.** -/
theorem firstBad_of_foldlM (h : comments.foldlM Reading.next {} = .error bad) :
    ∃ c word, FirstBad comments c word ∧ bad = ⟨c.line, ⟨word⟩⟩ := by
  obtain ⟨before, c, after, s, rfl, hbefore, hc⟩ := exists_of_foldlM_eq_error h
  unfold Reading.next at hc
  by_cases hm : isMarked c = true
  · rw [if_pos hm, map_eq_error_iff] at hc
    obtain ⟨word, hword, rfl⟩ := Record.bad_of_ofComment hc
    exact ⟨c, word, ⟨before, after, rfl, (told_of_foldlM hbefore).wellAnnotated, hm, hword⟩, rfl⟩
  · rw [if_neg hm] at hc
    cases hc

/-- Records are read exactly if every annotation is well written. -/
theorem exists_recordsOf_iff :
    (∃ records, recordsOf comments = .ok records) ↔ ∀ c ∈ comments, WellAnnotated c := by
  unfold recordsOf
  constructor
  · rintro ⟨records, h⟩
    obtain ⟨t, ht, _⟩ := map_eq_ok_iff.1 h
    exact (told_of_foldlM ht).wellAnnotated
  · intro hall
    cases hrun : comments.foldlM Reading.next {} with
    | ok t => exact ⟨_, rfl⟩
    | error bad =>
        obtain ⟨c, word, hbad, _⟩ := firstBad_of_foldlM hrun
        exact absurd hall hbad.not_wellAnnotated

/-- The message about a word starts with the line and names the word. -/
theorem BadPair.message_spec (line : Int) (word : Text) :
    "line ".toList ++ Text.ofInt line ++ ": ".toList <+: (BadPair.mk line ⟨word⟩).message ∧
      Text.quoted word <:+: (BadPair.mk line ⟨word⟩).message := by
  refine ⟨List.prefix_append _ _, ?_⟩
  refine List.IsInfix.trans ?_ (List.suffix_append _ _).isInfix
  exact ⟨_, _, rfl⟩

/-- **Each annotation has its words and the comment above it.** Reading succeeds exactly if all words of
    annotations have a slash. Then there is one record for each annotation, in order, made of its own words
    and of the last comment before it that is no annotation. Otherwise the error is about the first
    annotation with a word that has no slash, and about its first such word. -/
theorem recordsOfGiven_spec (given : List Given) :
    ((∃ records, recordsOfGiven given = .ok records) ↔
        ∀ c ∈ given.map Given.toComment, isMarked c = true → ∀ word ∈ words c.text, '/' ∈ word) ∧
      (∀ records, recordsOfGiven given = .ok records →
        records.length = (given.map Given.toComment).countP isMarked ∧
          ∀ before c after, given.map Given.toComment = before ++ c :: after → isMarked c = true →
            ∃ text r, Describes before text ∧ records[before.countP isMarked]? = some r ∧
              Record.Writes c text r) ∧
      ∀ bad, recordsOfGiven given = .error bad →
        ∃ c word, FirstBad (given.map Given.toComment) c word ∧ bad = ⟨c.line, ⟨word⟩⟩ ∧
          "line ".toList ++ Text.ofInt c.line ++ ": ".toList <+: bad.message ∧
            Text.quoted word <:+: bad.message := by
  refine ⟨exists_recordsOf_iff, ?_, ?_⟩
  · intro records h
    obtain ⟨t, ht, rfl⟩ := map_eq_ok_iff.1 h
    have htold := told_of_foldlM ht
    exact ⟨htold.length_eq, htold.record⟩
  · intro bad h
    obtain ⟨c, word, hbad, rfl⟩ := firstBad_of_foldlM (map_eq_error_iff.1 h)
    exact ⟨c, word, hbad, rfl, BadPair.message_spec c.line word⟩

/-- A description with two annotations below it. -/
def sharedDescription : List Given :=
  [.text " D ".toList, .comment ⟨" @Kinds a/B c/D/E".toList, 7, 1⟩, .text " @Kinds".toList]

/-- The same, with two spaces in the second annotation, which make an empty word. -/
def emptyWord : List Given :=
  [.text " D ".toList, .comment ⟨" @Kinds a/B".toList, 7, 1⟩, .comment ⟨"@Kinds  a/B  c".toList, 8, 1⟩]

/-- Both annotations have the description, and the empty word is reported with the line of its comment. -/
theorem recordsOfGiven_sharedDescription :
    (∃ records, recordsOfGiven sharedDescription = .ok records ∧ records.length = 2 ∧
        ∃ text r, Describes ((sharedDescription.map Given.toComment).take 2) text ∧
          records[1]? = some r ∧ Record.Writes ⟨" @Kinds".toList, 0, 0⟩ text r) ∧
      ∃ bad, recordsOfGiven emptyWord = .error bad ∧
        ∃ c word, FirstBad (emptyWord.map Given.toComment) c word ∧ bad = ⟨c.line, ⟨word⟩⟩ ∧
          "line ".toList ++ Text.ofInt c.line ++ ": ".toList <+: bad.message ∧
            Text.quoted word <:+: bad.message := by
  constructor
  · obtain ⟨hok, hrecords, _⟩ := recordsOfGiven_spec sharedDescription
    obtain ⟨records, h⟩ := hok.2 (by decide)
    obtain ⟨hlength, hrecord⟩ := hrecords records h
    exact ⟨records, h, hlength, hrecord _ _ [] rfl (by decide)⟩
  · have h : recordsOfGiven emptyWord = .error ⟨8, ⟨[]⟩⟩ := by rfl
    exact ⟨_, h, (recordsOfGiven_spec emptyWord).2.2 _ h⟩

end PolicyTable.Annotations
