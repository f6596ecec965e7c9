import PolicyTable.Text.Blank

/-!
# `PolicyTable.Proofs.Text.Pieces` — joining and cutting texts

`Text.split` is the library's `List.splitOn`, so that it undoes a join of pieces that have no separator in
them. The other facts say what stands in a join and at its end, what is left of a trimmed text, and how the words
between blank characters lie in the pieces of a cut.

## Contents
- **Cutting.** `split_eq_splitOn`, `split_intercalate`, `length_split` and `drop_split_append`.
- **Joins.** `not_mem_intercalate`, `mem_intercalate`, `intercalate_concat` and `exists_intercalate_concat`.
- **Trimming.** `trimBy_cons` and `mem_of_mem_trimBy`.
- **Words.** `wordsOf`; those of a text are those of its pieces (`wordsOf_eq_flatMap`).
-/

namespace PolicyTable.Text

/-! ## Cutting -/

theorem split_eq_splitOn (sep : Char) (t : Text) : split sep t = t.splitOn sep := by
  unfold split
  induction t with
  | nil => rfl
  | cons c r ih =>
      rw [List.splitOn_cons_eq_if_modifyHead, ← ih]
      simp only [splitHead, beq_iff_eq]
      split <;> rfl

/-- Cutting a join of pieces without separators gives the pieces back. -/
theorem split_intercalate {sep : Char} {pieces : List Text} (h : ∀ piece ∈ pieces, sep ∉ piece)
    (hne : pieces ≠ []) : split sep (List.intercalate [sep] pieces) = pieces := by
  rw [split_eq_splitOn]
  exact List.splitOn_intercalate sep h hne

/-- There is one piece more than there are separators. -/
theorem length_split (sep : Char) (t : Text) : (split sep t).length = t.count sep + 1 := by
  unfold split
  induction t with
  | nil => rfl
  | cons c r ih =>
      rw [List.length_cons] at ih ⊢
      by_cases hc : c = sep
      · simp [splitHead, hc, ← ih]
      · simpa [splitHead, hc] using ih

/-- Behind the first text, the pieces of two texts are those of the second one. -/
theorem drop_split_append (sep : Char) (t u : Text) :
    (split sep (t ++ u)).drop (t.count sep + 1) = (split sep u).drop 1 := by
  induction t with
  | nil => rfl
  | cons c r ih =>
      unfold split at ih ⊢
      by_cases hc : c = sep
      · simpa [splitHead, hc] using ih
      · simpa [splitHead, hc] using ih

/-! ## Joins -/

theorem not_mem_intercalate {c : Char} {sep : Text} {pieces : List Text} (hs : c ∉ sep)
    (h : ∀ piece ∈ pieces, c ∉ piece) : c ∉ List.intercalate sep pieces := by
  induction pieces with
  | nil => simp
  | cons piece r ih =>
      cases r with
      | nil => simpa using h
      | cons next r =>
          rw [List.intercalate_cons_cons, List.mem_append, List.mem_append]
          rintro ((hc | hc) | hc)
          · exact h piece (List.mem_cons_self ..) hc
          · exact hs hc
          · exact ih (fun p hp => h p (List.mem_cons_of_mem _ hp)) hc

/-- What stands in a piece stands in the join. -/
theorem mem_intercalate {c : Char} {sep piece : Text} {pieces : List Text} (h : piece ∈ pieces)
    (hc : c ∈ piece) : c ∈ List.intercalate sep pieces := by
  induction pieces with
  | nil => cases h
  | cons first r ih =>
      cases r with
      | nil =>
          rw [List.mem_singleton.1 h] at hc
          simpa using hc
      | cons next r =>
          rw [List.intercalate_cons_cons, List.mem_append, List.mem_append]
          rcases List.mem_cons.1 h with rfl | h
          · exact .inl (.inl hc)
          · exact .inr (ih h)

/-- What stands in a piece of a cut stands in the text. -/
theorem mem_of_mem_split {sep c : Char} {t piece : Text} (h : piece ∈ split sep t) (hc : c ∈ piece) :
    c ∈ t := by
  rw [← intercalate_split sep t]
  exact mem_intercalate h hc

/-- One more piece stands behind one more separator. -/
theorem intercalate_concat {sep last : Text} {pieces : List Text} (hne : pieces ≠ []) :
    List.intercalate sep (pieces ++ [last]) = List.intercalate sep pieces ++ sep ++ last := by
  induction pieces with
  | nil => exact absurd rfl hne
  | cons piece r ih =>
      cases r with
      | nil => simp
      | cons next r =>
          rw [List.cons_append, List.intercalate_cons_of_ne_nil (by simp), ih (by simp),
            List.intercalate_cons_cons]
          simp only [List.append_assoc]

/-- A join ends with its last piece, whatever that is. -/
theorem exists_intercalate_concat (sep : Text) (pieces : List Text) :
    ∃ front, ∀ last, List.intercalate sep (pieces ++ [last]) = front ++ last := by
  induction pieces with
  | nil => exact ⟨[], by simp⟩
  | cons piece r ih =>
      obtain ⟨front, hf⟩ := ih
      refine ⟨piece ++ sep ++ front, fun last => ?_⟩
      rw [List.cons_append, List.intercalate_cons_of_ne_nil (by simp), hf]
      simp

/-! ## Trimming -/

/-- A character of the class at the beginning is trimmed off. -/
theorem trimBy_cons {p : Char → Bool} {c : Char} (h : p c = true) (t : Text) :
    trimBy p (c :: t) = trimBy p t := by
  unfold trimBy
  rw [List.dropWhile_cons_of_pos h]

/-- Trimming adds nothing. -/
theorem mem_of_mem_trimBy {p : Char → Bool} {c : Char} {t : Text} (h : c ∈ trimBy p t) : c ∈ t := by
  unfold trimBy trimEndBy at h
  have hback := (List.dropWhile_suffix p).subset (List.mem_reverse.1 h)
  exact (List.dropWhile_suffix p).subset (List.mem_reverse.1 hback)

/-! ## Words -/

/-- The words of a text: what stands between blank characters. -/
def wordsOf (t : Text) : List Text := (t.splitOnP isBlank).filter (!·.isEmpty)

/-- A blank character divides words. -/
theorem wordsOf_append_cons {c : Char} (h : isBlank c = true) (t u : Text) :
    wordsOf (t ++ c :: u) = wordsOf t ++ wordsOf u := by
  unfold wordsOf
  rw [List.splitOnP_append_cons t u h, List.filter_append]

/-- A character that is not blank belongs to a word. -/
theorem wordsOf_ne_nil {c : Char} {t : Text} (h : isBlank c = false) (hc : c ∈ t) : wordsOf t ≠ [] := by
  induction t with
  | nil => cases hc
  | cons first r ih =>
      cases hfirst : isBlank first with
      | true =>
          have hr : c ∈ r := by
            rcases List.mem_cons.1 hc with rfl | hr
            · rw [h] at hfirst
              cases hfirst
            · exact hr
          have hwords : wordsOf (first :: r) = wordsOf [] ++ wordsOf r := wordsOf_append_cons hfirst [] r
          rw [hwords]
          exact List.append_ne_nil_of_right_ne_nil _ (ih hr)
      | false =>
          obtain ⟨piece, pieces, hr⟩ := List.exists_cons_of_ne_nil (List.splitOnP_ne_nil isBlank r)
          rw [wordsOf, List.splitOnP_cons_eq_if_modifyHead, hfirst, if_neg Bool.false_ne_true, hr]
          simp

theorem wordsOf_intercalate {sep : Char} (h : isBlank sep = true) {pieces : List Text} (hne : pieces ≠ []) :
    wordsOf (List.intercalate [sep] pieces) = pieces.flatMap wordsOf := by
  induction pieces with
  | nil => exact absurd rfl hne
  | cons piece r ih =>
      cases r with
      | nil => simp
      | cons next r =>
          rw [List.intercalate_cons_cons, List.append_assoc, List.singleton_append, wordsOf_append_cons h, ih (by simp)]
          rfl

/-- **The words of a text are those of its pieces**, if it is cut at a blank character. -/
theorem wordsOf_eq_flatMap {sep : Char} (h : isBlank sep = true) (t : Text) :
    wordsOf t = (split sep t).flatMap wordsOf := by
  rw [← wordsOf_intercalate h (by simp [split]), intercalate_split]

end PolicyTable.Text
