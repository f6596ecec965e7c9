import PolicyTable.Proofs.Rego.Offsets
import PolicyTable.Proofs.Rego.WellLexed

/-!
# `PolicyTable.Proofs.Rego.LineEnds` — a source with CR LF at the ends of its lines

A source may end its lines with CR LF. The scanner takes the CR for a character of the line, but it finds the
same comments at the same places, since the CR stands behind everything else of its line and a comment gives
up the one at its end. What is reported may differ: a backslash in front of a line end stands in front of the
CR then, and the string that is cut off there takes both. Yet something is reported of the one source exactly
if something is of the other.

## Contents
- **Texts.** `crLf` writes CR LF at the line ends, and `dropCr` takes a CR in front of a line end away.
- **Comments.** The automaton and the places are the same; `comments_crLf`.
- **Lexical form.** `WellLexed.crLf` and `WellLexed.dropCr`; `diagnostics_crLf`.

Main statement: `scan_crLf`.
-/

namespace PolicyTable.Rego

variable {source before rest t u : Text} {c : Char}

/-! ## Texts -/

/-- A text with CR LF for every line end. -/
def crLf : Text → Text
  | [] => []
  | c :: r => if c = '\n' then '\r' :: '\n' :: crLf r else c :: crLf r

/-- A text without the CR in front of a line end. -/
def dropCr : Text → Text
  | [] => []
  | '\r' :: '\n' :: r => '\n' :: dropCr r
  | c :: r => c :: dropCr r

@[simp] theorem crLf_newline (r : Text) : crLf ('\n' :: r) = '\r' :: '\n' :: crLf r := rfl

theorem crLf_cons (hc : c ≠ '\n') (r : Text) : crLf (c :: r) = c :: crLf r := if_neg hc

theorem crLf_append (t u : Text) : crLf (t ++ u) = crLf t ++ crLf u := by
  induction t with
  | nil => rfl
  | cons c t ih =>
      by_cases hc : c = '\n'
      · subst hc
        rw [List.cons_append, crLf_newline, crLf_newline, ih]
        rfl
      · rw [List.cons_append, crLf_cons hc, crLf_cons hc, ih]
        rfl

theorem crLf_concat_newline (t : Text) : crLf (t ++ ['\n']) = crLf t ++ ['\r'] ++ ['\n'] := by
  rw [crLf_append, List.append_assoc]
  rfl

theorem crLf_concat (hc : c ≠ '\n') (t : Text) : crLf (t ++ [c]) = crLf t ++ [c] := by
  rw [crLf_append, crLf_cons hc]
  rfl

/-- A line without its end stays as it is. -/
theorem crLf_of_not_mem (h : '\n' ∉ t) : crLf t = t := by
  induction t with
  | nil => rfl
  | cons c t ih =>
      obtain ⟨hc, ht⟩ := not_or.1 (mt List.mem_cons.2 h)
      rw [crLf_cons (Ne.symm hc), ih ht]

theorem mem_of_mem_crLf (hc : c ≠ '\r') (h : c ∈ crLf t) : c ∈ t := by
  induction t with
  | nil => exact h
  | cons d t ih =>
      by_cases hd : d = '\n'
      · subst hd
        rw [crLf_newline, List.mem_cons, List.mem_cons] at h
        rcases h with h | h | h
        · exact absurd h hc
        · exact h ▸ List.mem_cons_self
        · exact List.mem_cons_of_mem _ (ih h)
      · rw [crLf_cons hd, List.mem_cons] at h
        rcases h with h | h
        · exact h ▸ List.mem_cons_self
        · exact List.mem_cons_of_mem _ (ih h)

theorem dropCr_cons (h : c = '\r' → t.head? ≠ some '\n') : dropCr (c :: t) = c :: dropCr t := by
  rw [dropCr.eq_3]
  rintro r rfl rfl
  exact h rfl rfl

theorem dropCr_cons_of_ne (hc : c ≠ '\r') : dropCr (c :: t) = c :: dropCr t :=
  dropCr_cons fun h => absurd h hc

/-- Taking the CRs away undoes writing them, unless there were some before. -/
theorem dropCr_crLf (h : '\r' ∉ t) : dropCr (crLf t) = t := by
  induction t with
  | nil => rfl
  | cons c t ih =>
      obtain ⟨hc, ht⟩ := not_or.1 (mt List.mem_cons.2 h)
      by_cases hn : c = '\n'
      · subst hn
        show '\n' :: dropCr (crLf t) = _
        rw [ih ht]
      · rw [crLf_cons hn, dropCr_cons fun h => absurd h.symm hc, ih ht]

theorem mem_of_mem_dropCr (h : c ∈ dropCr t) : c ∈ t := by
  fun_induction dropCr t with
  | case1 => exact h
  | case2 r ih =>
      rcases List.mem_cons.1 h with h | h
      · exact h ▸ List.mem_cons_of_mem _ List.mem_cons_self
      · exact List.mem_cons_of_mem _ (List.mem_cons_of_mem _ (ih h))
  | case3 d r _ ih =>
      rcases List.mem_cons.1 h with h | h
      · exact h ▸ List.mem_cons_self
      · exact List.mem_cons_of_mem _ (ih h)

/-- In front of a character that ends no line, a text is read on its own. -/
theorem dropCr_append (t : Text) {r : Text} (hc : c ≠ '\n') :
    dropCr (t ++ c :: r) = dropCr t ++ dropCr (c :: r) := by
  fun_induction dropCr t with
  | case1 => rfl
  | case2 t ih =>
      show '\n' :: dropCr (t ++ c :: r) = _
      rw [ih]
      rfl
  | case3 d t hd ih =>
      have hhead : d = '\r' → (t ++ c :: r).head? ≠ some '\n' := by
        rintro rfl
        cases t with
        | nil => simpa using hc
        | cons e t =>
            intro h
            obtain rfl := Option.some.inj h
            exact hd _ rfl rfl
      rw [List.cons_append, dropCr_cons hhead, ih]
      rfl

theorem dropCr_of_not_mem (h : '\n' ∉ t) : dropCr t = t := by
  fun_induction dropCr t with
  | case1 => rfl
  | case2 r ih => simp at h
  | case3 d r _ ih => rw [ih fun hr => h (List.mem_cons_of_mem _ hr)]

/-- A line that loses the CR at its end is still a line. -/
theorem exists_dropCr_line (h : '\n' ∉ t) (r : Text) :
    ∃ line, '\n' ∉ line ∧ dropCr (t ++ '\n' :: r) = line ++ '\n' :: dropCr r := by
  induction t with
  | nil => exact ⟨[], by simp, dropCr_cons_of_ne (by decide)⟩
  | cons c t ih =>
      obtain ⟨hc, ht⟩ := not_or.1 (mt List.mem_cons.2 h)
      by_cases hcr : c = '\r' ∧ t = []
      · obtain ⟨rfl, rfl⟩ := hcr
        exact ⟨[], by simp, rfl⟩
      · obtain ⟨line, hline, heq⟩ := ih ht
        have hhead : c = '\r' → (t ++ '\n' :: r).head? ≠ some '\n' := by
          rintro rfl
          cases t with
          | nil => exact absurd ⟨rfl, rfl⟩ hcr
          | cons d t =>
              intro h
              obtain rfl := Option.some.inj h
              exact ht List.mem_cons_self
        refine ⟨c :: line, by simp [hc, hline], ?_⟩
        rw [List.cons_append, dropCr_cons hhead, heq]
        rfl

/-! ## Comments -/

theorem Zone.next_crLf (z : Zone) : (z.next '\r').next '\n' = z.next '\n' := by
  cases z <;> rfl

/-- The automaton stands where it would stand without the CRs. -/
theorem Zone.after_crLf (before : Text) : Zone.after (crLf before) = Zone.after before := by
  induction before using List.reverseRecOn with
  | nil => rfl
  | append_singleton before c ih =>
      by_cases hc : c = '\n'
      · rw [hc, crLf_concat_newline, after_concat, after_concat, after_concat, ih, next_crLf]
      · rw [crLf_concat hc, after_concat, after_concat, ih]

/-- A CR behind its line moves no place. -/
theorem Position.after_crLf (before : Text) : Position.after (crLf before) = Position.after before := by
  induction before using List.reverseRecOn with
  | nil => rfl
  | append_singleton before c ih =>
      by_cases hc : c = '\n'
      · rw [hc, crLf_concat_newline, after_concat, after_concat, after_concat, ih]
        rfl
      · rw [crLf_concat hc, after_concat, after_concat, ih]

theorem withoutCr_concat (line : Text) : withoutCr (line ++ ['\r']) = line := by
  rw [← commentText_eq_withoutCr]
  simp [Scanner.commentText]

theorem withoutCr_of_not_mem (h : '\r' ∉ t) : withoutCr t = t := by
  rw [← commentText_eq_withoutCr]
  exact if_neg fun hlast => h (List.mem_of_getLast? hlast)

/-- A comment that runs to the end of a line gives up the CR there. -/
theorem withoutCr_takeWhile_crLf (h : '\r' ∉ rest) :
    withoutCr ((crLf rest).takeWhile (· ≠ '\n')) = withoutCr (rest.takeWhile (· ≠ '\n')) := by
  obtain ⟨line, r, rfl, hl, he⟩ := exists_line rest
  have hcr : '\r' ∉ line := fun hmem => h (List.mem_append_left _ hmem)
  rw [crLf_append, crLf_of_not_mem hl, takeWhile_line hl he, withoutCr_of_not_mem hcr]
  cases he with
  | atEnd =>
      show withoutCr ((line ++ []).takeWhile _) = _
      rw [takeWhile_line hl .atEnd, withoutCr_of_not_mem hcr]
  | @atNewline r =>
      have hline : '\n' ∉ line ++ ['\r'] := by simpa using hl
      rw [crLf_newline, List.append_cons, takeWhile_line hline .atNewline, withoutCr_concat]

theorem commentOf_crLf (h : '\r' ∉ rest) :
    commentOf (crLf before) c (crLf rest) = commentOf before c rest := by
  unfold commentOf
  rw [Zone.after_crLf, Position.after_crLf, withoutCr_takeWhile_crLf h]

/-- The comments from a place on. -/
theorem gather_commentOf_crLf (before : Text) (h : '\r' ∉ rest) :
    gather (fun more => commentOf (crLf before ++ more)) (crLf rest) (crLf rest).length =
      gather (fun more => commentOf (before ++ more)) rest rest.length := by
  induction rest generalizing before with
  | nil => rfl
  | cons c rest ih =>
      have hrest : '\r' ∉ rest := fun hmem => h (List.mem_cons_of_mem _ hmem)
      have htail := ih (before ++ [c]) hrest
      simp only [List.append_assoc, List.singleton_append, crLf_append] at htail
      by_cases hc : c = '\n'
      · subst hc
        -- Neither the CR nor the line end starts a comment.
        have hcr : ∀ b r, commentOf b '\r' r = none := fun _ _ => rfl
        have hnl : ∀ b r, commentOf b '\n' r = none := fun _ _ => rfl
        rw [crLf_newline, gather_cons, gather_cons, gather_cons, hcr, hnl, hnl]
        exact htail
      · rw [crLf_cons hc] at htail ⊢
        rw [gather_cons, gather_cons, List.append_nil, List.append_nil, commentOf_crLf hrest]
        exact congrArg _ htail

/-- A scan finds the same comments whether lines end with LF or with CR LF. -/
theorem comments_crLf (h : '\r' ∉ source) : (scan (crLf source)).comments = (scan source).comments := by
  rw [scan_comments_eq_gather, scan_comments_eq_gather]
  exact gather_commentOf_crLf [] h

/-! ## Lexical form -/

theorem StringBody.newline_not_mem (h : StringBody t) : '\n' ∉ t := by
  induction h with
  | nil => simp
  | plain _ _ hn _ ih => simp [Ne.symm hn, ih]
  | escape hn _ ih => simp [Ne.symm hn, ih]

theorem Bracket.opening_ne_of_not_mem (b : Bracket) (hc : c ∉ reserved) : b.opening ≠ c := by
  rintro rfl
  exact hc (by cases b <;> decide)

theorem Bracket.closing_ne_of_not_mem (b : Bracket) (hc : c ∉ reserved) : b.closing ≠ c := by
  rintro rfl
  exact hc (by cases b <;> decide)

/-- The items of a source, with CR LF at the ends of the lines: a comment takes the CR in. -/
theorem Items.crLf (h : Items t) : Items (crLf t) := by
  induction h with
  | nil => exact .nil
  | @comment body r hb _ ih =>
      have hline : '\n' ∉ body ++ ['\r'] := by simpa using hb
      rw [crLf_append, crLf_newline, crLf_cons (by decide), crLf_of_not_mem hb]
      simpa using Items.comment hline ih
  | string hb _ ih =>
      rw [crLf_append, crLf_cons (by decide), crLf_cons (by decide), crLf_of_not_mem hb.newline_not_mem]
      exact .string hb ih
  | raw hb _ ih =>
      rw [crLf_append, crLf_cons (by decide), crLf_cons (by decide)]
      exact .raw (fun hmem => hb (mem_of_mem_crLf (by decide) hmem)) ih
  | @group b inner r _ _ hi ih =>
      have hopening : b.opening ≠ '\n' := b.opening_ne_of_not_mem (by decide)
      have hclosing : b.closing ≠ '\n' := b.closing_ne_of_not_mem (by decide)
      rw [crLf_append, crLf_cons hopening, crLf_cons hclosing]
      exact .group hi ih
  | @plain c r hc _ ih =>
      by_cases hn : c = '\n'
      · subst hn
        exact .plain (by decide) (.plain hc ih)
      · rw [crLf_cons hn]
        exact .plain hc ih

theorem WellLexed.crLf (h : WellLexed t) : WellLexed (crLf t) := by
  cases h with
  | items h => exact .items h.crLf
  | lastComment h hb =>
      rw [crLf_append, crLf_cons (by decide), crLf_of_not_mem hb]
      exact .lastComment h.crLf hb

/-- The items of a source, without the CR in front of a line end: a comment loses it, and elsewhere it is an
    item of its own. -/
theorem Items.dropCr (h : Items t) : Items (dropCr t) := by
  induction h with
  | nil => exact .nil
  | @comment body r hb _ ih =>
      obtain ⟨line, hline, heq⟩ := exists_dropCr_line hb r
      rw [List.cons_append, dropCr_cons_of_ne (by decide), heq]
      exact .comment hline ih
  | @string body r hb _ ih =>
      rw [dropCr_append _ (by decide), dropCr_cons_of_ne (by decide), dropCr_cons_of_ne (by decide),
        dropCr_of_not_mem hb.newline_not_mem]
      exact .string hb ih
  | @raw body r hb _ ih =>
      rw [dropCr_append _ (by decide), dropCr_cons_of_ne (by decide), dropCr_cons_of_ne (by decide)]
      exact .raw (fun hmem => hb (mem_of_mem_dropCr hmem)) ih
  | @group b inner r _ _ hi ih =>
      have hline : b.closing ≠ '\n' := b.closing_ne_of_not_mem (by decide)
      have hopening : b.opening ≠ '\r' := b.opening_ne_of_not_mem (by decide)
      have hclosing : b.closing ≠ '\r' := b.closing_ne_of_not_mem (by decide)
      rw [dropCr_append _ hline, dropCr_cons_of_ne hopening, dropCr_cons_of_ne hclosing]
      exact .group hi ih
  | @plain c r hc _ ih =>
      by_cases hcr : c = '\r' ∧ r.head? = some '\n'
      · obtain ⟨rfl, hr⟩ := hcr
        obtain ⟨r, rfl⟩ := List.head?_eq_some_iff.1 hr
        rw [dropCr_cons_of_ne (by decide)] at ih
        exact ih
      · rw [dropCr_cons fun h hr => hcr ⟨h, hr⟩]
        exact .plain hc ih

theorem WellLexed.dropCr (h : WellLexed t) : WellLexed (dropCr t) := by
  cases h with
  | items h => exact .items h.dropCr
  | lastComment h hb =>
      rw [dropCr_append _ (by decide), dropCr_cons_of_ne (by decide), dropCr_of_not_mem hb]
      exact .lastComment h.dropCr hb

/-- Something is reported of the one source exactly if something is of the other. -/
theorem diagnostics_crLf (h : '\r' ∉ source) :
    (scan (crLf source)).diagnostics = [] ↔ (scan source).diagnostics = [] := by
  rw [diagnostics_eq_nil_iff_finalState, diagnostics_eq_nil_iff_finalState]
  constructor
  · rintro ⟨herrors, hbrackets⟩
    have hlexed := (wellLexed_of_finalState herrors hbrackets).dropCr
    rw [dropCr_crLf h] at hlexed
    exact finalState_of_wellLexed hlexed
  · rintro ⟨herrors, hbrackets⟩
    exact finalState_of_wellLexed (wellLexed_of_finalState herrors hbrackets).crLf

/-- **A scan does not depend on the line ends.** With CR LF for every line end it finds the same comments, at
    the same places, and it reports something exactly if it did before. -/
theorem scan_crLf (h : '\r' ∉ source) :
    (scan (crLf source)).comments = (scan source).comments ∧
      ((scan (crLf source)).diagnostics ≠ [] ↔ (scan source).diagnostics ≠ []) :=
  ⟨comments_crLf h, not_congr (diagnostics_crLf h)⟩

/-- A comment in front of a line end, and a backslash that the line end behind it cuts off. -/
theorem scan_crLf_backslash :
    '\r' ∉ ['#', 'a', '\n', '"', '\\', '\n', '#', 'b'] ∧
      (scan (crLf ['#', 'a', '\n', '"', '\\', '\n', '#', 'b'])).comments =
        [⟨['a'], 1, 1⟩, ⟨['b'], 3, 1⟩] ∧
      (scan (crLf ['#', 'a', '\n', '"', '\\', '\n', '#', 'b'])).diagnostics ≠ [] := by
  have hlf : '\r' ∉ ['#', 'a', '\n', '"', '\\', '\n', '#', 'b'] := by decide
  have hreported : (scan ['#', 'a', '\n', '"', '\\', '\n', '#', 'b']).diagnostics ≠ [] := by
    rw [ne_eq, diagnostics_eq_nil_iff_finalState]
    decide
  obtain ⟨hcomments, hdiagnostics⟩ := scan_crLf hlf
  exact ⟨hlf, hcomments.trans (by decide), hdiagnostics.2 hreported⟩

end PolicyTable.Rego
