import PolicyTable.Proofs.Rego.Literals

/-!
# `PolicyTable.Proofs.Rego.Lines` — a source that goes on behind a line end

A line end takes the scanner back into code unless a raw literal is open. What follows it is then scanned as a
source of its own, some lines further down. For the comments no more is needed. The errors depend on the
open brackets as well, so for them the source before the line end must be free of errors.

## Contents
- **Further down.** `below` for places, comments, errors, diagnostics and states of the scanner.
- **Comments.** `commentOf_behind_line`, and `comments_behind_line` for a whole source.
- **Runs.** Moving a state down is a simulation: `Scanner.Step.below` and `Scanner.Reaches.below`.
- **Errors.** `errors_behind_line`.

Main statement: `scan_behind_line`.
-/

namespace PolicyTable.Rego

open Scanner (Reaches Step start)

/-! ## Further down -/

/-- The place some lines further down, in the same column. -/
def Position.below (lines : Nat) (p : Position) : Position := { p with line := p.line + lines }

/-- The comment some lines further down. -/
def Comment.below (lines : Nat) (c : Comment) : Comment := { c with line := c.line + lines }

/-- The diagnostic some lines further down. -/
def Diagnostic.below (lines : Nat) (d : Diagnostic) : Diagnostic := { d with line := d.line + lines }

/-- The error some lines further down. -/
def LexicalError.below (lines : Nat) (e : LexicalError) : LexicalError :=
  { e with position := e.position.below lines }

theorem Comment.mk_below (lines : Nat) (text : Text) (p : Position) :
    Comment.mk text (p.below lines).line (p.below lines).column =
      (Comment.mk text p.line p.column).below lines := by
  show Comment.mk text ((p.line + lines : Nat) : Int) _ = Comment.mk text _ _
  rw [Int.natCast_add]
  rfl

theorem LexicalError.diagnostic_below (lines : Nat) (e : LexicalError) :
    (e.below lines).diagnostic = e.diagnostic.below lines := by
  show Diagnostic.mk ((e.position.line + lines : Nat) : Int) _ _ = Diagnostic.mk _ _ _
  rw [Int.natCast_add]
  rfl

theorem Position.le_below (lines : Nat) (p q : Position) :
    (p.below lines).le (q.below lines) = p.le q := by
  unfold Position.le Position.below
  rw [Bool.eq_iff_iff]
  simp only [Bool.or_eq_true, Bool.and_eq_true, decide_eq_true_eq, beq_iff_eq]
  omega

variable {front before rest : Text} {c : Char}

/-- A line end starts a new line, and the places behind it are counted from there. -/
theorem Position.after_behind_line (front before : Text) :
    Position.after (front ++ '\n' :: before) = (Position.after before).below (1 + front.count '\n') := by
  induction before using List.reverseRecOn with
  | nil =>
      rw [Position.after_concat, if_pos rfl]
      show Position.mk (1 + front.count '\n' + 1) 1 = Position.mk (1 + (1 + front.count '\n')) 1
      rw [Nat.add_comm]
  | append_singleton before c ih =>
      rw [← List.cons_append, ← List.append_assoc, Position.after_concat, Position.after_concat, ih]
      by_cases hc : c = '\n'
      · rw [if_pos hc, if_pos hc]
        show Position.mk (_ + _ + 1) 1 = Position.mk (_ + 1 + _) 1
        rw [Nat.add_right_comm]
      · rw [if_neg hc, if_neg hc]
        rfl

/-! ## Comments -/

/-- Behind a line end that no raw literal takes in, the automaton reads as from the start. -/
theorem Zone.after_behind_line (hz : Zone.after front ≠ .raw) (before : Text) :
    Zone.after (front ++ '\n' :: before) = Zone.after before := by
  rw [Zone.after_append, List.foldl_cons, Zone.next_newline hz]
  rfl

theorem commentOf_behind_line (hz : Zone.after front ≠ .raw) :
    commentOf (front ++ '\n' :: before) c rest =
      (commentOf before c rest).map (·.below (1 + front.count '\n')) := by
  unfold commentOf
  rw [Zone.after_behind_line hz, Position.after_behind_line]
  by_cases h : c = '#' ∧ Zone.after before = .code
  · rw [if_pos h, if_pos h, Option.map_some, Comment.mk_below]
  · rw [if_neg h, if_neg h]
    rfl

/-- A comment does not see what stands behind its line. -/
theorem commentOf_before_line (back : Text) :
    commentOf before c (rest ++ '\n' :: back) = commentOf before c rest := by
  have hline : (rest ++ '\n' :: back).takeWhile (· ≠ '\n') = rest.takeWhile (· ≠ '\n') := by
    obtain ⟨line, r, rfl, hl, he⟩ := exists_line rest
    rw [takeWhile_line hl he]
    cases he with
    | atEnd => rw [List.append_nil, takeWhile_line hl .atNewline]
    | atNewline => rw [List.append_assoc, List.cons_append, takeWhile_line hl .atNewline]
  unfold commentOf
  rw [hline]

/-- **Comments, line by line.** The comments in front of a line end stay as they are, and those behind it are
    moved down. -/
theorem comments_behind_line (hz : Zone.after front ≠ .raw) (back : Text) :
    (scan (front ++ '\n' :: back)).comments =
      (scan front).comments ++ (scan back).comments.map (·.below (1 + front.count '\n')) := by
  have hfront : gather (fun before c rest => commentOf before c (rest ++ '\n' :: back)) front front.length =
      gather commentOf front front.length := by
    apply gather_congr
    intro before c rest _
    exact commentOf_before_line back
  have hback : gather (fun before => commentOf (front ++ '\n' :: before)) back back.length =
      (gather commentOf back back.length).map (·.below (1 + front.count '\n')) := by
    rw [← gather_map]
    apply gather_congr
    intro before c rest _
    exact commentOf_behind_line hz
  -- The line end itself starts no comment.
  have hline : commentOf (front ++ []) '\n' back = none := rfl
  rw [scan_comments_eq_gather, scan_comments_eq_gather, scan_comments_eq_gather, gather_split, hfront,
    gather_cons, hline, hback]
  rfl

/-- A text that ends in a raw literal is reported for it. -/
theorem zone_ne_raw (h : ∀ d ∈ (scan front).diagnostics, d.message ≠ LexicalFault.unterminatedRaw.message) :
    Zone.after front ≠ .raw := by
  intro hz
  obtain ⟨before, body, rfl, hbefore, hbody⟩ := exists_raw_opening hz
  have hopen : closes .raw body = false := by
    rw [← Bool.not_eq_true, closes_raw_iff]
    exact hbody
  exact h _ (mem_diagnostics_iff.2 ⟨before, _, body, _, rfl, .raw hbefore rfl hopen, rfl⟩) rfl

/-! ## Runs -/

/-- The mode with the place of its literal further down. -/
def Mode.below (lines : Nat) : Mode → Mode
  | .code => .code
  | .string p => .string (p.below lines)
  | .raw p => .raw (p.below lines)

/-- The cursor behind a text in front of the source. -/
def Cursor.below (front : Text) (c : Cursor) : Cursor :=
  ⟨front.length + c.offset, c.position.below (front.count '\n'), c.rest⟩

/-- The state behind a text in front of the source, in which comments have been found. -/
def Scanner.below (front : Text) (found : List Comment) (s : Scanner) : Scanner where
  cursor := s.cursor.below front
  mode := s.mode.below (front.count '\n')
  comments := found ++ s.comments.map (·.below (front.count '\n'))
  errors := s.errors.map (·.below (front.count '\n'))
  brackets := s.brackets.map fun opening => (opening.1, opening.2.below (front.count '\n'))

theorem Cursor.advance_below (front : Text) (c : Cursor) :
    (c.below front).advance = c.advance.below front := by
  obtain ⟨offset, position, rest⟩ := c
  cases rest with
  | nil => rfl
  | cons x r =>
      unfold Cursor.below Cursor.advance Position.below
      by_cases hx : x = '\n'
      · simp only [hx, if_true, Cursor.mk.injEq, Position.mk.injEq, and_true]
        omega
      · simp only [hx, if_false, Cursor.mk.injEq, and_true]
        omega

theorem Cursor.skip_below (front : Text) (c : Cursor) (n : Nat) :
    (c.below front).skip n = (c.skip n).below front := by
  simp [Cursor.below, Cursor.skip, Position.below, Nat.add_assoc]

namespace Scanner

variable {found : List Comment} {s t : Scanner}

theorem advance_below : (s.below front found).advance = s.advance.below front found := by
  unfold advance
  rw [show (s.below front found).cursor = s.cursor.below front from rfl, Cursor.advance_below]
  rfl

theorem report_below (p : Position) (f : LexicalFault) :
    (s.below front found).report (p.below (front.count '\n')) f = (s.report p f).below front found := by
  unfold report Scanner.below
  rw [List.map_append]
  rfl

theorem Step.of_eq (h : Step s t) {u : Scanner} (ht : t = u) : Step s u := ht ▸ h

/-- **A step further down.** The scanner looks at its mode, at what is ahead and at the kinds of the open
    brackets, and of all that nothing is moved. -/
theorem Step.below (h : Step s t) : Step (s.below front found) (t.below front found) := by
  have hcode : s.mode = .code → (s.below front found).mode = .code := congrArg (Mode.below _)
  have hstring : ∀ {p}, s.mode = .string p →
      (s.below front found).mode = .string (p.below (front.count '\n')) := congrArg (Mode.below _)
  have hraw : ∀ {p}, s.mode = .raw p →
      (s.below front found).mode = .raw (p.below (front.count '\n')) := congrArg (Mode.below _)
  cases h with
  | @comment line r hm hr hl he =>
      refine (Step.comment (hcode hm) hr hl he).of_eq ?_
      show Scanner.mk ((s.cursor.below front).skip (line.length + 1)) _
        (found ++ s.comments.map _ ++ [Comment.mk _ (s.cursor.position.below _).line
          (s.cursor.position.below _).column]) _ _ = _
      rw [Cursor.skip_below, Comment.mk_below, List.append_assoc, ← List.map_singleton, ← List.map_append]
      rfl
  | stringStart hm hr =>
      refine (Step.stringStart (hcode hm) hr).of_eq ?_
      rw [advance_below]
      rfl
  | rawStart hm hr =>
      refine (Step.rawStart (hcode hm) hr).of_eq ?_
      rw [advance_below]
      rfl
  | opening hm hr =>
      refine (Step.opening (hcode hm) hr).of_eq ?_
      rw [advance_below]
      rfl
  | closing hm hr hb =>
      refine (Step.closing (hcode hm) hr (congrArg (List.map _) hb)).of_eq ?_
      rw [advance_below]
      rfl
  | unexpected hm hr hb =>
      refine (Step.unexpected (hcode hm) hr ?_).of_eq ?_
      · intro p outer hp
        obtain ⟨opening, outer', hs, hopening, _⟩ := List.map_eq_cons_iff.1 hp
        obtain ⟨rfl, _⟩ := Prod.mk.inj hopening
        exact hb opening.2 outer' hs
      · show ((s.below front found).report (s.cursor.position.below _) _).advance = _
        rw [report_below, advance_below]
  | illegal hm hr hc =>
      refine (Step.illegal (hcode hm) hr hc).of_eq ?_
      show ((s.below front found).report (s.cursor.position.below _) _).advance = _
      rw [report_below, advance_below]
  | plain hm hr hc =>
      refine (Step.plain (hcode hm) hr hc).of_eq ?_
      rw [advance_below]
  | stringCut hm hr =>
      refine (Step.stringCut (hstring hm) hr).of_eq ?_
      rw [report_below]
      rfl
  | escape hm hr hc =>
      refine (Step.escape (hstring hm) hr hc).of_eq ?_
      rw [advance_below, advance_below]
  | stringEnd hm hr =>
      refine (Step.stringEnd (hstring hm) hr).of_eq ?_
      rw [advance_below]
      rfl
  | stringBody hm hr hq hn hb =>
      refine (Step.stringBody (hstring hm) hr hq hn hb).of_eq ?_
      rw [advance_below]
  | rawCut hm hr =>
      refine (Step.rawCut (hraw hm) hr).of_eq ?_
      rw [report_below]
      rfl
  | rawEnd hm hr =>
      refine (Step.rawEnd (hraw hm) hr).of_eq ?_
      rw [advance_below]
      rfl
  | rawBody hm hr hc =>
      refine (Step.rawBody (hraw hm) hr hc).of_eq ?_
      rw [advance_below]

theorem Reaches.below (h : Reaches s t) : Reaches (s.below front found) (t.below front found) := by
  induction h with
  | refl => exact .refl _
  | tail _ hst ih => exact ih.trans hst.below.reaches

/-- The errors that a state ends with, further down. -/
theorem allErrors_below :
    (s.below front found).allErrors = s.allErrors.map (·.below (front.count '\n')) := by
  have hunclosed : ((s.brackets.map fun o => (o.1, o.2.below (front.count '\n'))).reverse.map
      fun o => LexicalError.mk o.2 (.unclosed o.1)) =
      (s.brackets.reverse.map fun o => LexicalError.mk o.2 (.unclosed o.1)).map
        (·.below (front.count '\n')) := by
    rw [← List.map_reverse, List.map_map, List.map_map]
    rfl
  show List.mergeSort (s.errors.map _ ++ (s.brackets.map _).reverse.map
      fun o : Bracket × Position => LexicalError.mk o.2 (.unclosed o.1)) _ =
    (List.mergeSort (s.errors ++ s.brackets.reverse.map
      fun o => LexicalError.mk o.2 (.unclosed o.1)) _).map _
  rw [hunclosed, ← List.map_append]
  -- Moving down keeps the order of the places, so it may be done behind the sorting.
  refine (List.map_mergeSort ?_).symm
  intro e _ f _
  exact (Position.le_below _ _ _).symm

end Scanner

/-! ## Errors -/

/-- With the end of its line, a well-lexed source is a sequence of items. -/
theorem WellLexed.items_line (h : WellLexed front) : Items (front ++ ['\n']) := by
  cases h with
  | items h => exact h.append (.plain (by decide) .nil)
  | @lastComment t body h hb =>
      rw [List.append_assoc]
      exact h.append (by simpa using Items.comment hb .nil)

theorem count_line (front : Text) : (front ++ ['\n']).count '\n' = 1 + front.count '\n' := by
  rw [List.count_append, Nat.add_comm]
  rfl

/-- A scan that starts behind a line end. -/
theorem start_below (front back : Text) (found : List Comment) :
    (start back).below (front ++ ['\n']) found =
      { cursor := .between (front ++ ['\n']) back, comments := found } := by
  have hplace : Position.after (front ++ ['\n']) = ({} : Position).below ((front ++ ['\n']).count '\n') := by
    rw [count_line]
    exact Position.after_behind_line front []
  show Scanner.mk ⟨_, ({} : Position).below _, back⟩ .code (found ++ []) [] [] = _
  rw [← hplace, List.append_nil]
  rfl

/-- Behind a well-lexed source and a line end, the scan ends as that of the rest does, further down. -/
theorem finalState_behind_line (h : WellLexed front) (back : Text) :
    ∃ found, finalState (front ++ ['\n'] ++ back) = (finalState back).below (front ++ ['\n']) found := by
  obtain ⟨texts, hpass⟩ := h.items_line.passes
  obtain ⟨found, _, hreach⟩ := hpass (start (front ++ ['\n'] ++ back)) [] back rfl rfl
  refine ⟨found, ?_⟩
  -- At the line end nothing has been reported and no bracket is open: there the scan of the rest starts.
  have hfront : Reaches (start (front ++ ['\n'] ++ back)) ((start back).below (front ++ ['\n']) found) := by
    rw [start_below]
    exact hreach
  have hback : Reaches ((start back).below (front ++ ['\n']) found)
      ((finalState back).below (front ++ ['\n']) found) := (reaches_finalState back).below
  obtain ⟨hmode, hrest⟩ := Scanner.step_eq_none_iff.1 (step_finalState back)
  exact (eq_finalState (hfront.trans hback) (congrArg (Mode.below _) hmode) hrest).symm

/-- **Errors, line by line.** Behind a well-lexed source and a line end, the errors are those of what follows,
    moved down. -/
theorem errors_behind_line (h : WellLexed front) (back : Text) :
    (scan (front ++ '\n' :: back)).errors = (scan back).errors.map (·.below (1 + front.count '\n')) := by
  obtain ⟨found, hfinal⟩ := finalState_behind_line h back
  show (finalState (front ++ ('\n' :: back))).allErrors = (finalState back).allErrors.map _
  rw [List.append_cons, hfinal, Scanner.allErrors_below, count_line]

/-- **Scanning is compositional over lines.** If no raw literal is open at the line end, the comments are those
    in front of it and those of what follows, moved down by the lines. If nothing is reported of what stands in
    front of it, the diagnostics are those of what follows, moved down in the same way. -/
theorem scan_behind_line (front back : Text) :
    ((∀ d ∈ (scan front).diagnostics, d.message ≠ LexicalFault.unterminatedRaw.message) →
        (scan (front ++ '\n' :: back)).comments =
          (scan front).comments ++ (scan back).comments.map (·.below (1 + front.count '\n'))) ∧
      ((scan front).diagnostics = [] →
        (scan (front ++ '\n' :: back)).diagnostics =
          (scan back).diagnostics.map (·.below (1 + front.count '\n'))) := by
  constructor
  · intro h
    exact comments_behind_line (zone_ne_raw h) back
  · intro h
    obtain ⟨herrors, hbrackets⟩ := diagnostics_eq_nil_iff_finalState.1 h
    unfold Scan.diagnostics
    rw [errors_behind_line (wellLexed_of_finalState herrors hbrackets) back, List.map_map, List.map_map]
    exact List.map_congr_left fun e _ => LexicalError.diagnostic_below _ e

/-- In front of the line end stand a comment that ends in CR and a string that a backslash ends; then a group,
    in front of brackets that do not match. -/
theorem scan_behind_line_cut :
    (∀ d ∈ (scan ['#', 'a', '\r', '\n', '"', '\\']).diagnostics,
        d.message ≠ LexicalFault.unterminatedRaw.message) ∧
      (scan ['#', 'a', '\r', '\n', '"', '\\', '\n', '#', 'b']).comments = [⟨['a'], 1, 1⟩, ⟨['b'], 3, 1⟩] ∧
      (scan ['(', '\n', ')']).diagnostics = [] ∧
      (scan ['(', '\n', ')', '\n', '[', ')']).diagnostics =
        [⟨3, 1, "unclosed [".toList⟩, ⟨3, 2, "unexpected ) token".toList⟩] := by
  have hcut : ∀ d ∈ (scan ['#', 'a', '\r', '\n', '"', '\\']).diagnostics,
      d.message ≠ LexicalFault.unterminatedRaw.message := by
    rw [scan_diagnostics_eq]
    decide
  have hclosed : (scan ['(', '\n', ')']).diagnostics = [] := by
    rw [scan_diagnostics_eq]
    decide
  have hcomments := (scan_behind_line _ ['#', 'b']).1 hcut
  have hdiagnostics := (scan_behind_line _ ['[', ')']).2 hclosed
  refine ⟨hcut, hcomments.trans ?_, hclosed, hdiagnostics.trans ?_⟩
  · decide
  · rw [scan_diagnostics_eq]
    decide

end PolicyTable.Rego
