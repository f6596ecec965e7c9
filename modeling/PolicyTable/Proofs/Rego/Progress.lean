import PolicyTable.Proofs.Rego.Steps

/-!
# `PolicyTable.Proofs.Rego.Progress` — the cursor of a scan

Offset, line and column are counted while the cursor moves, in one way over single characters and in
another over whole comments. They agree with the source at every point of a scan, also between the two
characters of an escape. No character is taken where none is left, and no loop goes round without moving on.

## Contents
- **Noted steps.** `stepBy` is the step with a way of its own to take a character, and `noted` the step
  that notes where it takes one.
- **Places.** `Cursor.InPlace`: a cursor says where it stands in a source.
- **Moves.** `Move` has the four things that a step can do to the cursor; `Step.move` says that it does one
  of them, and all that follows goes through it.
- **Loops.** `LeavesLiteral`, the turns of the loop in a literal, and `CodeTurn`, one turn of the loop over
  code.

Main statement: `scan_steady`, every point of a scan is `Steady`, and the end of it is the end of the source.
-/

namespace PolicyTable.Rego

/-! ## Noted steps -/

namespace Scanner

section StepBy

variable {m : Type → Type} [Monad m] (take : Scanner → m Scanner)

/-- The step in code that goes over a single character by `take`. -/
def codeStepBy (s : Scanner) (c : Char) : m Scanner :=
  if c = '#' then pure s.takeComment
  else if c = '"' then do return { ← take s with mode := .string s.cursor.position }
  else if c = '\x60' then do return { ← take s with mode := .raw s.cursor.position }
  else
    match Bracket.ofOpening? c, Bracket.ofClosing? c with
    | some b, _ => take { s with brackets := (b, s.cursor.position) :: s.brackets }
    | none, some b => take (s.closeBracket b)
    | none, none =>
      if illegalCharacters.contains c then take (s.report s.cursor.position (.illegal c))
      else take s

/-- The step in a string literal that goes over a single character by `take`. -/
def stringStepBy (s : Scanner) (start : Position) : m Scanner :=
  match s.cursor.rest with
  | [] | '\n' :: _ | '\\' :: '\n' :: _ =>
    pure { s.report start .unterminatedString with mode := .code }
  | '\\' :: _ :: _ => do take (← take s)
  | '"' :: _ => do return { ← take s with mode := .code }
  | _ :: _ => take s

/-- The step in a raw literal that goes over a single character by `take`. -/
def rawStepBy (s : Scanner) (start : Position) : m Scanner :=
  match s.cursor.rest with
  | [] => pure { s.report start .unterminatedRaw with mode := .code }
  | c :: _ => if c = '\x60' then do return { ← take s with mode := .code } else take s

/-- The step of the scan that goes over a single character by `take`. -/
def stepBy (s : Scanner) : m (Option Scanner) :=
  match s.mode, s.cursor.rest with
  | .code, [] => pure none
  | .code, c :: _ => do return some (← s.codeStepBy take c)
  | .string start, _ => do return some (← s.stringStepBy take start)
  | .raw start, _ => do return some (← s.rawStepBy take start)

end StepBy

/-- Go over the next character, and note where it is taken. -/
def noteAdvance (s : Scanner) : StateM (List Cursor) Scanner := do
  modify (· ++ [s.cursor])
  return s.advance

/-- The step of a state, and the cursors at which it takes a character, in the order in which it does. -/
def noted (s : Scanner) : Option Scanner × List Cursor := (s.stepBy noteAdvance).run []

variable {s : Scanner} {c : Char} {r : Text} {p : Position}

theorem noted_atEnd (hm : s.mode = .code) (hr : s.cursor.rest = []) : s.noted = (none, []) := by
  unfold noted stepBy
  simp only [hm, hr]
  rfl

/-- In code, every character but the number sign of a comment is taken by itself. -/
theorem noted_code (hm : s.mode = .code) (hr : s.cursor.rest = c :: r) :
    s.noted = (some (s.codeStep c), if c = '#' then [] else [s.cursor]) := by
  unfold noted stepBy
  simp only [hm, hr]
  unfold codeStepBy codeStep
  split
  · rfl
  split
  · rfl
  split
  · rfl
  cases Bracket.ofOpening? c with
  | some b => rfl
  | none =>
      cases Bracket.ofClosing? c with
      | some b =>
          show (some (s.closeBracket b).advance, [(s.closeBracket b).cursor]) = _
          rw [cursor_closeBracket]
      | none =>
          by_cases hi : illegalCharacters.contains c = true
          · simp only [if_pos hi]
            rfl
          · simp only [if_neg hi]
            rfl

/-- In a string literal, an escape takes two characters one after the other. -/
theorem noted_string (hm : s.mode = .string p) :
    s.noted = (some (s.stringStep p),
      match s.cursor.rest with
      | [] | '\n' :: _ | '\\' :: '\n' :: _ => []
      | '\\' :: _ :: _ => [s.cursor, s.cursor.advance]
      | _ :: _ => [s.cursor]) := by
  unfold noted stepBy
  simp only [hm]
  unfold stringStepBy stringStep
  -- The noted step, the step and the notes look at the same text, so its shape decides all of them.
  split
  all_goals
    rename_i hr
    simp only [hr]
    rfl

/-- In a raw literal, every character is taken by itself. -/
theorem noted_raw (hm : s.mode = .raw p) :
    s.noted = (some (s.rawStep p), if s.cursor.rest = [] then [] else [s.cursor]) := by
  unfold noted stepBy
  simp only [hm]
  unfold rawStepBy rawStep
  cases s.cursor.rest with
  | nil => rfl
  | cons c r =>
      dsimp only
      split <;> rfl

/-- **Noting changes nothing**: without its notes, a noted step is the step. -/
theorem noted_fst (s : Scanner) : s.noted.1 = s.step := by
  unfold step
  split
  · rename_i hm hr
    rw [noted_atEnd hm hr]
  · rename_i hm hr
    rw [noted_code hm hr]
  · rename_i hm
    rw [noted_string hm]
  · rename_i hm
    rw [noted_raw hm]

/-- The escape of a string literal is two characters long. -/
example :
    (noted { cursor := { rest := ['\\', 'n', '"'] }, mode := .string {} }).2.map (·.offset) = [0, 1] := by
  decide

end Scanner

/-! ## Places -/

/-- **A cursor says where it stands in a source**: its line counts the line ends before its offset, and its
    column the characters behind the last one of them. -/
structure Cursor.InPlace (source : Text) (c : Cursor) : Prop where
  offset_le : c.offset ≤ source.length
  line_eq : c.position.line = 1 + (source.take c.offset).count '\n'
  column_eq : c.position.column = 1 + ((source.take c.offset).reverse.takeWhile (· ≠ '\n')).length
  rest_eq : c.rest = source.drop c.offset

namespace Cursor

variable {source line r : Text} {c : Cursor} {x : Char}

theorem inPlace_iff :
    c.InPlace source ↔ ∃ before, source = before ++ c.rest ∧ c = .between before c.rest := by
  constructor
  · intro h
    refine ⟨source.take c.offset, ?_, ?_⟩
    · rw [h.rest_eq, List.take_append_drop]
    · have hlength : (source.take c.offset).length = c.offset := List.length_take_of_le h.offset_le
      have hposition : Position.after (source.take c.offset) = c.position := by
        rw [Position.after, ← h.line_eq, ← h.column_eq]
      rw [between, hlength, hposition]
  · rintro ⟨before, hsource, hc⟩
    generalize c.rest = rest at hsource hc
    subst hsource hc
    constructor <;> simp [Position.after]

/-- Something is left exactly before the end of the source. -/
theorem InPlace.offset_lt_iff (h : c.InPlace source) : c.offset < source.length ↔ c.rest ≠ [] := by
  rw [h.rest_eq, ne_eq, List.drop_eq_nil_iff, Nat.not_le]

/-- One character on, a cursor still says where it stands. -/
theorem InPlace.advance (h : c.InPlace source) (hr : c.rest = x :: r) : c.advance.InPlace source := by
  obtain ⟨before, hsource, hc⟩ := inPlace_iff.1 h
  have hadvance : c.advance = .between (before ++ [x]) r := by
    rw [hc, hr, advance_between]
  refine inPlace_iff.2 ⟨before ++ [x], ?_, ?_⟩
  · rw [hadvance, rest_between, hsource, hr, List.append_cons]
  · rw [hadvance, rest_between]

/-- A whole comment on, it does so too, since no line ends in between. -/
theorem InPlace.skip (h : c.InPlace source) (hr : c.rest = line ++ r) (hl : '\n' ∉ line) :
    (c.skip line.length).InPlace source := by
  obtain ⟨before, hsource, hc⟩ := inPlace_iff.1 h
  have hskip : c.skip line.length = .between (before ++ line) r := by
    rw [hc, hr, skip_between hl]
  refine inPlace_iff.2 ⟨before ++ line, ?_, ?_⟩
  · rw [hskip, rest_between, hsource, hr, List.append_assoc]
  · rw [hskip, rest_between]

theorem offset_advance (hr : c.rest = x :: r) : c.advance.offset = c.offset + 1 := by
  rw [Cursor.advance, hr]

end Cursor

/-! ## Moves -/

namespace Scanner

variable {source : Text} {s t u : Scanner}

/-- **What a step does to the cursor**, and where it takes a character for that: it skips a comment, takes a
    character or the two of an escape, or stays in front of what cuts a literal off. -/
inductive Move (s t : Scanner) : Prop
  | comment {line r : Text} (hm : s.mode = .code) (hr : s.cursor.rest = '#' :: (line ++ r))
      (hl : '\n' ∉ line) (hcur : t.cursor = s.cursor.skip (line.length + 1))
      (hnoted : s.noted.2 = [])
  | single {c : Char} {r : Text} (hr : s.cursor.rest = c :: r) (hcur : t.cursor = s.cursor.advance)
      (hnoted : s.noted.2 = [s.cursor])
  | escape {c d : Char} {r : Text} (hr : s.cursor.rest = c :: d :: r)
      (hcur : t.cursor = s.cursor.advance.advance) (hnoted : s.noted.2 = [s.cursor, s.cursor.advance])
  | cut (hm : s.mode ≠ .code) (ht : t.mode = .code) (hcur : t.cursor = s.cursor)
      (hnoted : s.noted.2 = [])

theorem Move.of_code {c : Char} {r : Text} (hm : s.mode = .code) (hr : s.cursor.rest = c :: r)
    (hc : c ≠ '#') (hcur : t.cursor = s.cursor.advance) : Move s t :=
  .single hr hcur (by rw [noted_code hm hr, if_neg hc])

theorem Move.of_raw {p : Position} {c : Char} {r : Text} (hm : s.mode = .raw p)
    (hr : s.cursor.rest = c :: r) (hcur : t.cursor = s.cursor.advance) : Move s t :=
  .single hr hcur (by simp [noted_raw hm, hr])

theorem Step.move (h : Step s t) : Move s t := by
  cases h with
  | comment hm hr hl _ => exact .comment hm hr hl rfl (by rw [noted_code hm hr, if_pos rfl])
  | stringStart hm hr => exact .of_code hm hr (by decide) rfl
  | rawStart hm hr => exact .of_code hm hr (by decide) rfl
  | @opening b _ hm hr => exact .of_code hm hr (Bracket.opening_ne b).1 rfl
  | @closing b _ _ _ hm hr => exact .of_code hm hr (Bracket.closing_ne b).1 rfl
  | @unexpected b _ hm hr => exact .of_code hm hr (Bracket.closing_ne b).1 rfl
  | illegal hm hr hc => exact .of_code hm hr (illegal_ne hc).1 rfl
  | plain hm hr hc => exact .of_code hm hr (ne_of_not_mem_reserved hc).1 rfl
  | stringCut hm hr =>
      refine .cut (by simp [hm]) rfl rfl ?_
      rw [noted_string hm]
      generalize s.cursor.rest = rest at hr ⊢
      cases hr <;> rfl
  | escape hm hr hc => exact .escape hr rfl (by simp [noted_string hm, hr])
  | stringEnd hm hr => exact .single hr rfl (by simp [noted_string hm, hr])
  | stringBody hm hr hq hn hb =>
      refine .single hr rfl ?_
      rw [noted_string hm, hr]
      dsimp only
      -- A backslash would need a character behind it, and there is none.
      split <;> simp_all
  | rawCut hm hr => exact .cut (by simp [hm]) rfl rfl (by rw [noted_raw hm, if_pos hr])
  | rawEnd hm hr => exact .of_raw hm hr rfl
  | rawBody hm hr _ => exact .of_raw hm hr rfl

/-- A step in a literal stays in it or goes back into code. -/
theorem Step.mode_literal (h : Step s t) (hm : s.mode ≠ .code) : t.mode = .code ∨ t.mode = s.mode := by
  cases h with
  | stringCut | stringEnd | rawCut | rawEnd => exact .inl rfl
  | escape | stringBody | rawBody => exact .inr rfl
  | _ => contradiction

theorem Move.inPlace (h : Move s t) (hs : s.cursor.InPlace source) : t.cursor.InPlace source := by
  cases h with
  | @comment line r _ hr hl hcur =>
      have hskip : (s.cursor.skip ('#' :: line).length).InPlace source := hs.skip hr (by simpa using hl)
      rw [hcur]
      exact hskip
  | single hr hcur =>
      rw [hcur]
      exact hs.advance hr
  | escape hr hcur =>
      rw [hcur]
      exact (hs.advance hr).advance (rest_advance hr)
  | cut _ _ hcur =>
      rw [hcur]
      exact hs

/-- A character is taken only where one is left, and where the cursor says where it stands. -/
theorem Move.of_mem_noted (h : Move s t) (hs : s.cursor.InPlace source) :
    ∀ c ∈ s.noted.2, c.offset < source.length ∧ c.InPlace source := by
  cases h with
  | comment _ _ _ _ hnoted => simp [hnoted]
  | single hr _ hnoted =>
      have hlt : s.cursor.offset < source.length := hs.offset_lt_iff.2 (by simp [hr])
      simpa [hnoted] using ⟨hlt, hs⟩
  | escape hr _ hnoted =>
      have hlt : s.cursor.offset < source.length := hs.offset_lt_iff.2 (by simp [hr])
      -- Behind the backslash there is the character that it escapes.
      have hs' := hs.advance hr
      have hlt' : s.cursor.advance.offset < source.length :=
        hs'.offset_lt_iff.2 (by simp [rest_advance hr])
      simpa [hnoted] using ⟨⟨hlt, hs⟩, hlt', hs'⟩
  | cut _ _ _ hnoted => simp [hnoted]

/-- Outside comments, a step takes every character that it goes over. -/
theorem Move.offsets (h : Move s t) :
    s.mode = .code ∧ s.cursor.rest.head? = some '#' ∨
      s.noted.2.map (·.offset) =
        List.range' s.cursor.offset (t.cursor.offset - s.cursor.offset) := by
  cases h with
  | comment hm hr => exact .inl ⟨hm, by simp [hr]⟩
  | single hr hcur hnoted => simp [hcur, hnoted, Cursor.offset_advance hr]
  | escape hr hcur hnoted =>
      right
      have htwo : t.cursor.offset - s.cursor.offset = 2 := by
        rw [hcur, Cursor.offset_advance (rest_advance hr), Cursor.offset_advance hr]
        omega
      rw [hnoted, htwo, List.map_cons, List.map_singleton, Cursor.offset_advance hr]
      rfl
  | cut _ _ hcur hnoted => simp [hcur, hnoted]

/-- A step moves the cursor on, or leaves a literal where it is cut off. -/
theorem Move.offset_lt_or_cut (h : Move s t) :
    s.cursor.offset < t.cursor.offset ∨ s.mode ≠ .code ∧ t.mode = .code ∧ t.cursor = s.cursor := by
  cases h with
  | comment _ _ _ hcur => simp [hcur, Cursor.skip]
  | single hr hcur => simp [hcur, Cursor.offset_advance hr]
  | escape hr hcur =>
      left
      rw [hcur, Cursor.offset_advance (rest_advance hr), Cursor.offset_advance hr]
      omega
  | cut hm ht hcur => exact .inr ⟨hm, ht, hcur⟩

/-- **At every point of a scan the cursor says where it stands.** -/
theorem Reaches.inPlace (h : Reaches (start source) s) : s.cursor.InPlace source := by
  have hstart : (start source).cursor.InPlace source := by
    constructor <;> simp [start]
  exact h.invariant (fun hst => hst.move.inPlace) hstart

/-! ## Loops -/

/-- The turns of the loop in a literal, up to the code behind it. -/
inductive LeavesLiteral : Scanner → Scanner → Prop
  | behind {s : Scanner} (hm : s.mode = .code) : LeavesLiteral s s
  | turn {s t u : Scanner} (hm : s.mode ≠ .code) (hst : Step s t) (h : LeavesLiteral t u) :
      LeavesLiteral s u

/-- **One turn of the loop over code**: a step in code and, if that opens a literal, the whole loop in
    there. -/
def CodeTurn (s u : Scanner) : Prop :=
  s.mode = .code ∧ ∃ t, Step s t ∧ LeavesLiteral t u

/-- The loop in a literal never moves the cursor back. -/
theorem LeavesLiteral.offset_le (h : LeavesLiteral s u) : s.cursor.offset ≤ u.cursor.offset := by
  induction h with
  | behind => exact Nat.le_refl _
  | turn _ hst _ ih =>
      rcases hst.move.offset_lt_or_cut with hlt | ⟨_, _, hcur⟩
      · exact Nat.le_trans (Nat.le_of_lt hlt) ih
      · rwa [hcur] at ih

/-- The loop in a literal ends, since every step brings the end of the scan nearer. -/
theorem exists_leavesLiteral (s : Scanner) : ∃ u, LeavesLiteral s u := by
  induction hn : s.measure using Nat.strongRecOn generalizing s with
  | ind n ih =>
      by_cases hm : s.mode = .code
      · exact ⟨s, .behind hm⟩
      · cases hstep : s.step with
        | none => exact absurd (step_eq_none_iff.1 hstep).1 hm
        | some t =>
            obtain ⟨u, hu⟩ := ih t.measure (hn ▸ step_measure hstep) t rfl
            exact ⟨u, .turn hm (step_of_eq_some hstep) hu⟩

theorem CodeTurn.offset_lt (h : CodeTurn s u) : s.cursor.offset < u.cursor.offset := by
  obtain ⟨hm, t, hst, hu⟩ := h
  rcases hst.move.offset_lt_or_cut with hlt | ⟨hm', _⟩
  · exact Nat.lt_of_lt_of_le hlt hu.offset_le
  · exact absurd hm hm'

theorem exists_codeTurn (hm : s.mode = .code) (hr : s.cursor.rest ≠ []) : ∃ u, CodeTurn s u := by
  cases hstep : s.step with
  | none => exact absurd (step_eq_none_iff.1 hstep).2 hr
  | some t =>
      obtain ⟨u, hu⟩ := exists_leavesLiteral t
      exact ⟨u, hm, t, step_of_eq_some hstep, hu⟩

/-- **A point of a scan.** The cursor says where it stands. The step from here takes characters only where one
    is left, and all that it goes over outside comments. In a literal, a turn of the loop moves on or leaves
    the loop; in code, a turn comes to an end further on. -/
structure Steady (source : Text) (s : Scanner) : Prop where
  inPlace : s.cursor.InPlace source
  noted_step : s.noted.1 = s.step
  noted_inside : ∀ c ∈ s.noted.2, c.offset < source.length ∧ c.InPlace source
  noted_covers : ∀ t, s.step = some t →
    s.mode = .code ∧ s.cursor.rest.head? = some '#' ∨
      s.noted.2.map (·.offset) =
        List.range' s.cursor.offset (t.cursor.offset - s.cursor.offset)
  literal_turn : s.mode ≠ .code →
    ∃ t, s.step = some t ∧
      (t.mode = .code ∨ t.mode = s.mode ∧ s.cursor.offset < t.cursor.offset)
  code_turn : ∀ u, CodeTurn s u → s.cursor.offset < u.cursor.offset
  code_turn_ends : s.mode = .code → s.cursor.offset < source.length → ∃ u, CodeTurn s u

/-- All of it follows from the place of the cursor. -/
theorem Steady.of_inPlace (hs : s.cursor.InPlace source) : Steady source s where
  inPlace := hs
  noted_step := noted_fst s
  noted_inside := by
    cases hstep : s.step with
    | none =>
        obtain ⟨hm, hr⟩ := step_eq_none_iff.1 hstep
        simp [noted_atEnd hm hr]
    | some t => exact (step_of_eq_some hstep).move.of_mem_noted hs
  noted_covers := fun _ ht => (step_of_eq_some ht).move.offsets
  literal_turn := by
    intro hm
    cases hstep : s.step with
    | none => exact absurd (step_eq_none_iff.1 hstep).1 hm
    | some t =>
        have hst := step_of_eq_some hstep
        refine ⟨t, rfl, ?_⟩
        rcases hst.move.offset_lt_or_cut with hlt | ⟨_, ht, _⟩
        · exact (hst.mode_literal hm).imp_right fun hmode => ⟨hmode, hlt⟩
        · exact .inl ht
  code_turn := fun _ hu => hu.offset_lt
  code_turn_ends := fun hm hlt => exists_codeTurn hm (hs.offset_lt_iff.1 hlt)

end Scanner

open Scanner

/-- **Every point of a scan is steady, and a scan ends at the end of the source.** -/
theorem scan_steady (source : Text) :
    (∀ n, Steady source ((start source).run n)) ∧
      (finalState source).step = none ∧ (finalState source).cursor.offset = source.length := by
  refine ⟨fun n => ?_, step_finalState source, ?_⟩
  · exact .of_inPlace (reaches_run _ n).inPlace
  · have hplace := (reaches_finalState source).inPlace
    obtain ⟨_, hr⟩ := step_eq_none_iff.1 (step_finalState source)
    have hend : ¬ (finalState source).cursor.offset < source.length := by
      rw [hplace.offset_lt_iff, hr]
      exact fun h => h rfl
    exact Nat.le_antisymm hplace.offset_le (Nat.le_of_not_lt hend)

end PolicyTable.Rego
