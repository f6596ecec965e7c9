import Mathlib.Logic.Relation
import PolicyTable.Rego.Scanner

/-!
# `PolicyTable.Proofs.Rego.Steps` — what a step of the scanner can do

The step function of the scanner is read here as a relation with one constructor for each thing that a
step can meet. Every later statement about scans goes through this relation; none of them opens the step
function again.

## Contents
- **Places.** `Position.after` and `Cursor.between` compute a place from the text before it.
- **Steps.** `Step`, with `step_eq_some_iff`: it is the graph of the step function.
- **Runs.** `Reaches` is the closure of `Step`; `reaches_finalState` and `eq_finalState` tie it to a scan.
-/

namespace PolicyTable.Rego

/-! ## Places -/

/-- The place behind a text. -/
def Position.after (before : Text) : Position :=
  ⟨1 + before.count '\n', 1 + (before.reverse.takeWhile (· ≠ '\n')).length⟩

/-- The cursor between the two parts of a source. -/
def Cursor.between (before rest : Text) : Cursor := ⟨before.length, .after before, rest⟩

@[simp] theorem Cursor.offset_between (before rest : Text) :
    (Cursor.between before rest).offset = before.length := rfl

@[simp] theorem Cursor.position_between (before rest : Text) :
    (Cursor.between before rest).position = .after before := rfl

@[simp] theorem Cursor.rest_between (before rest : Text) :
    (Cursor.between before rest).rest = rest := rfl

/-- A line end starts a new line; any other character takes one column. -/
theorem Position.after_concat (before : Text) (c : Char) :
    Position.after (before ++ [c]) =
      if c = '\n' then ⟨(Position.after before).line + 1, 1⟩
      else ⟨(Position.after before).line, (Position.after before).column + 1⟩ := by
  unfold Position.after
  by_cases h : c = '\n'
  · simp [h, Nat.add_assoc]
  · simp [h, Nat.add_comm]

/-- Characters that end no line take one column each. -/
theorem Position.after_append {before line : Text} (h : '\n' ∉ line) :
    Position.after (before ++ line) =
      ⟨(Position.after before).line, (Position.after before).column + line.length⟩ := by
  induction line generalizing before with
  | nil => simp
  | cons c r ih =>
      have hc : c ≠ '\n' := fun hc => h (hc ▸ List.mem_cons_self ..)
      have hr : '\n' ∉ r := fun hr => h (List.mem_cons_of_mem _ hr)
      rw [List.append_cons, ih hr, Position.after_concat, if_neg hc]
      simp only [List.length_cons, Position.mk.injEq, true_and]
      omega

@[simp] theorem Cursor.advance_between (before : Text) (c : Char) (r : Text) :
    (Cursor.between before (c :: r)).advance = .between (before ++ [c]) r := by
  simp [Cursor.between, Cursor.advance, Position.after_concat]

theorem Cursor.skip_between {before line r : Text} (h : '\n' ∉ line) :
    (Cursor.between before (line ++ r)).skip line.length = .between (before ++ line) r := by
  simp [Cursor.between, Cursor.skip, Position.after_append h]

/-- The rest of a line has been read. -/
inductive AtLineEnd : Text → Prop
  | atEnd : AtLineEnd []
  | atNewline {r : Text} : AtLineEnd ('\n' :: r)

/-- A text is one line and what follows it. -/
theorem exists_line (t : Text) : ∃ line r, t = line ++ r ∧ '\n' ∉ line ∧ AtLineEnd r := by
  induction t with
  | nil => exact ⟨[], [], rfl, by simp, .atEnd⟩
  | cons c t ih =>
      by_cases hc : c = '\n'
      · exact ⟨[], c :: t, rfl, by simp, hc ▸ .atNewline⟩
      · obtain ⟨line, r, rfl, hl, hr⟩ := ih
        exact ⟨c :: line, r, rfl, by simp [hl, Ne.symm hc], hr⟩

theorem takeWhile_line {line r : Text} (hl : '\n' ∉ line) (hr : AtLineEnd r) :
    (line ++ r).takeWhile (· ≠ '\n') = line := by
  have hp : ∀ c ∈ line, decide (c ≠ '\n') = true := by
    intro c hc
    simpa using fun (h : c = '\n') => hl (h ▸ hc)
  rw [List.takeWhile_append_of_pos hp]
  cases hr <;> simp

/-! ## Characters of code -/

/-- The characters with a meaning of their own in code. -/
def reserved : Text :=
  ['#', '"', '\x60', '(', ')', '[', ']', '{', '}', '$', '?', '^', '~', '@', '\x27', '\\']

theorem Bracket.ofOpening?_eq_some_iff {c : Char} {b : Bracket} :
    ofOpening? c = some b ↔ c = b.opening := by
  constructor
  · intro h
    unfold ofOpening? at h
    repeat' split at h
    all_goals first
      | (subst c; obtain rfl := Option.some.inj h; rfl)
      | cases h
  · rintro rfl
    simp

theorem Bracket.ofClosing?_eq_some_iff {c : Char} {b : Bracket} :
    ofClosing? c = some b ↔ c = b.closing := by
  constructor
  · intro h
    unfold ofClosing? at h
    repeat' split at h
    all_goals first
      | (subst c; obtain rfl := Option.some.inj h; rfl)
      | cases h
  · rintro rfl
    simp

/-- A character is reserved if it starts a comment or a literal, is a bracket, or is illegal. -/
theorem mem_reserved_iff {c : Char} :
    c ∈ reserved ↔ c = '#' ∨ c = '"' ∨ c = '\x60' ∨ (Bracket.ofOpening? c).isSome ∨
      (Bracket.ofClosing? c).isSome ∨ c ∈ illegalCharacters := by
  simp only [Bracket.ofOpening?, Bracket.ofClosing?, reserved, illegalCharacters, Text.apostrophe,
    List.mem_cons, List.not_mem_nil, or_false]
  repeat' split
  all_goals simp_all

theorem Bracket.opening_ne (b : Bracket) :
    b.opening ≠ '#' ∧ b.opening ≠ '"' ∧ b.opening ≠ '\x60' := by
  cases b <;> decide

theorem Bracket.closing_ne (b : Bracket) :
    b.closing ≠ '#' ∧ b.closing ≠ '"' ∧ b.closing ≠ '\x60' ∧
      Bracket.ofOpening? b.closing = none := by
  cases b <;> decide

/-- Illegal characters start nothing and are no brackets. -/
theorem illegal_ne {c : Char} (h : c ∈ illegalCharacters) :
    c ≠ '#' ∧ c ≠ '"' ∧ c ≠ '\x60' ∧ Bracket.ofOpening? c = none ∧
      Bracket.ofClosing? c = none := by
  have hall : illegalCharacters.all (fun c =>
      decide (c ≠ '#' ∧ c ≠ '"' ∧ c ≠ '\x60' ∧ Bracket.ofOpening? c = none ∧
        Bracket.ofClosing? c = none)) = true := by decide
  exact of_decide_eq_true (List.all_eq_true.1 hall c h)

theorem ne_of_not_mem_reserved {c : Char} (h : c ∉ reserved) : c ≠ '#' ∧ c ≠ '"' ∧ c ≠ '\x60' := by
  rw [mem_reserved_iff] at h
  simp only [not_or] at h
  exact ⟨h.1, h.2.1, h.2.2.1⟩

/-! ## Steps -/

namespace Scanner

/-- Where a string literal is cut off: at the end of the source and before a line end, also if a
    backslash stands before the line end. -/
inductive CutsString : Text → Prop
  | atEnd : CutsString []
  | atNewline {r : Text} : CutsString ('\n' :: r)
  | atBackslash {r : Text} : CutsString ('\\' :: '\n' :: r)

/-- What a step of the scan can meet, and the state after it. -/
inductive Step : Scanner → Scanner → Prop
  | comment {s : Scanner} {line r : Text} (hm : s.mode = .code)
      (hr : s.cursor.rest = '#' :: (line ++ r)) (hl : '\n' ∉ line) (he : AtLineEnd r) :
      Step s
        { s with
          comments := s.comments ++
            [⟨commentText line, s.cursor.position.line, s.cursor.position.column⟩]
          cursor := s.cursor.skip (line.length + 1) }
  | stringStart {s : Scanner} {r : Text} (hm : s.mode = .code) (hr : s.cursor.rest = '"' :: r) :
      Step s { s.advance with mode := .string s.cursor.position }
  | rawStart {s : Scanner} {r : Text} (hm : s.mode = .code) (hr : s.cursor.rest = '\x60' :: r) :
      Step s { s.advance with mode := .raw s.cursor.position }
  | opening {s : Scanner} {b : Bracket} {r : Text} (hm : s.mode = .code)
      (hr : s.cursor.rest = b.opening :: r) :
      Step s { s.advance with brackets := (b, s.cursor.position) :: s.brackets }
  | closing {s : Scanner} {b : Bracket} {p : Position} {outer : List (Bracket × Position)}
      {r : Text} (hm : s.mode = .code) (hr : s.cursor.rest = b.closing :: r)
      (hb : s.brackets = (b, p) :: outer) : Step s { s.advance with brackets := outer }
  | unexpected {s : Scanner} {b : Bracket} {r : Text} (hm : s.mode = .code)
      (hr : s.cursor.rest = b.closing :: r) (hb : ∀ p outer, s.brackets ≠ (b, p) :: outer) :
      Step s (s.report s.cursor.position (.unexpected b)).advance
  | illegal {s : Scanner} {c : Char} {r : Text} (hm : s.mode = .code)
      (hr : s.cursor.rest = c :: r) (hc : c ∈ illegalCharacters) :
      Step s (s.report s.cursor.position (.illegal c)).advance
  | plain {s : Scanner} {c : Char} {r : Text} (hm : s.mode = .code) (hr : s.cursor.rest = c :: r)
      (hc : c ∉ reserved) : Step s s.advance
  | stringCut {s : Scanner} {p : Position} (hm : s.mode = .string p)
      (hr : CutsString s.cursor.rest) :
      Step s { s.report p .unterminatedString with mode := .code }
  | escape {s : Scanner} {p : Position} {c : Char} {r : Text} (hm : s.mode = .string p)
      (hr : s.cursor.rest = '\\' :: c :: r) (hc : c ≠ '\n') : Step s s.advance.advance
  | stringEnd {s : Scanner} {p : Position} {r : Text} (hm : s.mode = .string p)
      (hr : s.cursor.rest = '"' :: r) : Step s { s.advance with mode := .code }
  | stringBody {s : Scanner} {p : Position} {c : Char} {r : Text} (hm : s.mode = .string p)
      (hr : s.cursor.rest = c :: r) (hq : c ≠ '"') (hn : c ≠ '\n') (hb : c = '\\' → r = []) :
      Step s s.advance
  | rawCut {s : Scanner} {p : Position} (hm : s.mode = .raw p) (hr : s.cursor.rest = []) :
      Step s { s.report p .unterminatedRaw with mode := .code }
  | rawEnd {s : Scanner} {p : Position} {r : Text} (hm : s.mode = .raw p)
      (hr : s.cursor.rest = '\x60' :: r) : Step s { s.advance with mode := .code }
  | rawBody {s : Scanner} {p : Position} {c : Char} {r : Text} (hm : s.mode = .raw p)
      (hr : s.cursor.rest = c :: r) (hc : c ≠ '\x60') : Step s s.advance

variable {s t u : Scanner}

@[simp] theorem comments_advance (s : Scanner) : s.advance.comments = s.comments := rfl

@[simp] theorem errors_advance (s : Scanner) : s.advance.errors = s.errors := rfl

@[simp] theorem brackets_advance (s : Scanner) : s.advance.brackets = s.brackets := rfl

/-- Taking a comment, by the line that it ends with. -/
theorem takeComment_eq {line r : Text} (hr : s.cursor.rest = '#' :: (line ++ r))
    (hl : '\n' ∉ line) (he : AtLineEnd r) :
    s.takeComment =
      { s with
        comments := s.comments ++
          [⟨commentText line, s.cursor.position.line, s.cursor.position.column⟩]
        cursor := s.cursor.skip (line.length + 1) } := by
  have hw : s.cursor.rest.takeWhile (· ≠ '\n') = '#' :: line := by
    rw [hr, List.takeWhile_cons_of_pos (by decide), takeWhile_line hl he]
  unfold takeComment
  rw [hw]
  rfl

/-- The step in code, by the character that is met. -/
theorem step_codeStep {c : Char} {r : Text} (hm : s.mode = .code) (hr : s.cursor.rest = c :: r) :
    Step s (s.codeStep c) := by
  unfold codeStep
  split
  · rename_i hc
    -- A comment takes the rest of its line at once, so the line is split off first.
    obtain ⟨line, r, rfl, hl, he⟩ := exists_line r
    rw [hc] at hr
    rw [takeComment_eq hr hl he]
    exact .comment hm hr hl he
  split
  · rename_i hc
    exact .stringStart hm (hc ▸ hr)
  split
  · rename_i hc
    exact .rawStart hm (hc ▸ hr)
  split
  · rename_i hb
    exact .opening hm (Bracket.ofOpening?_eq_some_iff.1 hb ▸ hr)
  · rename_i b _ hb
    have hr' : s.cursor.rest = b.closing :: r := Bracket.ofClosing?_eq_some_iff.1 hb ▸ hr
    unfold closeBracket
    split
    · rename_i o p outer ho
      split
      · rename_i hob
        exact .closing hm hr' (hob ▸ ho)
      · rename_i hob
        refine .unexpected hm hr' fun p' outer' h => hob ?_
        rw [ho] at h
        exact (Prod.mk.inj (List.cons.inj h).1).1
    · rename_i ho
      exact .unexpected hm hr' fun p' outer' h => by simp [ho] at h
  · rename_i h1 h2 h3 ho hc
    split
    · rename_i hi
      exact .illegal hm hr (List.contains_iff_mem.1 hi)
    · -- All that is reserved has been asked for above.
      rename_i hi
      refine .plain hm hr fun hres => ?_
      rw [mem_reserved_iff] at hres
      simp_all

/-- The step in a string literal. -/
theorem step_stringStep {p : Position} (hm : s.mode = .string p) : Step s (s.stringStep p) := by
  unfold stringStep
  split
  · rename_i hr
    exact .stringCut hm (hr ▸ .atEnd)
  · rename_i hr
    exact .stringCut hm (hr ▸ .atNewline)
  · rename_i hr
    exact .stringCut hm (hr ▸ .atBackslash)
  · rename_i c r hn hr
    exact .escape hm hr (by simpa using hn)
  · rename_i hr
    exact .stringEnd hm hr
  · rename_i c r hn hb he hq hr
    refine .stringBody hm hr (by simpa using hq) (by simpa using hn) fun hc => ?_
    cases r with
    | nil => rfl
    | cons d r => exact absurd rfl (he d r hc)

/-- The step in a raw literal. -/
theorem step_rawStep {p : Position} (hm : s.mode = .raw p) : Step s (s.rawStep p) := by
  unfold rawStep
  split
  · rename_i hr
    exact .rawCut hm hr
  · rename_i c r hr
    split
    · rename_i hc
      exact .rawEnd hm (hc ▸ hr)
    · rename_i hc
      exact .rawBody hm hr hc

/-- The step function takes steps only. -/
theorem step_of_eq_some (h : s.step = some t) : Step s t := by
  unfold step at h
  split at h
  · cases h
  · rename_i hm hr
    exact Option.some.inj h ▸ step_codeStep hm hr
  · rename_i hm
    exact Option.some.inj h ▸ step_stringStep hm
  · rename_i hm
    exact Option.some.inj h ▸ step_rawStep hm

/-- The step function takes every step. -/
theorem Step.eq_some (h : Step s t) : s.step = some t := by
  cases h with
  | comment hm hr hl he => simp [step, hm, hr, codeStep, takeComment_eq hr hl he]
  | stringStart hm hr => simp [step, hm, hr, codeStep]
  | rawStart hm hr => simp [step, hm, hr, codeStep]
  | @opening b _ hm hr =>
      obtain ⟨h1, h2, h3⟩ := Bracket.opening_ne b
      simp [step, hm, hr, codeStep, h1, h2, h3]
  | @closing b p outer _ hm hr hb =>
      obtain ⟨h1, h2, h3, h4⟩ := Bracket.closing_ne b
      simp [step, hm, hr, codeStep, h1, h2, h3, h4, closeBracket, hb, advance]
  | @unexpected b _ hm hr hb =>
      obtain ⟨h1, h2, h3, h4⟩ := Bracket.closing_ne b
      have hc : s.closeBracket b = s.report s.cursor.position (.unexpected b) := by
        unfold closeBracket
        split
        · rename_i o p outer ho
          rw [if_neg]
          rintro rfl
          exact hb p outer ho
        · rfl
      simp [step, hm, hr, codeStep, h1, h2, h3, h4, hc]
  | illegal hm hr hc =>
      obtain ⟨h1, h2, h3, h4, h5⟩ := illegal_ne hc
      simp [step, hm, hr, codeStep, h1, h2, h3, h4, h5, hc]
  | plain hm hr hc =>
      rw [mem_reserved_iff] at hc
      simp only [not_or, Option.not_isSome_iff_eq_none] at hc
      obtain ⟨h1, h2, h3, h4, h5, h6⟩ := hc
      simp [step, hm, hr, codeStep, h1, h2, h3, h4, h5, h6]
  | stringCut hm hr =>
      simp only [step, hm]
      unfold stringStep
      cases hc : s.cursor.rest with
      | nil => rfl
      | cons c r => rw [hc] at hr; cases hr <;> rfl
  | escape hm hr hc => simp [step, hm, stringStep, hr]
  | stringEnd hm hr => simp [step, hm, stringStep, hr]
  | @stringBody p c r hm hr hq hn hb =>
      simp only [step, hm]
      unfold stringStep
      rw [hr]
      -- The patterns before the last one need a character or a beginning that the hypotheses exclude.
      split
      · rename_i h; cases h
      · rename_i h; exact absurd (List.cons.inj h).1 hn
      · rename_i h; obtain ⟨rfl, rfl⟩ := List.cons.inj h; cases hb rfl
      · rename_i h; obtain ⟨rfl, rfl⟩ := List.cons.inj h; cases hb rfl
      · rename_i h; exact absurd (List.cons.inj h).1 hq
      · rfl
  | rawCut hm hr => simp [step, hm, rawStep, hr]
  | rawEnd hm hr => simp [step, hm, rawStep, hr]
  | rawBody hm hr hc => simp [step, hm, rawStep, hr, hc]

theorem step_eq_some_iff : s.step = some t ↔ Step s t := ⟨step_of_eq_some, Step.eq_some⟩

/-! ## Runs -/

/-- The later states of a scan. -/
def Reaches : Scanner → Scanner → Prop := Relation.ReflTransGen Step

theorem Reaches.refl (s : Scanner) : Reaches s s := Relation.ReflTransGen.refl

theorem Reaches.trans (h : Reaches s t) (h' : Reaches t u) : Reaches s u :=
  Relation.ReflTransGen.trans h h'

theorem Step.reaches (h : Step s t) : Reaches s t := Relation.ReflTransGen.single h

theorem reaches_run (s : Scanner) (fuel : Nat) : Reaches s (s.run fuel) := by
  induction fuel generalizing s with
  | zero => exact .refl s
  | succ n ih =>
      unfold run
      cases hs : s.step with
      | none => exact .refl s
      | some t => exact (step_of_eq_some hs).reaches.trans (ih t)

/-- Two finished runs from one state end in the same state, since a state has at most one step. -/
theorem Reaches.unique (h : Reaches s t) (ht : t.step = none) (h' : Reaches s u)
    (hu : u.step = none) : t = u := by
  -- From the front: both runs take the same first step, since `step` is a function.
  induction h using Relation.ReflTransGen.head_induction_on with
  | refl =>
      rcases Relation.ReflTransGen.cases_head h' with rfl | ⟨v, hv, _⟩
      · rfl
      · rw [hv.eq_some] at ht; cases ht
  | @head a b hab _ ih =>
      rcases Relation.ReflTransGen.cases_head h' with rfl | ⟨v, hv, hvu⟩
      · rw [hab.eq_some] at hu; cases hu
      · have hbv : b = v := Option.some.inj (hab.eq_some.symm.trans hv.eq_some)
        exact ih (hbv ▸ hvu)

/-- What holds at the start and survives every step holds at all later states. -/
theorem Reaches.invariant {Inv : Scanner → Prop} (hstep : ∀ {s t}, Step s t → Inv s → Inv t)
    (h : Reaches s t) (hs : Inv s) : Inv t := by
  induction h with
  | refl => exact hs
  | tail _ hst ih => exact hstep hst ih

/-- A state without a step is in code, at the end of the source. -/
theorem step_eq_none_iff : s.step = none ↔ s.mode = .code ∧ s.cursor.rest = [] := by
  unfold step
  split
  · rename_i hm hr
    simp [hm, hr]
  · rename_i hm hr
    simp [hr]
  · rename_i hm
    simp [hm]
  · rename_i hm
    simp [hm]

end Scanner

open Scanner

theorem reaches_finalState (source : Text) : Reaches (start source) (finalState source) :=
  reaches_run _ _

/-- The final state is the one state without a step that the scan reaches. -/
theorem eq_finalState {source : Text} {t : Scanner} (h : Reaches (start source) t)
    (hm : t.mode = .code) (hr : t.cursor.rest = []) : t = finalState source :=
  h.unique (step_eq_none_iff.2 ⟨hm, hr⟩) (reaches_finalState source) (step_finalState source)

end PolicyTable.Rego
