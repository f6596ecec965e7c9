import PolicyTable.Proofs.Rego.Steps

/-!
# `PolicyTable.Proofs.Rego.Comments` — the comments of a source, character by character

The scanner jumps: over whole comments, over two characters of an escape, and back into code in front of
the line end that cuts a string off. `Zone` is an automaton that does none of that. It reads one character
at a time and remembers nothing but where it stands; its comments are read off the offsets of a source.

## Contents
- **Automaton.** `Zone`, `Zone.next` and `Zone.after`.
- **Comments.** `startsComment` and `commentAt` at one offset, `commentsBefore` at all offsets.
- **Simulation.** `InZone` ties a mode of the scanner to a zone; `InStep` is the invariant of a scan.

Main statement: `scan_comments_eq`, the scanner finds the comments of the automaton.
-/

namespace PolicyTable.Rego

open Scanner (Reaches Step step_eq_none_iff rest_advance start)

/-! ## Automaton -/

/-- Where a character of a source stands. -/
inductive Zone
  | code
  | comment
  | string
  | escape
  | raw
  deriving DecidableEq, Repr

/-- Where the character behind a character stands. -/
def Zone.next : Zone → Char → Zone
  | .code, c =>
    if c = '#' then .comment else if c = '"' then .string else if c = '\x60' then .raw else .code
  | .comment, c => if c = '\n' then .code else .comment
  | .string, c => if c = '"' ∨ c = '\n' then .code else if c = '\\' then .escape else .string
  | .escape, c => if c = '\n' then .code else .string
  | .raw, c => if c = '\x60' then .code else .raw

/-- Where the character behind a text stands. -/
def Zone.after (before : Text) : Zone := before.foldl Zone.next .code

@[simp] theorem Zone.after_concat (before : Text) (c : Char) :
    Zone.after (before ++ [c]) = (Zone.after before).next c := by
  simp [Zone.after]

theorem Zone.after_append (front more : Text) :
    Zone.after (front ++ more) = more.foldl Zone.next (Zone.after front) := by
  unfold Zone.after
  rw [List.foldl_append]

/-- A line end ends everything but a raw literal. -/
theorem Zone.next_newline {z : Zone} (hz : z ≠ .raw) : z.next '\n' = .code := by
  cases z <;> first | rfl | exact absurd rfl hz

/-! ## Comments -/

/-- Does a comment start at the offset? -/
def startsComment (source : Text) (offset : Nat) : Bool :=
  decide (source[offset]? = some '#') && decide (Zone.after (source.take offset) = .code)

/-- A text without the CR at its end. -/
def withoutCr : Text → Text
  | [] => []
  | ['\r'] => []
  | c :: r => c :: withoutCr r

/-- The comment whose number sign stands at the offset: what follows up to the end of the line, and the
    place behind the text before it. -/
def commentAt (source : Text) (offset : Nat) : Comment :=
  let place := Position.after (source.take offset)
  { text := withoutCr ((source.drop (offset + 1)).takeWhile (· ≠ '\n'))
    line := place.line
    column := place.column }

/-- The comments that start before the offset. -/
def commentsBefore (source : Text) (offset : Nat) : List Comment :=
  ((List.range offset).filter (startsComment source)).map (commentAt source)

theorem commentText_eq_withoutCr (line : Text) : Scanner.commentText line = withoutCr line := by
  unfold Scanner.commentText
  fun_induction withoutCr line with
  | case1 => rfl
  | case2 => rfl
  | case3 c r h ih =>
      cases r with
      | nil =>
          have hc : c ≠ '\r' := fun hc => h hc rfl
          simp [hc, withoutCr]
      | cons d r =>
          rw [← ih, List.getLast?_cons_cons]
          split <;> rfl

theorem startsComment_length {before r : Text} {c : Char} :
    startsComment (before ++ c :: r) before.length = true ↔
      c = '#' ∧ Zone.after before = .code := by
  simp [startsComment]

/-- A character that starts no comment adds none. -/
theorem commentsBefore_concat {before r : Text} {c : Char}
    (h : ¬ (c = '#' ∧ Zone.after before = .code)) :
    commentsBefore (before ++ c :: r) (before ++ [c]).length =
      commentsBefore (before ++ c :: r) before.length := by
  have hs : startsComment (before ++ c :: r) before.length = false := by
    rw [← Bool.not_eq_true, startsComment_length]
    exact h
  simp [commentsBefore, List.range_succ, hs]

/-- A number sign in code adds the comment of its line. -/
theorem commentsBefore_numberSign {before line r : Text} (hz : Zone.after before = .code)
    (hl : '\n' ∉ line) (he : AtLineEnd r) :
    commentsBefore (before ++ '#' :: (line ++ r)) (before ++ ['#']).length =
      commentsBefore (before ++ '#' :: (line ++ r)) before.length ++
        [⟨Scanner.commentText line, (Position.after before).line,
          (Position.after before).column⟩] := by
  have hs : startsComment (before ++ '#' :: (line ++ r)) before.length = true :=
    startsComment_length.2 ⟨rfl, hz⟩
  have hd : (before ++ '#' :: (line ++ r)).drop (before.length + 1) = line ++ r := by
    rw [← List.drop_drop, List.drop_left, List.drop_one, List.tail_cons]
  have hc : commentAt (before ++ '#' :: (line ++ r)) before.length =
      ⟨Scanner.commentText line, (Position.after before).line, (Position.after before).column⟩ := by
    unfold commentAt
    rw [hd, takeWhile_line hl he, List.take_left, commentText_eq_withoutCr]
  simp [commentsBefore, List.range_succ, hs, hc]

/-- Inside a comment none starts, and the rest of the line stays inside. -/
theorem commentsBefore_line {before line r : Text} (hz : Zone.after before = .comment)
    (hl : '\n' ∉ line) :
    commentsBefore (before ++ line ++ r) (before ++ line).length =
        commentsBefore (before ++ line ++ r) before.length ∧
      Zone.after (before ++ line) = .comment := by
  induction line generalizing before with
  | nil => simpa using hz
  | cons c line ih =>
      have hc : c ≠ '\n' := fun hc => hl (hc ▸ List.mem_cons_self ..)
      have hz' : Zone.after (before ++ [c]) = .comment := by
        simp [hz, Zone.next, hc]
      obtain ⟨h1, h2⟩ := ih hz' (fun h => hl (List.mem_cons_of_mem _ h))
      have h3 : commentsBefore (before ++ c :: (line ++ r)) (before ++ [c]).length =
          commentsBefore (before ++ c :: (line ++ r)) before.length :=
        commentsBefore_concat (by simp [hz])
      rw [List.append_cons before c line]
      refine ⟨h1.trans ?_, h2⟩
      simpa using h3

/-! ## Simulation -/

/-- Where the automaton stands while the scanner is in a mode. In front of the line end that cuts a string
    off, the scanner is back in code already and the automaton is not. -/
inductive InZone : Mode → Zone → Text → Prop
  | code {rest : Text} : InZone .code .code rest
  | atEnd {z : Zone} : InZone .code z []
  | beforeNewline {z : Zone} {r : Text} (hz : z ≠ .raw) : InZone .code z ('\n' :: r)
  | beforeBackslash {r : Text} : InZone .code .string ('\\' :: '\n' :: r)
  | string {p : Position} {rest : Text} : InZone (.string p) .string rest
  | stringAtEnd {p : Position} {z : Zone} : InZone (.string p) z []
  | raw {p : Position} {rest : Text} : InZone (.raw p) .raw rest

/-- Over a character of code that starts neither a comment nor a literal, both stay in code. -/
theorem InZone.next_code {z : Zone} {c : Char} {r : Text} (h : InZone .code z (c :: r))
    (hc : c ≠ '#' ∧ c ≠ '"' ∧ c ≠ '\x60') : InZone .code (z.next c) r := by
  cases h with
  | code =>
      have hn : Zone.next .code c = .code := by simp [Zone.next, hc]
      rw [hn]
      exact .code
  | beforeNewline hz =>
      rw [Zone.next_newline hz]
      exact .code
  | beforeBackslash => exact .beforeNewline (by decide)

/-- In front of a character that starts something, both are in code. -/
theorem InZone.eq_code {z : Zone} {c : Char} {r : Text} (h : InZone .code z (c :: r))
    (hc : c = '#' ∨ c = '"' ∨ c = '\x60') : z = .code := by
  cases h with
  | code => rfl
  | beforeNewline => simp at hc
  | beforeBackslash => simp at hc

theorem InZone.eq_string {p : Position} {z : Zone} {c : Char} {r : Text}
    (h : InZone (.string p) z (c :: r)) : z = .string := by
  cases h
  rfl

theorem InZone.eq_raw {p : Position} {z : Zone} {rest : Text} (h : InZone (.raw p) z rest) :
    z = .raw := by
  cases h
  rfl

/-- Where a string literal is cut off, the scanner goes back into code. -/
theorem InZone.leave_string {p : Position} {z : Zone} {rest : Text}
    (h : InZone (.string p) z rest) (hr : Scanner.CutsString rest) : InZone .code z rest := by
  cases h with
  | stringAtEnd => exact .atEnd
  | string =>
      cases hr with
      | atEnd => exact .atEnd
      | atNewline => exact .beforeNewline (by decide)
      | atBackslash => exact .beforeBackslash

/-- Inside a string literal, only a backslash at the very end of the source leaves the two apart. -/
theorem InZone.next_string {p : Position} {c : Char} {r : Text} (hq : c ≠ '"') (hn : c ≠ '\n')
    (hb : c = '\\' → r = []) : InZone (.string p) (Zone.next .string c) r := by
  by_cases hc : c = '\\'
  · rw [hb hc]
    exact .stringAtEnd
  · have hs : Zone.next .string c = .string := by simp [Zone.next, hq, hn, hc]
    rw [hs]
    exact .string

/-- The cursor stands between two parts of the source, and the comments are those that start before it. -/
structure Tracks (source before : Text) (s : Scanner) : Prop where
  source_eq : source = before ++ s.cursor.rest
  cursor_eq : s.cursor = .between before s.cursor.rest
  comments_eq : s.comments = commentsBefore source before.length

/-- **The invariant of a scan.** The scanner keeps to the source, and the automaton stands where the mode
    says. -/
def InStep (source : Text) (s : Scanner) : Prop :=
  ∃ before, Tracks source before s ∧ InZone s.mode (Zone.after before) s.cursor.rest

variable {source before : Text} {s t : Scanner}

/-- A step over one character that starts no comment. -/
theorem Tracks.advance {c : Char} {r : Text} (h : Tracks source before s)
    (hr : s.cursor.rest = c :: r) (hcur : t.cursor = s.cursor.advance)
    (hcom : t.comments = s.comments) (hno : ¬ (c = '#' ∧ Zone.after before = .code)) :
    Tracks source (before ++ [c]) t := by
  have hcur' : t.cursor = .between (before ++ [c]) r := by
    rw [hcur, h.cursor_eq, hr, Cursor.advance_between]
  refine ⟨?_, ?_, ?_⟩
  · rw [hcur', Cursor.rest_between, h.source_eq, hr, List.append_cons]
  · rw [hcur', Cursor.rest_between]
  · rw [hcom, h.comments_eq, h.source_eq, hr, commentsBefore_concat hno]

/-- The same step, with the zone behind the character. -/
theorem Tracks.inStep {c : Char} {r : Text} (h : Tracks source before s)
    (hr : s.cursor.rest = c :: r) (hcur : t.cursor = s.cursor.advance)
    (hcom : t.comments = s.comments) (hno : ¬ (c = '#' ∧ Zone.after before = .code))
    (hz : InZone t.mode ((Zone.after before).next c) r) : InStep source t := by
  refine ⟨before ++ [c], h.advance hr hcur hcom hno, ?_⟩
  rw [hcur, rest_advance hr, Zone.after_concat]
  exact hz

/-- A step that leaves a literal where it is. -/
theorem Tracks.leave (h : Tracks source before s) (hcur : t.cursor = s.cursor)
    (hcom : t.comments = s.comments) (hz : InZone t.mode (Zone.after before) s.cursor.rest) :
    InStep source t :=
  ⟨before, ⟨hcur ▸ h.source_eq, hcur ▸ h.cursor_eq, hcom ▸ h.comments_eq⟩, hcur ▸ hz⟩

/-- A step over a whole comment. -/
theorem Tracks.comment {line r : Text} (h : Tracks source before s) (hm : s.mode = .code)
    (hr : s.cursor.rest = '#' :: (line ++ r)) (hl : '\n' ∉ line) (he : AtLineEnd r)
    (hz : Zone.after before = .code) :
    InStep source
      { s with
        comments := s.comments ++
          [⟨Scanner.commentText line, s.cursor.position.line, s.cursor.position.column⟩]
        cursor := s.cursor.skip (line.length + 1) } := by
  -- The automaton enters the comment at the number sign and stays there up to the line end.
  have hz' : Zone.after (before ++ ['#']) = .comment := by simp [hz, Zone.next]
  obtain ⟨hline, hzline⟩ := commentsBefore_line (r := r) hz' hl
  have hcur : s.cursor.skip (line.length + 1) = .between (before ++ '#' :: line) r := by
    rw [h.cursor_eq, hr, ← List.cons_append, ← List.length_cons]
    exact Cursor.skip_between (by simpa using hl)
  have hpos : s.cursor.position = Position.after before := by
    rw [h.cursor_eq, Cursor.position_between]
  refine ⟨before ++ '#' :: line, ⟨?_, ?_, ?_⟩, ?_⟩
  · rw [hcur, Cursor.rest_between, h.source_eq, hr, List.append_assoc, List.cons_append]
  · rw [hcur, Cursor.rest_between]
  · have hsource : source = before ++ ['#'] ++ line ++ r := by
      rw [h.source_eq, hr]
      simp
    have hnew := commentsBefore_numberSign hz hl he
    rw [List.append_cons, ← List.append_assoc, ← hsource] at hnew
    rw [← hsource] at hline
    rw [List.append_cons before '#' line, hline, hnew, h.comments_eq, hpos]
  · rw [hcur, Cursor.rest_between, List.append_cons, hzline, hm]
    cases he with
    | atEnd => exact .atEnd
    | atNewline => exact .beforeNewline (by decide)

/-- **One step of the scanner is matched by some characters of the automaton.** -/
theorem Scanner.Step.inStep (hst : Step s t) (hs : InStep source s) : InStep source t := by
  obtain ⟨before, h, hzone⟩ := hs
  cases hst with
  | comment hm hr hl he =>
      rw [hm, hr] at hzone
      exact h.comment hm hr hl he (hzone.eq_code (.inl rfl))
  | stringStart hm hr =>
      rw [hm, hr] at hzone
      have hz := hzone.eq_code (.inr (.inl rfl))
      exact h.inStep hr rfl rfl (by simp) (by rw [hz]; exact .string)
  | rawStart hm hr =>
      rw [hm, hr] at hzone
      have hz := hzone.eq_code (.inr (.inr rfl))
      exact h.inStep hr rfl rfl (by simp) (by rw [hz]; exact .raw)
  | @opening b r hm hr =>
      rw [hm, hr] at hzone
      have hb := Bracket.opening_ne b
      exact h.inStep hr rfl rfl (by simp [hb.1]) (hm ▸ hzone.next_code hb)
  | @closing b p outer r hm hr =>
      rw [hm, hr] at hzone
      obtain ⟨h1, h2, h3, _⟩ := Bracket.closing_ne b
      exact h.inStep hr rfl rfl (by simp [h1]) (hm ▸ hzone.next_code ⟨h1, h2, h3⟩)
  | @unexpected b r hm hr =>
      rw [hm, hr] at hzone
      obtain ⟨h1, h2, h3, _⟩ := Bracket.closing_ne b
      exact h.inStep hr rfl rfl (by simp [h1]) (hm ▸ hzone.next_code ⟨h1, h2, h3⟩)
  | illegal hm hr hc =>
      rw [hm, hr] at hzone
      obtain ⟨h1, h2, h3, _⟩ := illegal_ne hc
      exact h.inStep hr rfl rfl (by simp [h1]) (hm ▸ hzone.next_code ⟨h1, h2, h3⟩)
  | plain hm hr hc =>
      rw [hm, hr] at hzone
      obtain ⟨h1, h2, h3⟩ := ne_of_not_mem_reserved hc
      exact h.inStep hr rfl rfl (by simp [h1]) (hm ▸ hzone.next_code ⟨h1, h2, h3⟩)
  | stringCut hm hr =>
      -- Nothing is read; from here on the automaton lags behind until the line ends.
      exact h.leave rfl rfl ((hm ▸ hzone).leave_string hr)
  | @escape p c r hm hr hc =>
      rw [hm, hr] at hzone
      -- Two characters at once: the automaton takes the backslash first and then what it escapes.
      have hz : Zone.after (before ++ ['\\']) = .escape := by
        rw [Zone.after_concat, hzone.eq_string]
        rfl
      have hn : Zone.next .escape c = .string := by simp [Zone.next, hc]
      have h1 := h.advance (t := s.advance) hr rfl rfl (by simp)
      exact h1.inStep (rest_advance hr) rfl rfl (by simp [hz])
        (by rw [hz, hn]; exact hm ▸ .string)
  | stringEnd hm hr =>
      rw [hm, hr] at hzone
      have hz := hzone.eq_string
      exact h.inStep hr rfl rfl (by simp) (by rw [hz]; exact .code)
  | stringBody hm hr hq hn hb =>
      rw [hm, hr] at hzone
      have hz := hzone.eq_string
      exact h.inStep hr rfl rfl (by simp [hz]) (hm ▸ hz ▸ InZone.next_string hq hn hb)
  | rawCut hm hr => exact h.leave rfl rfl (hr ▸ .atEnd)
  | rawEnd hm hr =>
      rw [hm] at hzone
      have hz := hzone.eq_raw
      exact h.inStep hr rfl rfl (by simp) (by rw [hz]; exact .code)
  | @rawBody p c r hm hr hc =>
      rw [hm] at hzone
      have hz := hzone.eq_raw
      have hn : Zone.next .raw c = .raw := by simp [Zone.next, hc]
      exact h.inStep hr rfl rfl (by simp [hz]) (by rw [hz, hn]; exact hm ▸ .raw)

theorem InStep.start (source : Text) : InStep source (start source) :=
  ⟨[], ⟨rfl, rfl, rfl⟩, .code⟩

/-- A scan ends with the comments of the automaton. -/
theorem comments_finalState (source : Text) :
    (finalState source).comments = commentsBefore source source.length := by
  obtain ⟨before, h, _⟩ : InStep source (finalState source) :=
    (reaches_finalState source).invariant Step.inStep (.start source)
  -- At the end nothing is ahead, so the text before the cursor is the whole source.
  obtain ⟨_, hr⟩ := step_eq_none_iff.1 (step_finalState source)
  have hb : source = before := by simpa [hr] using h.source_eq
  rw [h.comments_eq, ← hb]

/-- **The scanner finds the comments of the automaton**: one for each number sign that stands in code, in
    the order of the source, with what follows it on its line and with its place. -/
theorem scan_comments_eq (source : Text) :
    (scan source).comments =
      ((List.range source.length).filter (startsComment source)).map (commentAt source) :=
  comments_finalState source

/-- The line end behind a backslash cuts the string off, and the number sign stands in code. -/
example :
    commentsBefore ['"', '\\', '\n', '#', 'x', '\r'] 6 = [{ text := ['x'], line := 2, column := 1 }] := by
  decide

end PolicyTable.Rego
