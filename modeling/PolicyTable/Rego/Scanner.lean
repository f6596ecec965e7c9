import PolicyTable.Rego.Diagnostic

/-!
# `PolicyTable.Rego.Scanner` — comments and lexical errors of a source

The scanner goes through a source once. Outside literals it jumps over whole comments, keeps a stack
of open brackets and reports characters that cannot stand there; inside a literal it looks for the
end of it. It is a machine with a step function, so that a run can be looked at state by state.

## Contents
- **State.** `Mode` (code, or inside a literal with its place) and `Scanner`.
- **Steps.** `takeComment`, `closeBracket`, `codeStep`, `stringStep`, `rawStep`, joined in `step`.
- **Run.** `run` with fuel, `scan` with enough of it; `step_measure` and `step_run` say why it is enough.
-/

namespace PolicyTable.Rego

/-! ## State -/

/-- Where the scanner stands: in code, or in a literal that was opened at a place. -/
inductive Mode
  | code
  | string (start : Position)
  | raw (start : Position)
  deriving DecidableEq, Repr

/-- The state of a scan: the cursor and the mode, the comments and errors met so far in the order in
    which they were met, and the open brackets with their places, innermost first. -/
structure Scanner where
  cursor : Cursor
  mode : Mode := .code
  comments : List Comment := []
  errors : List LexicalError := []
  brackets : List (Bracket × Position) := []
  deriving DecidableEq, Repr

/-- The state before the first character. -/
def Scanner.start (source : Text) : Scanner := { cursor := { rest := source } }

namespace Scanner

/-! ## Steps -/

/-- The state with one more error. -/
def report (s : Scanner) (position : Position) (fault : LexicalFault) : Scanner :=
  { s with errors := s.errors ++ [⟨position, fault⟩] }

/-- The state after the next character. -/
def advance (s : Scanner) : Scanner := { s with cursor := s.cursor.advance }

/-- The body of a comment: what stands between the `#` and the end of the line, less one CR at the
    end. -/
def commentText (line : Text) : Text :=
  if line.getLast? = some '\r' then line.dropLast else line

/-- From a `#`: note the comment and go to the end of its line. -/
def takeComment (s : Scanner) : Scanner :=
  let line := s.cursor.rest.takeWhile (· ≠ '\n')
  { s with
    comments := s.comments ++
      [⟨commentText (line.drop 1), s.cursor.position.line, s.cursor.position.column⟩]
    cursor := s.cursor.skip line.length }

/-- From a closing bracket: close the innermost open bracket if it is of that kind, and report the
    closing one otherwise. -/
def closeBracket (s : Scanner) (b : Bracket) : Scanner :=
  match s.brackets with
  | (open_, _) :: outer =>
    if open_ = b then { s with brackets := outer }
    else s.report s.cursor.position (.unexpected b)
  | [] => s.report s.cursor.position (.unexpected b)

/-- One step in code, from the character `c`. -/
def codeStep (s : Scanner) (c : Char) : Scanner :=
  if c = '#' then s.takeComment
  else if c = '"' then { s.advance with mode := .string s.cursor.position }
  else if c = '\x60' then { s.advance with mode := .raw s.cursor.position }
  else
    match Bracket.ofOpening? c, Bracket.ofClosing? c with
    | some b, _ => { s.advance with brackets := (b, s.cursor.position) :: s.brackets }
    | none, some b => (s.closeBracket b).advance
    | none, none =>
      if illegalCharacters.contains c then (s.report s.cursor.position (.illegal c)).advance
      else s.advance

/-- One step in a string literal. A line end cuts the literal off, also after a backslash, and the
    scan goes on in code from there; any other character after a backslash belongs to the literal. -/
def stringStep (s : Scanner) (start : Position) : Scanner :=
  match s.cursor.rest with
  | [] | '\n' :: _ | '\\' :: '\n' :: _ => { s.report start .unterminatedString with mode := .code }
  | '\\' :: _ :: _ => s.advance.advance
  | '"' :: _ => { s.advance with mode := .code }
  | _ :: _ => s.advance

/-- One step in a raw literal, which only a second backquote ends. -/
def rawStep (s : Scanner) (start : Position) : Scanner :=
  match s.cursor.rest with
  | [] => { s.report start .unterminatedRaw with mode := .code }
  | c :: _ => if c = '\x60' then { s.advance with mode := .code } else s.advance

/-- One step of the scan, or nothing at the end of the source. -/
def step (s : Scanner) : Option Scanner :=
  match s.mode, s.cursor.rest with
  | .code, [] => none
  | .code, c :: _ => some (s.codeStep c)
  | .string start, _ => some (s.stringStep start)
  | .raw start, _ => some (s.rawStep start)

/-! ## Run -/

/-- At most `fuel` steps. -/
def run : (fuel : Nat) → Scanner → Scanner
  | 0, s => s
  | fuel + 1, s =>
    match s.step with
    | none => s
    | some t => run fuel t

/-- All errors of a finished scan, in the order of their places. Each bracket that is still open is
    one. -/
def allErrors (s : Scanner) : List LexicalError :=
  let unclosed := s.brackets.reverse.map fun (b, position) => LexicalError.mk position (.unclosed b)
  (s.errors ++ unclosed).mergeSort fun e f => e.position.le f.position

/-- A bound on the steps that a state still has before it: two for each character left, and one to
    leave a literal. -/
def measure (s : Scanner) : Nat :=
  2 * s.cursor.rest.length + if s.mode = .code then 0 else 1

end Scanner

/-- What a scan finds: the comments in source order, and the errors in the order of their places. -/
structure Scan where
  comments : List Comment
  errors : List LexicalError
  deriving DecidableEq, Repr

/-- The diagnostics of a scan. -/
def Scan.diagnostics (s : Scan) : List Diagnostic := s.errors.map (·.diagnostic)

/-- The state at the end of a scan. -/
def finalState (source : Text) : Scanner :=
  (Scanner.start source).run (Scanner.start source).measure

/-- The comments and lexical errors of a source. -/
def scan (source : Text) : Scan :=
  ⟨(finalState source).comments, (finalState source).allErrors⟩

/-! ## The fuel is enough -/

namespace Scanner

@[simp] theorem cursor_advance (s : Scanner) : s.advance.cursor = s.cursor.advance := rfl

@[simp] theorem cursor_report (s : Scanner) (p : Position) (f : LexicalFault) :
    (s.report p f).cursor = s.cursor := rfl

@[simp] theorem mode_advance (s : Scanner) : s.advance.mode = s.mode := rfl

@[simp] theorem mode_report (s : Scanner) (p : Position) (f : LexicalFault) :
    (s.report p f).mode = s.mode := rfl

@[simp] theorem cursor_closeBracket (s : Scanner) (b : Bracket) :
    (s.closeBracket b).cursor = s.cursor := by
  unfold closeBracket
  repeat' split
  all_goals rfl

@[simp] theorem mode_closeBracket (s : Scanner) (b : Bracket) :
    (s.closeBracket b).mode = s.mode := by
  unfold closeBracket
  repeat' split
  all_goals rfl

theorem rest_advance {c : Cursor} {x : Char} {r : Text} (h : c.rest = x :: r) :
    c.advance.rest = r := by
  simp [Cursor.advance, h]

/-- A step in code moves the cursor on. -/
theorem codeStep_measure {s : Scanner} {c : Char} {r : Text} (hm : s.mode = .code)
    (h : s.cursor.rest = c :: r) : (s.codeStep c).measure < s.measure := by
  have ha : s.cursor.advance.rest = r := rest_advance h
  unfold codeStep
  split
  · rename_i hc
    have hd : (r.drop (r.takeWhile (· ≠ '\n')).length).length ≤ r.length := by simp
    simp only [measure, takeComment, Cursor.skip, hm, h, hc]
    simp only [List.takeWhile_cons, show decide ('#' ≠ '\n') = true from rfl, if_true,
      List.length_cons, List.drop_succ_cons]
    omega
  · repeat' split
    all_goals
      simp only [measure, cursor_advance, cursor_report, cursor_closeBracket, mode_advance,
        mode_report, mode_closeBracket, ha, h, hm, List.length_cons, reduceCtorEq, if_true, if_false]
      omega

/-- A step in a string literal moves the cursor on or leaves the literal. -/
theorem stringStep_measure {s : Scanner} {p : Position} (hm : s.mode = .string p) :
    (s.stringStep p).measure < s.measure := by
  unfold stringStep
  split
  all_goals
    rename_i h
    simp only [measure, cursor_advance, cursor_report, mode_advance, h, hm, List.length_cons,
      List.length_nil, reduceCtorEq, if_true, if_false]
  · omega
  · omega
  · omega
  · rw [rest_advance (rest_advance h)]
    omega
  · rw [rest_advance h]
    omega
  · rw [rest_advance h]
    omega

/-- A step in a raw literal moves the cursor on or leaves the literal. -/
theorem rawStep_measure {s : Scanner} {p : Position} (hm : s.mode = .raw p) :
    (s.rawStep p).measure < s.measure := by
  unfold rawStep
  split
  · rename_i h
    simp only [measure, cursor_report, h, hm, List.length_nil, reduceCtorEq, if_true, if_false]
    omega
  · rename_i h
    have hr := rest_advance h
    split
    all_goals
      simp only [measure, cursor_advance, mode_advance, hr, h, hm, List.length_cons, reduceCtorEq,
        if_true, if_false]
      omega

/-- Every step brings the end nearer. -/
theorem step_measure {s t : Scanner} (h : s.step = some t) : t.measure < s.measure := by
  unfold step at h
  split at h
  · cases h
  · rename_i hm hr
    exact Option.some.inj h ▸ codeStep_measure hm hr
  · rename_i hm
    exact Option.some.inj h ▸ stringStep_measure hm
  · rename_i hm
    exact Option.some.inj h ▸ rawStep_measure hm

/-- With as much fuel as its measure, a run ends in a state without a step. -/
theorem step_run {s : Scanner} {fuel : Nat} (h : s.measure ≤ fuel) :
    (s.run fuel).step = none := by
  induction fuel generalizing s with
  | zero =>
    cases hs : s.step with
    | none => simpa [run] using hs
    | some t => have := step_measure hs; omega
  | succ n ih =>
    unfold run
    cases hs : s.step with
    | none => simpa using hs
    | some t => exact ih (by have := step_measure hs; omega)

end Scanner

/-- A scan ends where it has no step left. -/
theorem step_finalState (source : Text) : (finalState source).step = none :=
  Scanner.step_run (Nat.le_refl _)

end PolicyTable.Rego
