import PolicyTable.Proofs.Rego.Literals

/-!
# `PolicyTable.Proofs.Rego.Subjects` — what each diagnostic is about

A diagnostic stands at the place of one character of the source and speaks of that character: it names an
illegal character or a bracket without a partner, or it says that the literal which the character opens is
not terminated. No two diagnostics are about one character, so their places increase strictly, although the
scanner meets a literal's error behind its body and that of an open bracket only at the end.

## Contents
- **Subjects.** `Concerns`: what a message may say of a character.
- **Order.** The errors of a scan in the order of their places.

Main statement: `scan_diagnostics_strict`.
-/

namespace PolicyTable.Rego

variable {source before rest : Text} {c : Char}

/-! ## Subjects -/

/-- **What a message says of a character**, by the text before it and the text behind it. An illegal character
    stands in code, or it is the backslash at which a line end cuts a string off. A bracket stands in code and
    has no partner. A quote opens its literal in code, and nothing behind it closes that literal. -/
inductive Concerns (before : Text) (c : Char) (rest : Text) : Text → Prop
  | illegal (hc : c ∈ illegalCharacters)
      (hz : Zone.after before = .code ∨ Zone.after before = .string ∧ c = '\\' ∧ rest.head? = some '\n') :
      Concerns before c rest ("illegal token ".toList ++ Text.quoted [c])
  | unexpected (hc : c = ')' ∨ c = ']' ∨ c = '}') (hz : Zone.after before = .code)
      (hp : ∀ i, (i, before.length) ∉ bracketPairs (before ++ c :: rest)) :
      Concerns before c rest ("unexpected ".toList ++ c :: " token".toList)
  | unclosed (hc : c = '(' ∨ c = '[' ∨ c = '{') (hz : Zone.after before = .code)
      (hp : ∀ j, (before.length, j) ∉ bracketPairs (before ++ c :: rest)) :
      Concerns before c rest ("unclosed ".toList ++ [c])
  | string (hc : c = '"') (hz : Zone.after before = .code)
      (hr : ∀ body r, StringBody body → rest ≠ body ++ '"' :: r) :
      Concerns before c rest "non-terminated string".toList
  | raw (hc : c = '\x60') (hz : Zone.after before = .code) (hr : '\x60' ∉ rest) :
      Concerns before c rest "non-terminated raw string".toList

theorem Bracket.opening_eq (b : Bracket) : b.opening = '(' ∨ b.opening = '[' ∨ b.opening = '{' := by
  cases b with
  | round => exact .inl rfl
  | square => exact .inr (.inl rfl)
  | curly => exact .inr (.inr rfl)

theorem Bracket.closing_eq (b : Bracket) : b.closing = ')' ∨ b.closing = ']' ∨ b.closing = '}' := by
  cases b with
  | round => exact .inl rfl
  | square => exact .inr (.inl rfl)
  | curly => exact .inr (.inr rfl)

/-- The message for the fault of a character speaks of that character. -/
theorem Faulty.concerns {f : LexicalFault} (h : Faulty (bracketPairs (before ++ c :: rest)) before c rest f) :
    Concerns before c rest f.message := by
  cases h with
  | string hz hc hr =>
      refine .string hc hz ?_
      intro body r hbody hrest
      rw [hrest, closes_of_stringBody hbody] at hr
      cases hr
  | raw hz hc hr =>
      refine .raw hc hz ?_
      intro hmem
      rw [closes_raw_iff.2 hmem] at hr
      cases hr
  | @unclosed b hz hc hp =>
      have hopening : c = '(' ∨ c = '[' ∨ c = '{' := hc ▸ b.opening_eq
      show Concerns before c rest ("unclosed ".toList ++ [b.opening])
      rw [← hc]
      refine .unclosed hopening hz ?_
      intro j hj
      exact hp (List.mem_map.2 ⟨_, hj, rfl⟩)
  | @unexpected b hz hc hp =>
      have hclosing : c = ')' ∨ c = ']' ∨ c = '}' := hc ▸ b.closing_eq
      show Concerns before c rest ("unexpected ".toList ++ b.closing :: " token".toList)
      rw [← hc]
      refine .unexpected hclosing hz ?_
      intro i hi
      exact hp (List.mem_map.2 ⟨_, hi, rfl⟩)
  | illegal hz hc => exact .illegal hc (.inl hz)
  | backslash hz hc hr => exact .illegal (hc ▸ by decide) (.inr ⟨hz, hc, hr⟩)

/-! ## Order -/

/-- The places of the errors of a scan increase strictly. -/
theorem pairwise_scan_errors (source : Text) :
    (scan source).errors.Pairwise fun e f => e.position.Lt f.position := by
  rw [scan_errors_eq]
  exact pairwise_errorsBefore source

theorem Position.Lt.diagnostic {e f : LexicalError} (h : e.position.Lt f.position) :
    e.diagnostic.line < f.diagnostic.line ∨
      e.diagnostic.line = f.diagnostic.line ∧ e.diagnostic.column < f.diagnostic.column := by
  unfold Position.Lt at h
  unfold LexicalError.diagnostic
  show (e.position.line : Int) < f.position.line ∨
    (e.position.line : Int) = f.position.line ∧ (e.position.column : Int) < f.position.column
  omega

/-- **The diagnostics of a scan are strictly increasing in line and column, and each is about the character of
    the source that stands at its place.** -/
theorem scan_diagnostics_strict (source : Text) :
    (scan source).diagnostics.Pairwise
        (fun d e => d.line < e.line ∨ d.line = e.line ∧ d.column < e.column) ∧
      ∀ d ∈ (scan source).diagnostics, ∃ before c rest, source = before ++ c :: rest ∧
        d.line = (Position.after before).line ∧ d.column = (Position.after before).column ∧
          Concerns before c rest d.message := by
  constructor
  · unfold Scan.diagnostics
    rw [List.pairwise_map]
    exact (pairwise_scan_errors source).imp Position.Lt.diagnostic
  · intro d hd
    obtain ⟨before, c, rest, f, hs, hf, rfl⟩ := mem_diagnostics_iff.1 hd
    rw [hs] at hf
    exact ⟨before, c, rest, hs, rfl, rfl, hf.concerns⟩

/-- An open bracket, whose error the scanner meets last, and behind it a string that the line end cuts off. -/
theorem scan_diagnostics_strict_string :
    ⟨2, 1, "non-terminated string".toList⟩ ∈ (scan ['(', '\n', '"', ')', '\n', '^']).diagnostics ∧
      ∃ before c rest, ['(', '\n', '"', ')', '\n', '^'] = before ++ c :: rest ∧
        2 = ((Position.after before).line : Int) ∧ 1 = ((Position.after before).column : Int) ∧
          Concerns before c rest "non-terminated string".toList := by
  have hmem : ⟨2, 1, "non-terminated string".toList⟩ ∈
      (scan ['(', '\n', '"', ')', '\n', '^']).diagnostics := by
    rw [scan_diagnostics_eq]
    decide
  obtain ⟨_, hsubject⟩ := scan_diagnostics_strict ['(', '\n', '"', ')', '\n', '^']
  exact ⟨hmem, hsubject _ hmem⟩

end PolicyTable.Rego
