import PolicyTable.Proofs.Sequence
import PolicyTable.Rego.ErrorText

/-!
# `PolicyTable.Proofs.Rego.ErrorText` — when a complaint gives diagnostics

A complaint gives no diagnostics at all if a numeral in it is too long to be read, be it that of a line or of
a column. Otherwise it gives at least one, whatever its text is.

## Contents
- **Numerals.** `exists_numeralOf_iff`, and `numeralOf_eq_error_iff` for what is refused.
- **Complaints.** `Readable`, `exists_diagnosticsOf_iff`, `ne_nil_of_diagnosticsOf` and `tooLong_of_diagnosticsOf`.
-/

namespace PolicyTable.Rego

variable {text digits : Text} {l : Located} {ds : List Diagnostic} {numeral : LongNumeral}

/-! ## Numerals -/

theorem exists_numeralOf_iff : (∃ n, numeralOf digits = .ok n) ↔ digits.length ≤ maxDigits := by
  unfold numeralOf
  by_cases h : digits.length > maxDigits
  · rw [if_pos h]
    constructor
    · rintro ⟨n, hn⟩
      cases hn
    · intro hle
      omega
  · rw [if_neg h]
    exact ⟨fun _ => Nat.not_lt.1 h, fun _ => ⟨_, rfl⟩⟩

theorem numeralOf_eq_error_iff :
    numeralOf digits = .error numeral ↔ maxDigits < digits.length ∧ numeral = ⟨digits.length⟩ := by
  unfold numeralOf
  by_cases h : digits.length > maxDigits
  · simp [h, eq_comm]
  · simp [h]

/-- A numeral of the line is too long to be read. -/
def Located.TooLong (l : Located) (numeral : LongNumeral) : Prop :=
  ∃ digits, (digits = l.line ∨ digits = l.column) ∧ maxDigits < digits.length ∧ numeral = ⟨digits.length⟩

theorem Located.tooLong_of_diagnostic (h : l.diagnostic = .error numeral) : l.TooLong numeral := by
  unfold Located.diagnostic at h
  rcases bind_eq_error_iff.1 h with hline | ⟨line, _, h⟩
  · exact ⟨l.line, .inl rfl, numeralOf_eq_error_iff.1 hline⟩
  · rcases bind_eq_error_iff.1 h with hcolumn | ⟨column, _, h⟩
    · exact ⟨l.column, .inr rfl, numeralOf_eq_error_iff.1 hcolumn⟩
    · cases h

/-- A located line gives a diagnostic if both its numerals can be read. -/
theorem Located.exists_diagnostic_iff :
    (∃ d, l.diagnostic = .ok d) ↔ l.line.length ≤ maxDigits ∧ l.column.length ≤ maxDigits := by
  rw [← exists_numeralOf_iff, ← exists_numeralOf_iff]
  unfold Located.diagnostic
  constructor
  · rintro ⟨d, h⟩
    obtain ⟨line, hline, h⟩ := bind_eq_ok_iff.1 h
    obtain ⟨column, hcolumn, _⟩ := bind_eq_ok_iff.1 h
    exact ⟨⟨line, hline⟩, column, hcolumn⟩
  · rintro ⟨⟨line, hline⟩, column, hcolumn⟩
    exact ⟨_, bind_eq_ok_iff.2 ⟨line, hline, bind_eq_ok_iff.2 ⟨column, hcolumn, rfl⟩⟩⟩

/-! ## Complaints -/

/-- The numerals of all located lines are short enough to be read. -/
def Readable (text : Text) : Prop :=
  ∀ l ∈ locatedLines text, l.line.length ≤ maxDigits ∧ l.column.length ≤ maxDigits

theorem exists_diagnosticsOf_iff : (∃ ds, diagnosticsOf text = .ok ds) ↔ Readable text := by
  have hlines : (∃ found, (locatedLines text).mapM Located.diagnostic = .ok found) ↔ Readable text := by
    rw [exists_mapM_eq_ok_iff]
    exact forall₂_congr fun _ _ => Located.exists_diagnostic_iff
  rw [← hlines]
  unfold diagnosticsOf
  constructor
  · rintro ⟨ds, h⟩
    obtain ⟨found, hfound, _⟩ := bind_eq_ok_iff.1 h
    exact ⟨found, hfound⟩
  · rintro ⟨found, hfound⟩
    exact ⟨_, bind_eq_ok_iff.2 ⟨found, hfound, rfl⟩⟩

/-- A complaint that gives no diagnostics has a numeral that is too long. -/
theorem tooLong_of_diagnosticsOf (h : diagnosticsOf text = .error numeral) :
    ∃ l ∈ locatedLines text, l.TooLong numeral := by
  unfold diagnosticsOf at h
  rcases bind_eq_error_iff.1 h with hlines | ⟨found, _, h⟩
  · obtain ⟨before, l, after, hsplit, _, hl⟩ := mapM_eq_error_iff.1 hlines
    exact ⟨l, by rw [hsplit]; simp, Located.tooLong_of_diagnostic hl⟩
  · cases h

/-- A complaint gives at least one diagnostic. -/
theorem ne_nil_of_diagnosticsOf (h : diagnosticsOf text = .ok ds) : ds ≠ [] := by
  unfold diagnosticsOf at h
  obtain ⟨found, _, h⟩ := bind_eq_ok_iff.1 h
  obtain rfl := Except.ok.inj h
  cases hfound : found.isEmpty with
  | true => simp
  | false =>
      intro hnil
      have hlength := congrArg List.length hnil
      simp only [Bool.false_eq_true, if_false, List.length_mergeSort, List.length_nil] at hlength
      rw [List.length_eq_zero_iff.1 hlength] at hfound
      cases hfound

end PolicyTable.Rego
