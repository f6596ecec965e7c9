import PolicyTable.Proofs.Rego.ErrorText
import PolicyTable.Rego.Extraction

/-!
# `PolicyTable.Proofs.Rego.Extraction` — an empty list of diagnostics stands for acceptance

A caller learns that a source is accepted from a list that is empty. So no complaint of a grammar check may
turn into an empty list, whatever its text, and a lexical error may not be hidden by what the grammar check
says.

## Contents
- **Verdicts.** `Verdict.diagnostics_eq_nil_iff`.
- **Stages.** `extract_of_lexical` and `extract_of_clean`: the scan decides whether the grammar check is asked.
- **Extractions.** `extract_ok` for one that gives a result, `exists_extract_error_iff` for one that does not.
-/

namespace PolicyTable.Rego

variable {grammar grammar' : Grammar} {source : Text} {found : Extraction} {numeral : LongNumeral}

/-! ## Verdicts -/

/-- **Only acceptance has no diagnostics.** -/
theorem Verdict.diagnostics_eq_nil_iff {v : Verdict} {ds : List Diagnostic} (h : v.diagnostics = .ok ds) :
    ds = [] ↔ v = .accepted := by
  cases v with
  | accepted =>
      cases h
      simp
  | rejected text => simp [ne_nil_of_diagnosticsOf h]

/-- A verdict without a list of diagnostics is a rejection with a numeral that is too long. -/
theorem Verdict.diagnostics_eq_error {v : Verdict} (h : v.diagnostics = .error numeral) :
    ∃ text, v = .rejected text ∧ ∃ l ∈ locatedLines text, l.TooLong numeral := by
  cases v with
  | accepted => cases h
  | rejected text => exact ⟨text, rfl, tooLong_of_diagnosticsOf h⟩

/-! ## Stages -/

theorem Scan.diagnostics_eq_nil_iff {s : Scan} : s.diagnostics = [] ↔ s.errors.isEmpty = true := by
  rw [Scan.diagnostics, List.map_eq_nil_iff, List.isEmpty_iff]

/-- The grammar check has no say about a source with lexical errors. -/
theorem extract_of_lexical (h : (scan source).diagnostics ≠ []) :
    extract grammar source = .ok ⟨(scan source).comments, (scan source).diagnostics, none⟩ := by
  have herrors : ¬ (scan source).errors.isEmpty = true := fun he => h (Scan.diagnostics_eq_nil_iff.2 he)
  rw [extract, if_neg herrors]

/-- The grammar check alone decides about a source without lexical errors. -/
theorem extract_of_clean (h : (scan source).diagnostics = []) :
    extract grammar source =
      (grammar source).diagnostics.map fun ds => ⟨(scan source).comments, ds, some (grammar source)⟩ := by
  rw [extract, if_pos (Scan.diagnostics_eq_nil_iff.1 h)]
  dsimp only
  cases (grammar source).diagnostics <;> rfl

/-! ## Extractions -/

/-- **What an extraction gives**: the comments of the scan, and no diagnostics if both the scan and the grammar
    check have none. -/
theorem extract_ok (h : extract grammar source = .ok found) :
    found.comments = (scan source).comments ∧
      (found.diagnostics = [] ↔ (scan source).diagnostics = [] ∧ grammar source = .accepted) ∧
      found.verdict? = if (scan source).diagnostics = [] then some (grammar source) else none := by
  by_cases hclean : (scan source).diagnostics = []
  · rw [extract_of_clean hclean] at h
    obtain ⟨ds, hds, rfl⟩ := map_eq_ok_iff.1 h
    simp [hclean, Verdict.diagnostics_eq_nil_iff hds]
  · rw [extract_of_lexical hclean] at h
    cases h
    simp [hclean]

/-- An extraction fails only over a numeral that is too long, in the complaint about a source that the grammar
    check was asked about. -/
theorem extract_error (h : extract grammar source = .error numeral) :
    (scan source).diagnostics = [] ∧
      ∃ text, grammar source = .rejected text ∧ ∃ l ∈ locatedLines text, l.TooLong numeral := by
  by_cases hclean : (scan source).diagnostics = []
  · rw [extract_of_clean hclean] at h
    exact ⟨hclean, Verdict.diagnostics_eq_error (map_eq_error_iff.1 h)⟩
  · rw [extract_of_lexical hclean] at h
    cases h

/-- **An extraction fails exactly if** the grammar check is asked and complains with a numeral that is too long. -/
theorem exists_extract_error_iff :
    (∃ numeral, extract grammar source = .error numeral) ↔
      (scan source).diagnostics = [] ∧ ∃ text, grammar source = .rejected text ∧
        ∃ l ∈ locatedLines text, maxDigits < l.line.length ∨ maxDigits < l.column.length := by
  constructor
  · rintro ⟨numeral, h⟩
    obtain ⟨hclean, text, hverdict, l, hl, digits, hdigits, htoo, _⟩ := extract_error h
    refine ⟨hclean, text, hverdict, l, hl, ?_⟩
    rcases hdigits with rfl | rfl
    · exact .inl htoo
    · exact .inr htoo
  · rintro ⟨hclean, text, hverdict, l, hl, htoo⟩
    rw [extract_of_clean hclean, hverdict, Verdict.diagnostics]
    cases hds : diagnosticsOf text with
    | error numeral => exact ⟨numeral, rfl⟩
    | ok ds =>
        have hreadable := exists_diagnosticsOf_iff.1 ⟨ds, hds⟩ l hl
        omega

/-- Two grammar checks give the same extraction of a source with lexical errors. -/
theorem extract_congr (h : (scan source).diagnostics = [] → grammar source = grammar' source) :
    extract grammar source = extract grammar' source := by
  by_cases hclean : (scan source).diagnostics = []
  · rw [extract_of_clean hclean, extract_of_clean hclean, h hclean]
  · rw [extract_of_lexical hclean, extract_of_lexical hclean]

end PolicyTable.Rego
