import PolicyTable.Rego.ErrorText
import PolicyTable.Rego.Scanner

/-!
# `PolicyTable.Rego.Extraction` — comments and diagnostics of one source

A source is first scanned. If the scan finds lexical errors, those are its diagnostics; otherwise a
grammar check decides, and a rejection gives the diagnostics of its text. The grammar check is a
parameter: any function from sources to verdicts.
-/

namespace PolicyTable.Rego

/-- What a grammar check says about a source. -/
inductive Verdict
  | accepted
  | rejected (text : Text)
  deriving DecidableEq, Repr

/-- A grammar check. -/
abbrev Grammar := Text → Verdict

/-- The diagnostics that a verdict stands for. -/
def Verdict.diagnostics : Verdict → Except LongNumeral (List Diagnostic)
  | .accepted => .ok []
  | .rejected text => diagnosticsOf text

/-- What is extracted from a source: its comments, its diagnostics, and the verdict if the grammar
    check was asked for one. -/
structure Extraction where
  comments : List Comment
  diagnostics : List Diagnostic
  verdict? : Option Verdict
  deriving DecidableEq, Repr

/-- The comments and diagnostics of a source. The grammar check is asked only about sources without
    lexical errors. -/
def extract (grammar : Grammar) (source : Text) : Except LongNumeral Extraction :=
  let found := scan source
  if found.errors.isEmpty then do
    let verdict := grammar source
    return ⟨found.comments, ← verdict.diagnostics, some verdict⟩
  else
    .ok ⟨found.comments, found.diagnostics, none⟩

end PolicyTable.Rego
