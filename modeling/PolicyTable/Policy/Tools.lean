import PolicyTable.Policy.Selection
import PolicyTable.Rego.Extraction

/-!
# `PolicyTable.Policy.Tools` — what a run takes from elsewhere

The grammar check of the policy language, the compiler of patterns and the printer of lines are not part of the
program. A run is given them.
-/

namespace PolicyTable.Policy

/-- The tools of a run: a grammar check, a compiler of patterns, and what a printer writes for a line. -/
structure Tools where
  grammar : Rego.Grammar
  compile : Compiler
  print : Text → Text

/-- The selection of policy files that the tools give. -/
def Tools.policyFiles (tools : Tools) : Selection := tools.compile.policyFiles

/-- The plainest tools: every source is accepted, patterns are plain, and a line is printed as it is. -/
def Tools.plain : Tools where
  grammar := fun _ => .accepted
  compile := .plain
  print := fun line => line ++ ['\n']

end PolicyTable.Policy
