import PolicyTable.FileSystem.Path

/-!
# `PolicyTable.Policy.Selection` — which files are policy files

Policy files are told by their names, with patterns in the manner of gitignore. The patterns are given to a compiler,
which is not part of the program: any function from lines to selections may be one. The plainest compiler knows stars
and leading exclamation marks, and the last pattern that matches decides.

## Contents
- **Selections.** `Selection` and `Compiler`; `Compiler.policyFiles` is what a compiler makes of `policyLines`.
- **Plain patterns.** `Rule`, `matchesGlob` and `Compiler.plain`.
-/

namespace PolicyTable.Policy

open FileSystem (Name)

/-! ## Selections -/

/-- The names that are selected. -/
structure Selection where
  selects : Name → Bool

/-- A way to make a selection of the lines of patterns. -/
abbrev Compiler := List Text → Selection

/-- The lines that select policy files: sources of the policy language, but not their tests. -/
def policyLines : List Text := ["*.rego".toList, "!*_test.rego".toList]

/-- The selection of policy files. -/
def Compiler.policyFiles (compile : Compiler) : Selection := compile policyLines

/-! ## Plain patterns -/

/-- The line of a pattern: negated by a leading exclamation mark, or not. -/
structure Rule where
  negated : Bool
  pattern : Text
  deriving DecidableEq, Repr

/-- The rule that a line gives. -/
def Rule.ofLine : Text → Rule
  | '!' :: pattern => ⟨true, pattern⟩
  | pattern => ⟨false, pattern⟩

/-- Does the pattern match the name? A star stands for any run of characters, any other character for itself. -/
def matchesGlob : Text → Name → Bool
  | [], name => name.isEmpty
  | c :: pattern, name =>
    if c = '*' then (List.range (name.length + 1)).any fun n => matchesGlob pattern (name.drop n)
    else
      match name with
      | [] => false
      | d :: rest => c == d && matchesGlob pattern rest

/-- The compiler that knows plain patterns only. -/
def Compiler.plain : Compiler := fun lines =>
  { selects := fun name =>
      ((lines.map Rule.ofLine).reverse.find? (matchesGlob ·.pattern name)).any (!·.negated) }

end PolicyTable.Policy
