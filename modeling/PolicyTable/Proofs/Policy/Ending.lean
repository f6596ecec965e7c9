import Mathlib.Data.List.Induction
import PolicyTable.Policy.Selection

/-!
# `PolicyTable.Proofs.Policy.Ending` — policy files are told by how their names end

Of the compiler of patterns it is taken only that it follows gitignore on plain patterns (`Compiler.IsGitIgnore`): a
star stands for any run of characters, any other character for itself, and the last line that matches decides. Then
the selection of policy files is a matter of two endings, whatever else the name has in it.

## Contents
- **Matching.** `Glob`, and what it says of a star before a literal ending (`glob_star_iff_suffix`).
- **Lines.** `Rule.line`, `Rule.IsPlain` and `Compiler.IsGitIgnore`; which line decides among many
  (`Compiler.IsGitIgnore.selects_iff`).
- **The plainest compiler.** It is one that follows gitignore (`isGitIgnore_plain`).
- **Policy files.** `policyRules`, the rules of the lines that select them.

Main statement: `policyFiles_selects_iff`.
-/

namespace PolicyTable.Policy

open FileSystem (Name)

variable {compile : Compiler} {rules : List Rule} {r : Rule} {pattern name : Text}

/-! ## Matching -/

/-- What a pattern matches in a name without a slash. -/
inductive Glob : Text → Name → Prop
  | nil : Glob [] []
  | char {c : Char} {pattern : Text} {name : Name} (hstar : c ≠ '*') (h : Glob pattern name) :
      Glob (c :: pattern) (c :: name)
  | star (run : Text) {pattern : Text} {name : Name} (h : Glob pattern name) : Glob ('*' :: pattern) (run ++ name)

theorem glob_nil_iff : Glob [] name ↔ name = [] := by
  constructor
  · rintro ⟨⟩
    rfl
  · rintro rfl
    exact .nil

theorem glob_star_iff : Glob ('*' :: pattern) name ↔ ∃ run rest, name = run ++ rest ∧ Glob pattern rest := by
  constructor
  · intro h
    cases h with
    | char hstar => exact absurd rfl hstar
    | star run h => exact ⟨run, _, rfl, h⟩
  · rintro ⟨run, rest, rfl, h⟩
    exact .star run h

theorem glob_char_iff {c : Char} (hstar : c ≠ '*') :
    Glob (c :: pattern) name ↔ ∃ rest, name = c :: rest ∧ Glob pattern rest := by
  constructor
  · intro h
    cases h with
    | char _ h => exact ⟨_, rfl, h⟩
    | star => exact absurd rfl hstar
  · rintro ⟨rest, rfl, h⟩
    exact .char hstar h

/-- A pattern without a star matches itself only. -/
theorem glob_literal_iff (h : '*' ∉ pattern) : Glob pattern name ↔ name = pattern := by
  induction pattern generalizing name with
  | nil => exact glob_nil_iff
  | cons c pattern ih =>
      obtain ⟨hc, hrest⟩ := not_or.1 (mt List.mem_cons.2 h)
      simp [glob_char_iff (Ne.symm hc), ih hrest]

/-- A star before a literal text matches the names that end with the text. -/
theorem glob_star_iff_suffix (h : '*' ∉ pattern) : Glob ('*' :: pattern) name ↔ pattern <:+ name := by
  simp only [glob_star_iff, glob_literal_iff h]
  constructor
  · rintro ⟨run, _, rfl, rfl⟩
    exact ⟨run, rfl⟩
  · rintro ⟨run, rfl⟩
    exact ⟨run, pattern, rfl, rfl⟩

theorem matchesGlob_iff : matchesGlob pattern name = true ↔ Glob pattern name := by
  induction pattern generalizing name with
  | nil => simp [matchesGlob, glob_nil_iff]
  | cons c pattern ih =>
      by_cases hstar : c = '*'
      · subst hstar
        simp only [matchesGlob, ↓reduceIte, List.any_eq_true, List.mem_range, ih, glob_star_iff]
        constructor
        · rintro ⟨n, -, h⟩
          exact ⟨name.take n, name.drop n, (List.take_append_drop n name).symm, h⟩
        · rintro ⟨run, rest, rfl, h⟩
          exact ⟨run.length, by rw [List.length_append]; omega, by simpa using h⟩
      · cases name with
        | nil => simp [matchesGlob, hstar, glob_char_iff hstar]
        | cons d rest =>
            simp only [matchesGlob, hstar, ↓reduceIte, glob_char_iff hstar, Bool.and_eq_true, beq_iff_eq, ih]
            constructor
            · rintro ⟨rfl, h⟩
              exact ⟨rest, rfl, h⟩
            · rintro ⟨_, heq, h⟩
              obtain ⟨rfl, rfl⟩ := List.cons.inj heq
              exact ⟨rfl, h⟩

/-! ## Lines -/

/-- The line that states the rule. -/
def Rule.line (r : Rule) : Text := if r.negated then '!' :: r.pattern else r.pattern

/-- Has the character no meaning of its own in a pattern? There are others that have none. -/
def isLiteralChar (c : Char) : Bool := c.isAlphanum || c == '.' || c == '_' || c == '-'

/-- A plain rule: its pattern is made of stars and literal characters, and is not only stars and points. -/
structure Rule.IsPlain (r : Rule) : Prop where
  chars : (r.pattern.all fun c => c == '*' || isLiteralChar c) = true
  letter : r.pattern.any Char.isAlphanum = true

/-- What gitignore says of a compiler, as far as plain rules and the names of files in one directory go. -/
structure Compiler.IsGitIgnore (compile : Compiler) : Prop where
  /-- Without a line nothing is selected. -/
  nil : ∀ name, (compile []).selects name = false
  /-- The last line decides if it matches. -/
  last : ∀ (rules : List Rule) (r : Rule) (name : Name), (∀ r' ∈ rules, r'.IsPlain) → r.IsPlain → '/' ∉ name →
    '\n' ∉ name → Glob r.pattern name → (compile (rules.map Rule.line ++ [r.line])).selects name = !r.negated
  /-- If it does not match, it is as if it were not there. -/
  front : ∀ (rules : List Rule) (r : Rule) (name : Name), (∀ r' ∈ rules, r'.IsPlain) → r.IsPlain → '/' ∉ name →
    '\n' ∉ name → ¬ Glob r.pattern name →
      (compile (rules.map Rule.line ++ [r.line])).selects name = (compile (rules.map Rule.line)).selects name

/-- Where a list is cut at an element, the last one is that element, or it stands behind it. -/
theorem eq_last_or_behind {last : Rule} {before after : List Rule} (h : rules ++ [last] = before ++ r :: after) :
    after = [] ∧ r = last ∨ ∃ front, after = front ++ [last] ∧ rules = before ++ r :: front := by
  rcases List.eq_nil_or_concat after with rfl | ⟨front, r', rfl⟩
  · obtain ⟨-, hr⟩ := List.append_inj' h rfl
    exact .inl ⟨rfl, (List.singleton_inj.1 hr).symm⟩
  · rw [List.concat_eq_append, ← List.cons_append, ← List.append_assoc] at h
    obtain ⟨hfront, hr⟩ := List.append_inj' h rfl
    exact .inr ⟨front, by rw [List.concat_eq_append, hr], hfront⟩

/-- **The last line that matches decides.** -/
theorem Compiler.IsGitIgnore.selects_iff (h : compile.IsGitIgnore) (hplain : ∀ r ∈ rules, r.IsPlain)
    (hslash : '/' ∉ name) (hnewline : '\n' ∉ name) :
    (compile (rules.map Rule.line)).selects name = true ↔
      ∃ before r after, rules = before ++ r :: after ∧ Glob r.pattern name ∧ r.negated = false ∧
        ∀ r' ∈ after, ¬ Glob r'.pattern name := by
  induction rules using List.reverseRecOn with
  | nil => simp [h.nil]
  | append_singleton rules last ih =>
      have hrules : ∀ r ∈ rules, r.IsPlain := fun r hr => hplain r (List.mem_append_left _ hr)
      have hline : last.IsPlain := hplain last (by simp)
      rw [List.map_append, List.map_singleton]
      by_cases hlast : Glob last.pattern name
      · -- The line that decides has no line behind it that matches, so it is the last one.
        rw [h.last rules last name hrules hline hslash hnewline hlast, Bool.not_eq_true']
        constructor
        · intro hnegated
          exact ⟨rules, last, [], rfl, hlast, hnegated, by simp⟩
        · rintro ⟨before, r, after, hcut, -, hnegated, hafter⟩
          rcases eq_last_or_behind hcut with ⟨-, rfl⟩ | ⟨front, rfl, -⟩
          · exact hnegated
          · exact absurd hlast (hafter last (by simp))
      · rw [h.front rules last name hrules hline hslash hnewline hlast, ih hrules]
        constructor
        · rintro ⟨before, r, after, rfl, hmatch, hnegated, hafter⟩
          refine ⟨before, r, after ++ [last], by simp, hmatch, hnegated, fun r' hr' => ?_⟩
          rcases List.mem_append.1 hr' with hr' | hr'
          · exact hafter r' hr'
          · rwa [List.mem_singleton.1 hr']
        · rintro ⟨before, r, after, hcut, hmatch, hnegated, hafter⟩
          rcases eq_last_or_behind hcut with ⟨-, rfl⟩ | ⟨front, rfl, rfl⟩
          · exact absurd hmatch hlast
          · exact ⟨before, r, front, rfl, hmatch, hnegated, fun r' hr' => hafter r' (List.mem_append_left _ hr')⟩

/-! ## The plainest compiler -/

theorem ofLine_line (h : r.IsPlain) : Rule.ofLine r.line = r := by
  obtain ⟨negated, pattern⟩ := r
  cases negated with
  | true => rfl
  | false =>
      show Rule.ofLine pattern = ⟨false, pattern⟩
      unfold Rule.ofLine
      split
      · have hbang := List.all_eq_true.1 h.chars '!' (by simp)
        exact absurd hbang (by decide)
      · rfl

/-- What the plainest compiler makes of one line more. -/
theorem selects_plain_concat (hrules : ∀ r' ∈ rules, r'.IsPlain) (hr : r.IsPlain) :
    (Compiler.plain (rules.map Rule.line ++ [r.line])).selects name =
      if matchesGlob r.pattern name then !r.negated else (Compiler.plain (rules.map Rule.line)).selects name := by
  have hofLine : ∀ r' ∈ rules, (Rule.ofLine ∘ Rule.line) r' = r' := fun r' hr' => ofLine_line (hrules r' hr')
  simp only [Compiler.plain, List.map_append, List.map_map, List.map_singleton, ofLine_line hr,
    List.map_congr_left hofLine, List.reverse_append, List.reverse_singleton, List.singleton_append, List.find?_cons]
  cases matchesGlob r.pattern name <;> simp

theorem isGitIgnore_plain : Compiler.plain.IsGitIgnore where
  nil _ := rfl
  last _ _ _ hrules hr _ _ hmatch := by rw [selects_plain_concat hrules hr, if_pos (matchesGlob_iff.2 hmatch)]
  front _ _ _ hrules hr _ _ hmatch := by rw [selects_plain_concat hrules hr, if_neg (mt matchesGlob_iff.1 hmatch)]

/-! ## Policy files -/

/-- The rules of policy files: sources are selected, and tests are not. -/
def policyRules : List Rule := [⟨false, "*.rego".toList⟩, ⟨true, "*_test.rego".toList⟩]

theorem policyRules_line : policyRules.map Rule.line = policyLines := rfl

theorem isPlain_policyRules (h : r ∈ policyRules) : r.IsPlain := by
  simp only [policyRules, List.mem_cons, List.not_mem_nil, or_false] at h
  rcases h with rfl | rfl
  · exact ⟨by decide, by decide⟩
  · exact ⟨by decide, by decide⟩

/-- **A policy file has a name that ends as a source does, and not as a test does.** Capital letters are not small
    ones, and whatever stands before the ending is no matter. -/
theorem policyFiles_selects_iff (hgit : compile.IsGitIgnore) (hslash : '/' ∉ name) (hnewline : '\n' ∉ name) :
    compile.policyFiles.selects name = true ↔ ".rego".toList <:+ name ∧ ¬ "_test.rego".toList <:+ name := by
  have hsource : Glob "*.rego".toList name ↔ ".rego".toList <:+ name := glob_star_iff_suffix (by decide)
  have htest : Glob "*_test.rego".toList name ↔ "_test.rego".toList <:+ name := glob_star_iff_suffix (by decide)
  rw [Compiler.policyFiles, ← policyRules_line,
    hgit.selects_iff (fun _ hr => isPlain_policyRules hr) hslash hnewline, ← hsource, ← htest]
  constructor
  · rintro ⟨before, r, after, heq, hmatch, hnegated, hafter⟩
    -- The line that decides is not negated, so it is the first one, and the other one stands behind it.
    match before, heq with
    | [], heq =>
        obtain ⟨rfl, rfl⟩ := List.cons.inj heq
        exact ⟨hmatch, hafter ⟨true, "*_test.rego".toList⟩ (List.mem_singleton_self _)⟩
    | [_], heq =>
        obtain ⟨-, heq⟩ := List.cons.inj heq
        obtain ⟨rfl, -⟩ := List.cons.inj heq
        exact absurd hnegated (by decide)
    | _ :: _ :: before, heq => simp [policyRules] at heq
  · rintro ⟨hmatch, hafter⟩
    refine ⟨[], ⟨false, "*.rego".toList⟩, [⟨true, "*_test.rego".toList⟩], rfl, hmatch, rfl, fun r' hr' => ?_⟩
    rwa [List.mem_singleton.1 hr']

/-- A name with a blank, a star, a backslash and a point in it. -/
theorem policyFiles_selects_odd :
    '/' ∉ "a b*\\.x_test.y.rego".toList ∧ '\n' ∉ "a b*\\.x_test.y.rego".toList ∧
      Compiler.plain.policyFiles.selects "a b*\\.x_test.y.rego".toList = true := by
  have hslash : '/' ∉ "a b*\\.x_test.y.rego".toList := by decide
  have hnewline : '\n' ∉ "a b*\\.x_test.y.rego".toList := by decide
  exact ⟨hslash, hnewline, (policyFiles_selects_iff isGitIgnore_plain hslash hnewline).2 (by decide)⟩

end PolicyTable.Policy
