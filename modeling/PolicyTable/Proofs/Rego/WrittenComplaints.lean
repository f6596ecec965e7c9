import PolicyTable.Proofs.Rego.LocatedLines
import PolicyTable.Proofs.Text.Numerals

/-!
# `PolicyTable.Proofs.Rego.WrittenComplaints` — complaints that are written are read back

A parser writes its complaint entry by entry: a line with the message and the place, and lines of context behind it.
As long as no message and no context has the dashes in it, each entry is read back as one diagnostic.

The dashes behind a message may overlap with its end, where the message ends in dashes itself. The line is read with
the whole message all the same: a shorter one would leave a module name that begins with two hyphens and goes on with
a blank (`not_nameThenColon`).

## Contents
- **Writing.** `ErrorEntry`, its lines and its diagnostic, and `complaintOf` a list of entries.
- **Reading.** The first line of an entry has the expected reading (`ErrorEntry.counts_headLine`), its context is not
  located (`not_isLocated_of_not_infix`).

Main statement: `diagnosticsOf_complaintOf`.
-/

namespace PolicyTable.Rego

variable {t m n : Text}

/-! ## Writing -/

/-- The module name in the complaints about a policy. -/
def policyModule : Text := "policy".toList

/-- An error that a parser complains of: its message, its place, and some lines of context. -/
structure ErrorEntry where
  message : Text
  line : Nat
  column : Nat
  context : List Text
  message_ne : message ≠ []
  message_newline : '\n' ∉ message
  message_dashes : ¬ dashes <:+: message
  context_newline : ∀ t ∈ context, '\n' ∉ t
  context_dashes : ∀ t ∈ context, ¬ dashes <:+: t
  line_short : (Text.ofNat line).length ≤ maxDigits
  column_short : (Text.ofNat column).length ≤ maxDigits

namespace ErrorEntry

/-- The line with the message and the place. -/
def headLine (e : ErrorEntry) : Text :=
  e.message ++ dashes ++ policyModule ++ ':' :: Text.ofNat e.line ++ ':' :: Text.ofNat e.column

/-- The lines of an entry. -/
def lines (e : ErrorEntry) : List Text := e.headLine :: e.context

/-- The diagnostic of an entry. -/
def diagnostic (e : ErrorEntry) : Diagnostic := ⟨e.line, e.column, Text.trim e.message⟩

/-- The first line of an entry as it was written. -/
def reading (e : ErrorEntry) : LineReading :=
  ⟨e.message, policyModule, Text.ofNat e.line, Text.ofNat e.column, []⟩

end ErrorEntry

/-- The complaint with some entries. -/
def complaintOf (entries : List ErrorEntry) : Text :=
  List.intercalate ['\n'] (entries.flatMap ErrorEntry.lines)

/-! ## Reading -/

theorem policyModule_ne : policyModule ≠ [] := by decide

theorem policyModule_not_blank : ∀ c ∈ policyModule, Text.isBlank c = false := by
  have hall : policyModule.all (!Text.isBlank ·) = true := by decide
  intro c hc
  simpa using List.all_eq_true.1 hall c hc

/-- Two hyphens and a space are not the beginning of a module name with a colon behind it. -/
theorem not_nameThenColon {name : Text} (hne : name ≠ []) (hname : ∀ c ∈ name, Text.isBlank c = false)
    (h : '-' :: '-' :: ' ' :: t = name ++ ':' :: n) : False := by
  have hspace : Text.isBlank ' ' = true := by decide
  match name with
  | [] => exact hne rfl
  | [_] => simp at h
  | [_, _] => simp at h
  | _ :: _ :: c :: _ =>
      obtain rfl : ' ' = c := by
        simp only [List.cons_append, List.cons.injEq] at h
        exact h.2.2.1
      have hblank := hname ' ' (by simp)
      rw [hspace] at hblank
      cases hblank

theorem dashes_eq : dashes = [' ', '-', '-', ' '] := rfl

/-- **Dashes do not begin at the end of a text without dashes**, unless two hyphens and a space stand behind them. -/
theorem dashes_overlap {u : Text} (hu : u ≠ []) (hnot : ¬ dashes <:+: u) (h : u ++ (dashes ++ t) = dashes ++ n) :
    n = '-' :: '-' :: ' ' :: t := by
  rw [dashes_eq] at h hnot
  match u with
  | [] => exact absurd rfl hu
  | [_] => simp at h
  | [_, _] => simp at h
  | [_, _, _] =>
      simp only [List.cons_append, List.nil_append, List.cons.injEq, true_and] at h
      exact h.2.2.2.symm
  | a :: b :: c :: d :: v =>
      simp only [List.cons_append, List.nil_append, List.cons.injEq] at h
      obtain ⟨rfl, rfl, rfl, rfl, _⟩ := h
      exact absurd ⟨[], v, rfl⟩ hnot

namespace LineReading

variable {s : LineReading} {line : Text}

/-- A located line has dashes in it. -/
theorem Reads.infix_dashes (h : s.Reads line) : dashes <:+: line :=
  ⟨s.message, s.moduleName ++ s.numerals, by rw [h.eq_append, List.append_assoc]⟩

end LineReading

theorem not_isLocated_of_not_infix {line : Text} (h : ¬ dashes <:+: line) : ¬ IsLocated line := by
  rintro ⟨s, hs⟩
  exact h hs.infix_dashes

namespace ErrorEntry

variable (e : ErrorEntry)

theorem reads_headLine : e.reading.Reads e.headLine where
  parts := by simp [headLine, reading]
  message_ne := e.message_ne
  moduleName_ne := policyModule_ne
  moduleName_not_blank := policyModule_not_blank
  line_ne := Text.ofNat_ne_nil e.line
  line_digits := fun _ hc => Text.isDigit_of_mem_ofNat hc
  column_ne := Text.ofNat_ne_nil e.column
  column_digits := fun _ hc => Text.isDigit_of_mem_ofNat hc

variable {e} {s : LineReading}

/-- A shorter message would leave a part of the written one before the dashes. -/
theorem message_le (hs : s.Reads e.headLine) : e.message.length ≤ s.message.length := by
  by_contra hlt
  have hprefix : s.message <+: e.message := by
    have hread : s.message <+: e.headLine := ⟨_, hs.eq_append.symm⟩
    have hwritten : e.message <+: e.headLine := ⟨_, e.reads_headLine.eq_append.symm⟩
    exact List.prefix_of_prefix_length_le hread hwritten (Nat.le_of_not_le hlt)
  obtain ⟨u, hu⟩ := hprefix
  have hne : u ≠ [] := by
    rintro rfl
    rw [List.append_nil] at hu
    exact hlt (Nat.le_of_eq (congrArg List.length hu.symm))
  have hnot : ¬ dashes <:+: u := by
    intro hin
    apply e.message_dashes
    rw [← hu]
    exact hin.trans (List.suffix_append s.message u).isInfix
  have heq := e.reads_headLine.eq_append.symm.trans hs.eq_append
  rw [show e.reading.message = s.message ++ u from hu.symm, List.append_assoc] at heq
  exact not_nameThenColon hs.moduleName_ne hs.moduleName_not_blank
    (dashes_overlap hne hnot (List.append_cancel_left heq)).symm

/-- A shorter module name would end before a colon, and there is none in the written one. -/
theorem moduleName_le (hs : s.Reads e.headLine) (hmessage : s.message = e.message) :
    policyModule.length ≤ s.moduleName.length := by
  by_contra hlt
  have heq := e.reads_headLine.eq_append.symm.trans hs.eq_append
  rw [hmessage] at heq
  have hbehind : policyModule ++ e.reading.numerals = s.moduleName ++ s.numerals :=
    List.append_cancel_left (List.append_cancel_left heq)
  have hprefix : s.moduleName ++ [':'] <+: policyModule := by
    have hread : s.moduleName ++ [':'] <+: policyModule ++ e.reading.numerals := by
      rw [hbehind]
      exact (List.prefix_append_right_inj _).2 ⟨_, rfl⟩
    apply List.prefix_of_prefix_length_le hread (List.prefix_append _ _)
    rw [List.length_append]
    exact Nat.lt_of_not_le hlt
  have hcolon : ':' ∈ policyModule := hprefix.subset (by simp)
  exact absurd hcolon (by decide)

/-- The written column is followed by nothing. -/
theorem column_ge (hs : s.Reads e.headLine) (hmessage : s.message = e.message)
    (hmodule : s.moduleName = policyModule) : s.column.length ≤ (Text.ofNat e.column).length := by
  have hfound := hs.numerals?_eq
  rw [e.reads_headLine.numerals_eq hs hmessage hmodule, e.reads_headLine.numerals?_eq] at hfound
  obtain ⟨_, hcolumn⟩ := Prod.mk.inj (Option.some.inj hfound)
  have hlength := congrArg List.length hcolumn
  simp only [reading, List.takeWhile_nil, List.append_nil, List.length_append] at hlength
  omega

variable (e)

/-- **The first line of an entry is read as it was written.** -/
theorem counts_headLine : e.reading.Counts e.headLine :=
  { e.reads_headLine with
    message_le := fun _ => message_le
    moduleName_le := fun _ => moduleName_le
    column_ge := fun _ => column_ge }

/-- The first line of an entry is located, and it is the only one of its lines. -/
theorem filterMap_lines : e.lines.filterMap Located.ofLine? = [e.reading.located] := by
  have hhead : Located.ofLine? e.headLine = some e.reading.located :=
    ofLine?_eq_some_iff.2 ⟨e.reading, e.counts_headLine, rfl⟩
  have hcontext : e.context.filterMap Located.ofLine? = [] := by
    rw [List.filterMap_eq_nil_iff]
    intro t ht
    have hnot := not_isLocated_of_not_infix (e.context_dashes t ht)
    simpa [isLocated_iff] using hnot
  rw [lines, List.filterMap_cons_some hhead, hcontext]

theorem newline_not_mem_lines : ∀ t ∈ e.lines, '\n' ∉ t := by
  have hnumeral : ∀ n, '\n' ∉ Text.ofNat n := by
    intro n hn
    exact absurd (Text.isDigit_of_mem_ofNat hn) (by decide)
  have hdashes : '\n' ∉ dashes := by decide
  have hmodule : '\n' ∉ policyModule := by decide
  intro t ht
  rcases List.mem_cons.1 ht with rfl | ht
  · simp [headLine, e.message_newline, hnumeral, hdashes, hmodule]
  · exact e.context_newline t ht

theorem diagnostic_located : e.reading.located.diagnostic = .ok e.diagnostic := by
  have hvalue : e.reading.diagnostic = e.diagnostic := by
    simp only [LineReading.diagnostic, reading, diagnostic, Text.numeralValue_ofNat]
  rw [← hvalue]
  exact LineReading.diagnostic_located e.line_short e.column_short

end ErrorEntry

variable {entries : List ErrorEntry}

/-- **The located lines of a written complaint are the first lines of its entries.** -/
theorem locatedLines_complaintOf (hne : entries ≠ []) :
    locatedLines (complaintOf entries) = entries.map fun e => e.reading.located := by
  have hlines : entries.flatMap ErrorEntry.lines ≠ [] := by
    obtain ⟨e, r, rfl⟩ := List.exists_cons_of_ne_nil hne
    simp [ErrorEntry.lines]
  have hnewline : ∀ t ∈ entries.flatMap ErrorEntry.lines, '\n' ∉ t := by
    intro t ht
    obtain ⟨e, _, he⟩ := List.mem_flatMap.1 ht
    exact e.newline_not_mem_lines t he
  rw [locatedLines, complaintOf, Text.split_intercalate hnewline hlines]
  clear hne hlines hnewline
  induction entries with
  | nil => rfl
  | cons e r ih =>
      rw [List.flatMap_cons, List.filterMap_append, e.filterMap_lines, ih, List.map_cons, List.singleton_append]

/-- **A written complaint is read back.** It gives one diagnostic for each entry, with the number of its line, that of
    its column and its message without blanks at the ends, in the order of the places. -/
theorem diagnosticsOf_complaintOf (hne : entries ≠ []) :
    ∃ ds, diagnosticsOf (complaintOf entries) = .ok ds ∧
      InPlaceOrder (entries.map ErrorEntry.diagnostic) ds := by
  have hfound : (locatedLines (complaintOf entries)).mapM Located.diagnostic =
      .ok (entries.map ErrorEntry.diagnostic) := by
    rw [locatedLines_complaintOf hne, mapM_eq_ok_iff, List.forall₂_map_left_iff, List.forall₂_map_right_iff]
    exact List.forall₂_same.2 fun e _ => e.diagnostic_located
  exact ⟨_, diagnosticsOf_of_found hfound (by simpa using hne), inPlaceOrder_mergeSort _⟩

/-- Three entries, two of them of one place. The first message ends in hyphens, the second one begins with them, the
    last one is blank, and one line of context has a place in it. -/
def overlappingEntries : List ErrorEntry :=
  [{ message := " late --".toList, line := 12, column := 3, context := ["  at x:1:2".toList, []]
     message_ne := by decide, message_newline := by decide
     message_dashes := by rw [← Text.has_iff]; decide
     context_newline := by decide
     context_dashes := by simp only [← Text.has_iff]; decide
     line_short := by decide, column_short := by decide },
   { message := "-- early:".toList, line := 2, column := 40, context := []
     message_ne := by decide, message_newline := by decide
     message_dashes := by rw [← Text.has_iff]; decide
     context_newline := by decide, context_dashes := by simp
     line_short := by decide, column_short := by decide },
   { message := " ".toList, line := 12, column := 3, context := []
     message_ne := by decide, message_newline := by decide
     message_dashes := by rw [← Text.has_iff]; decide
     context_newline := by decide, context_dashes := by simp
     line_short := by decide, column_short := by decide }]

theorem diagnosticsOf_complaintOf_overlapping :
    overlappingEntries ≠ [] ∧
      complaintOf overlappingEntries =
        " late -- -- policy:12:3\n  at x:1:2\n\n-- early: -- policy:2:40\n  -- policy:12:3".toList ∧
      overlappingEntries.map ErrorEntry.diagnostic =
        [⟨12, 3, "late --".toList⟩, ⟨2, 40, "-- early:".toList⟩, ⟨12, 3, []⟩] ∧
      ∃ ds, diagnosticsOf (complaintOf overlappingEntries) = .ok ds ∧
        InPlaceOrder (overlappingEntries.map ErrorEntry.diagnostic) ds := by
  have hne : overlappingEntries ≠ [] := List.cons_ne_nil _ _
  exact ⟨hne, by decide +kernel, by decide +kernel, diagnosticsOf_complaintOf hne⟩

end PolicyTable.Rego
