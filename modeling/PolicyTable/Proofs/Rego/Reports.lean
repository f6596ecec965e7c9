import Mathlib.Data.List.Nodup
import PolicyTable.Proofs.Rego.Offsets
import PolicyTable.Proofs.Rego.Pairing

/-!
# `PolicyTable.Proofs.Rego.Reports` — the errors of a source, character by character

Every error is about one character, and a character has at most one. Which one follows from the zone of
the character, from the text behind it if it opens a literal, and from the pairing of the brackets of code.
The scanner comes to the same errors in another order: that of a literal when it leaves it, and those of
open brackets at the very end.

## Contents
- **Brackets.** `marks`, the brackets of code, and their `bracketPairs`.
- **Faults.** `fault` of one character, and `errorsBefore` an offset.
- **Simulation.** `Caught` ties errors and open brackets to the offsets read, and `Reported` does so for a
  state of the scanner; every step keeps it (`Scanner.Step.reported`).

Main statement: `scan_errors_eq`.
-/

namespace PolicyTable.Rego

open Scanner (Reaches Step step_eq_none_iff rest_advance start)

/-! ## Brackets -/

/-- The bracket that a character of code is. -/
def markOf (before : Text) (c : Char) (_rest : Text) : Option Mark :=
  if Zone.after before = .code then
    match Bracket.ofOpening? c, Bracket.ofClosing? c with
    | some b, _ => some ⟨before.length, b, true⟩
    | none, some b => some ⟨before.length, b, false⟩
    | none, none => none
  else none

/-- The brackets of the code of a source. -/
def marks (source : Text) : List Mark := gather markOf source source.length

/-- The pairs of brackets of a source, by their offsets. -/
def bracketPairs (source : Text) : List (Nat × Nat) := (pairing (marks source)).pairs

variable {source before rest : Text} {c : Char} {b : Bracket} {m : Mark}

theorem markOf_opening (hz : Zone.after before = .code) :
    markOf before b.opening rest = some ⟨before.length, b, true⟩ := by
  simp [markOf, hz]

theorem markOf_closing (hz : Zone.after before = .code) :
    markOf before b.closing rest = some ⟨before.length, b, false⟩ := by
  simp [markOf, hz, (Bracket.closing_ne b).2.2.2]

theorem markOf_of_zone (hz : Zone.after before ≠ .code) : markOf before c rest = none :=
  if_neg hz

theorem markOf_of_no_bracket (ho : Bracket.ofOpening? c = none) (hc : Bracket.ofClosing? c = none) :
    markOf before c rest = none := by
  simp [markOf, ho, hc]

/-- A mark stands in code, and its character is that of its bracket. -/
theorem markOf_eq_some (h : markOf before c rest = some m) :
    Zone.after before = .code ∧ m.offset = before.length ∧
      c = if m.opens then m.bracket.opening else m.bracket.closing := by
  unfold markOf at h
  split at h
  · rename_i hz
    split at h
    · rename_i ho
      obtain rfl := Option.some.inj h
      exact ⟨hz, rfl, Bracket.ofOpening?_eq_some_iff.1 ho⟩
    · rename_i hc
      obtain rfl := Option.some.inj h
      exact ⟨hz, rfl, Bracket.ofClosing?_eq_some_iff.1 hc⟩
    · cases h
  · cases h

theorem marks_concat (before : Text) (c : Char) :
    marks (before ++ [c]) = marks before ++ (markOf before c []).toList := by
  have hpre : gather markOf (before ++ [c]) before.length = marks before :=
    gather_append fun _ _ _ _ => rfl
  rw [marks, gather_concat, hpre]

theorem marks_append (before rest : Text) : ∃ later, marks (before ++ rest) = marks before ++ later := by
  induction rest using List.reverseRecOn with
  | nil => exact ⟨[], by simp⟩
  | append_singleton rest c ih =>
      obtain ⟨later, hl⟩ := ih
      rw [← List.append_assoc, marks_concat, hl, List.append_assoc]
      exact ⟨_, rfl⟩

/-- A mark stands behind those of the text before it. -/
theorem marks_eq_append (h : markOf before c rest = some m) :
    ∃ later, marks (before ++ c :: rest) = marks before ++ m :: later := by
  obtain ⟨later, hl⟩ := marks_append (before ++ [c]) rest
  have hm : markOf before c [] = some m := h
  rw [marks_concat, hm, List.append_assoc, List.append_assoc] at hl
  exact ⟨later, hl⟩

theorem offset_lt_of_mem_marks (h : m ∈ marks source) : m.offset < source.length := by
  obtain ⟨k, hk, hr⟩ := mem_gather_iff.1 h
  obtain ⟨before, c, rest, rfl, rfl, hm⟩ := readAt_eq_some_iff.1 hr
  rw [(markOf_eq_some hm).2.1]
  exact hk

theorem inOrder_marks (source : Text) : InOrder (marks source) := by
  induction source using List.reverseRecOn with
  | nil => exact .nil
  | append_singleton before c ih =>
      rw [marks_concat]
      cases hm : markOf before c [] with
      | none => simpa using ih
      | some m =>
          refine List.pairwise_append.2 ⟨ih, List.pairwise_singleton _ m, fun n hn m' hm' => ?_⟩
          obtain rfl := List.mem_singleton.1 hm'
          rw [(markOf_eq_some hm).2.1]
          exact offset_lt_of_mem_marks hn

/-! ## Faults -/

/-- Does the text behind a character end the literal that it stands in, by a quote and not by a line
    end? -/
def closes : Zone → Text → Bool
  | _, [] => false
  | z, c :: r => if z.next c = .code then decide (c ≠ '\n') else closes (z.next c) r

/-- The fault of a character of code. -/
def codeFault (pairs : List (Nat × Nat)) (offset : Nat) (c : Char) (rest : Text) : Option LexicalFault :=
  if c = '"' then if closes .string rest then none else some .unterminatedString
  else if c = '\x60' then if closes .raw rest then none else some .unterminatedRaw
  else
    match Bracket.ofOpening? c, Bracket.ofClosing? c with
    | some b, _ => if offset ∈ pairs.map (·.1) then none else some (.unclosed b)
    | none, some b => if offset ∈ pairs.map (·.2) then none else some (.unexpected b)
    | none, none => if c ∈ illegalCharacters then some (.illegal c) else none

/-- The fault of a character. In a literal there is but one: the backslash in front of the line end that
    cuts a string off. -/
def fault (pairs : List (Nat × Nat)) (before : Text) (c : Char) (rest : Text) : Option LexicalFault :=
  match Zone.after before with
  | .code => codeFault pairs before.length c rest
  | .string => if c = '\\' ∧ rest.head? = some '\n' then some (.illegal c) else none
  | _ => none

/-- The fault at an offset of a source. -/
def faultAt (source : Text) (offset : Nat) : Option LexicalFault :=
  readAt (fault (bracketPairs source)) source offset

/-- The errors at the offsets before one. -/
def errorsBefore (source : Text) (offset : Nat) : List LexicalError :=
  (List.range offset).filterMap fun k => (faultAt source k).map (⟨placeAt source k, ·⟩)

/-- Is the fault known only at the end of a source? -/
def LexicalFault.isUnclosed : LexicalFault → Bool
  | .unclosed _ => true
  | _ => false

/-- The errors at the offsets before one, less those that are known only at the end. -/
def metBefore (source : Text) (offset : Nat) : List LexicalError :=
  (errorsBefore source offset).filter fun e => !e.fault.isUnclosed

theorem closes_cons {z : Zone} {r : Text} (h : z.next c ≠ .code) :
    closes z (c :: r) = closes (z.next c) r := if_neg h

theorem metBefore_concat (hs : source = before ++ c :: rest) :
    metBefore source (before ++ [c]).length = metBefore source before.length ++
      ((fault (bracketPairs source) before c rest).toList.filter (!·.isUnclosed)).map
        (⟨.after before, ·⟩) := by
  have hf : faultAt source before.length = fault (bracketPairs source) before c rest := readAt_of_eq hs
  have hp : placeAt source before.length = .after before := by rw [hs, placeAt_length]
  unfold metBefore errorsBefore
  rw [List.length_append, List.length_singleton, List.range_succ, List.filterMap_append, List.filter_append]
  congr 1
  cases h : fault (bracketPairs source) before c rest with
  | none => simp [hf, h]
  | some f => cases hu : f.isUnclosed <;> simp [hf, hp, h, hu]

theorem fault_of_zone {pairs : List (Nat × Nat)} (hc : Zone.after before ≠ .code)
    (hs : ¬ (Zone.after before = .string ∧ c = '\\' ∧ rest.head? = some '\n')) :
    fault pairs before c rest = none := by
  unfold fault
  split
  · rename_i hz
    exact absurd hz hc
  · rename_i hz
    exact if_neg fun h => hs ⟨hz, h⟩
  · rfl

theorem fault_of_code {pairs : List (Nat × Nat)} (hz : Zone.after before = .code) :
    fault pairs before c rest = codeFault pairs before.length c rest := by
  simp [fault, hz]

/-- In code, what is not reserved and what starts a comment has no fault. -/
theorem codeFault_plain {pairs : List (Nat × Nat)} {k : Nat} (hc : c ∉ reserved ∨ c = '#') :
    codeFault pairs k c rest = none := by
  rcases hc with hc | rfl
  · rw [mem_reserved_iff] at hc
    simp only [not_or, Option.not_isSome_iff_eq_none] at hc
    obtain ⟨_, h2, h3, h4, h5, h6⟩ := hc
    simp [codeFault, h2, h3, h4, h5, h6]
  · rfl

theorem codeFault_illegal {pairs : List (Nat × Nat)} {k : Nat} (hc : c ∈ illegalCharacters) :
    codeFault pairs k c rest = some (.illegal c) := by
  obtain ⟨_, h2, h3, h4, h5⟩ := illegal_ne hc
  simp [codeFault, h2, h3, h4, h5, hc]

theorem codeFault_opening {pairs : List (Nat × Nat)} {k : Nat} :
    codeFault pairs k b.opening rest = if k ∈ pairs.map (·.1) then none else some (.unclosed b) := by
  obtain ⟨_, h2, h3⟩ := Bracket.opening_ne b
  simp only [codeFault, h2, h3, if_false, Bracket.ofOpening?_opening]

theorem codeFault_closing {pairs : List (Nat × Nat)} {k : Nat} :
    codeFault pairs k b.closing rest = if k ∈ pairs.map (·.2) then none else some (.unexpected b) := by
  obtain ⟨_, h2, h3, h4⟩ := Bracket.closing_ne b
  simp only [codeFault, h2, h3, h4, if_false, Bracket.ofClosing?_closing]

/-! ## Simulation -/

/-- The errors and the open brackets are those of the text read so far. -/
structure Caught (source before : Text) (errors : List LexicalError)
    (brackets : List (Bracket × Position)) : Prop where
  errors_eq : metBefore source before.length = errors
  brackets_eq : brackets =
    (pairing (marks before)).waiting.map fun m => (m.bracket, placeAt source m.offset)

variable {errors : List LexicalError} {brackets outer : List (Bracket × Position)} {p : Position}

/-- A character that is no bracket and has no fault changes nothing. -/
theorem Caught.quiet (h : Caught source before errors brackets) (hs : source = before ++ c :: rest)
    (hm : markOf before c rest = none) (hf : fault (bracketPairs source) before c rest = none) :
    Caught source (before ++ [c]) errors brackets where
  errors_eq := by rw [metBefore_concat hs, hf, h.errors_eq]; simp
  brackets_eq := by
    have hm' : markOf before c [] = none := hm
    rw [marks_concat, hm', h.brackets_eq]
    simp

/-- A character that is no bracket adds its fault. -/
theorem Caught.faulty {f : LexicalFault} (h : Caught source before errors brackets)
    (hs : source = before ++ c :: rest) (hm : markOf before c rest = none)
    (hf : fault (bracketPairs source) before c rest = some f) (hu : f.isUnclosed = false) :
    Caught source (before ++ [c]) (errors ++ [⟨.after before, f⟩]) brackets where
  errors_eq := by
    rw [metBefore_concat hs, hf, h.errors_eq]
    simp [hu]
  brackets_eq := by
    have hm' : markOf before c [] = none := hm
    rw [marks_concat, hm', h.brackets_eq]
    simp

/-- An opening bracket is open; whether it stays so is not known yet. -/
theorem Caught.opening (h : Caught source before errors brackets)
    (hs : source = before ++ b.opening :: rest) (hz : Zone.after before = .code) :
    Caught source (before ++ [b.opening]) errors ((b, .after before) :: brackets) where
  errors_eq := by
    rw [metBefore_concat hs, fault_of_code hz, codeFault_opening, h.errors_eq]
    split <;> simp [LexicalFault.isUnclosed]
  brackets_eq := by
    rw [marks_concat, markOf_opening hz, Option.toList_some, pairing_concat, Pairing.next_opening rfl,
      List.map_cons, h.brackets_eq, hs, placeAt_length]

/-- The pairing meets a closing bracket where the scanner does. -/
theorem closing_mem_pairs_iff (h : Caught source before errors brackets)
    (hs : source = before ++ b.closing :: rest) (hz : Zone.after before = .code) :
    before.length ∈ (bracketPairs source).map (·.2) ↔ ∃ p outer, brackets = (b, p) :: outer := by
  obtain ⟨later, hl⟩ : ∃ later, marks (before ++ b.closing :: rest) =
      marks before ++ ⟨before.length, b, false⟩ :: later := marks_eq_append (markOf_closing hz)
  have hrow := inOrder_marks source
  have hpair := closing_paired_iff (hl ▸ hs ▸ hrow) rfl
  have hmem : before.length ∈ (bracketPairs source).map (·.2) ↔
      ∃ i, (i, before.length) ∈ (pairing (marks before ++ ⟨before.length, b, false⟩ :: later)).pairs := by
    rw [bracketPairs, hs, hl]
    simp
  rw [hmem, hpair, h.brackets_eq]
  constructor
  · rintro ⟨o, outer, hw, hb⟩
    exact ⟨_, _, by rw [hw, List.map_cons, hb]⟩
  · rintro ⟨p, outer, hw⟩
    obtain ⟨o, outer', hw', hb, _⟩ := List.map_eq_cons_iff.1 hw
    exact ⟨o, outer', hw', (Prod.mk.inj hb).1⟩

/-- A closing bracket closes the innermost open one of its kind. -/
theorem Caught.closing (h : Caught source before errors ((b, p) :: outer))
    (hs : source = before ++ b.closing :: rest) (hz : Zone.after before = .code) :
    Caught source (before ++ [b.closing]) errors outer where
  errors_eq := by
    have hmem := (closing_mem_pairs_iff h hs hz).2 ⟨p, outer, rfl⟩
    rw [metBefore_concat hs, fault_of_code hz, codeFault_closing, if_pos hmem, h.errors_eq]
    simp
  brackets_eq := by
    obtain ⟨o, outer', hw, hb, ho⟩ := List.map_eq_cons_iff.1 h.brackets_eq.symm
    rw [marks_concat, markOf_closing hz, Option.toList_some, pairing_concat,
      Pairing.next_paired rfl hw (Prod.mk.inj hb).1, ← ho]

/-- A closing bracket of another kind is unexpected and closes nothing. -/
theorem Caught.unexpected (h : Caught source before errors brackets)
    (hs : source = before ++ b.closing :: rest) (hz : Zone.after before = .code)
    (hb : ∀ p outer, brackets ≠ (b, p) :: outer) :
    Caught source (before ++ [b.closing]) (errors ++ [⟨.after before, .unexpected b⟩]) brackets where
  errors_eq := by
    have hmem : before.length ∉ (bracketPairs source).map (·.2) := by
      rw [closing_mem_pairs_iff h hs hz]
      rintro ⟨p, outer, hbr⟩
      exact hb p outer hbr
    rw [metBefore_concat hs, fault_of_code hz, codeFault_closing, if_neg hmem, h.errors_eq]
    simp [LexicalFault.isUnclosed]
  brackets_eq := by
    have hw : ∀ o outer, (pairing (marks before)).waiting = o :: outer → o.bracket ≠ b := by
      rintro o outer hw rfl
      exact hb _ _ (by rw [h.brackets_eq, hw, List.map_cons])
    rw [marks_concat, markOf_closing hz, Option.toList_some, pairing_concat, Pairing.next_alone rfl hw,
      h.brackets_eq]

/-- The line of a comment changes nothing. -/
theorem Caught.line {line : Text} (h : Caught source before errors brackets)
    (hs : source = before ++ line ++ rest) (hl : '\n' ∉ line) (hz : Zone.after before = .comment) :
    Caught source (before ++ line) errors brackets := by
  induction line generalizing before with
  | nil => simpa using h
  | cons c line ih =>
      have hc : c ≠ '\n' := fun hc => hl (hc ▸ List.mem_cons_self)
      have hcode : Zone.after before ≠ .code := by simp [hz]
      have hs1 : source = before ++ c :: (line ++ rest) := by rw [hs]; simp
      have h1 := h.quiet hs1 (markOf_of_zone hcode) (fault_of_zone hcode (by simp [hz]))
      have hz' : Zone.after (before ++ [c]) = .comment := by simp [hz, Zone.next, hc]
      rw [List.append_cons]
      exact ih h1 (by rw [hs]; simp) (fun h => hl (List.mem_cons_of_mem _ h)) hz'

/-- The error of the literal that the scanner is in, if the text ahead does not close it. -/
def undecided : Mode → Zone → Text → List LexicalError
  | .code, _, _ => []
  | .string p, z, rest => if closes z rest then [] else [⟨p, .unterminatedString⟩]
  | .raw p, z, rest => if closes z rest then [] else [⟨p, .unterminatedRaw⟩]

/-- **What the scanner has reported.** With the error of a literal that is still open, it is what there is
    to report of the text read so far. -/
def Reported (source before : Text) (s : Scanner) : Prop :=
  Caught source before (s.errors ++ undecided s.mode (Zone.after before) s.cursor.rest) s.brackets

variable {s t : Scanner} {before' : Text}

theorem Tracks.eq_concat (h : Tracks source before s) (hrest : s.cursor.rest = c :: rest)
    (hcur : t.cursor.rest = rest) (hs' : source = before' ++ t.cursor.rest) :
    source = before ++ c :: rest ∧ before' = before ++ [c] := by
  have hs : source = before ++ c :: rest := hrest ▸ h.source_eq
  refine ⟨hs, (List.append_left_inj rest).1 ?_⟩
  rw [← hcur, ← hs', hs, hcur, List.append_assoc, List.singleton_append]

theorem Reported.caught (h : Reported source before s) (hm : s.mode = .code) :
    Caught source before s.errors s.brackets := by
  rwa [Reported, hm, undecided, List.append_nil] at h

theorem Caught.reported (h : Caught source before s.errors s.brackets) (hm : s.mode = .code) :
    Reported source before s := by
  rwa [Reported, hm, undecided, List.append_nil]

/-- Text that cuts a string off does not close it. -/
theorem closes_of_cutsString {z : Zone} (h : InZone (.string p) z rest) (hr : Scanner.CutsString rest) :
    closes z rest = false := by
  cases h with
  | stringAtEnd => rfl
  | string => cases hr <;> rfl

/-- In front of a character that neither ends a line nor escapes, both are in code. -/
theorem InZone.eq_code_of_ne {z : Zone} (h : InZone .code z (c :: rest)) (hn : c ≠ '\n')
    (hb : c ≠ '\\') : z = .code := by
  cases h with
  | code => rfl
  | beforeNewline => exact absurd rfl hn
  | beforeBackslash => exact absurd rfl hb

theorem Caught.plain (h : Caught source before errors brackets) (hs : source = before ++ c :: rest)
    (hc : c ∉ reserved) : Caught source (before ++ [c]) errors brackets := by
  have hcr := hc
  rw [mem_reserved_iff] at hcr
  simp only [not_or, Option.not_isSome_iff_eq_none] at hcr
  refine h.quiet hs (markOf_of_no_bracket hcr.2.2.2.1 hcr.2.2.2.2.1) ?_
  by_cases hz : Zone.after before = .code
  · rw [fault_of_code hz, codeFault_plain (.inl hc)]
  · exact fault_of_zone hz fun h => hc (h.2.1 ▸ by decide)

/-- An illegal character is one in code, or the backslash that the scanner comes back to. -/
theorem Caught.illegal (h : Caught source before errors brackets) (hs : source = before ++ c :: rest)
    (hzone : InZone .code (Zone.after before) (c :: rest)) (hc : c ∈ illegalCharacters) :
    Caught source (before ++ [c]) (errors ++ [⟨.after before, .illegal c⟩]) brackets := by
  obtain ⟨_, _, _, ho, hcl⟩ := illegal_ne hc
  refine h.faulty hs (markOf_of_no_bracket ho hcl) ?_ rfl
  generalize hz : Zone.after before = z at hzone
  cases hzone with
  | code => rw [fault_of_code hz, codeFault_illegal hc]
  | beforeNewline => exact absurd hc (by decide)
  | beforeBackslash => simp [fault, hz]

/-- The opening quote of a literal adds its error if nothing closes the literal. -/
theorem Caught.literal {f : LexicalFault} (h : Caught source before errors brackets)
    (hs : source = before ++ c :: rest) (hz : Zone.after before = .code)
    (hc : ∀ pairs k, codeFault pairs k c rest = if closes (Zone.next .code c) rest then none else some f)
    (hno : markOf before c rest = none) (hu : f.isUnclosed = false) :
    Caught source (before ++ [c])
      (errors ++ if closes (Zone.next .code c) rest then [] else [⟨.after before, f⟩]) brackets := by
  have hf : fault (bracketPairs source) before c rest =
      if closes (Zone.next .code c) rest then none else some f := (fault_of_code hz).trans (hc _ _)
  cases hcl : closes (Zone.next .code c) rest with
  | true => simpa using h.quiet hs hno (by rw [hf, hcl]; rfl)
  | false => exact h.faulty hs hno (by rw [hf, hcl]; rfl) hu

/-- A character inside a literal adds nothing, and what closes the literal is still ahead. -/
theorem Reported.inside (hr : Reported source before s) (hrest : s.cursor.rest = c :: rest)
    (hs : source = before ++ c :: rest) (hz : Zone.after before ≠ .code)
    (hnext : (Zone.after before).next c ≠ .code)
    (hb : ¬ (Zone.after before = .string ∧ c = '\\' ∧ rest.head? = some '\n')) :
    Reported source (before ++ [c]) s.advance := by
  have hun : undecided s.mode (Zone.after (before ++ [c])) rest =
      undecided s.mode (Zone.after before) s.cursor.rest := by
    rw [hrest, Zone.after_concat]
    cases s.mode <;> simp only [undecided, closes_cons hnext]
  unfold Reported at *
  rw [Scanner.mode_advance, Scanner.cursor_advance, rest_advance hrest, hun]
  exact hr.quiet hs (markOf_of_zone hz) (fault_of_zone hz hb)

/-- The quote that closes a literal decides that there is no error. -/
theorem Reported.close (hr : Reported source before s) (hrest : s.cursor.rest = c :: rest)
    (hs : source = before ++ c :: rest) (hm : s.mode ≠ .code) (hz : Zone.after before ≠ .code)
    (hnext : (Zone.after before).next c = .code) (hn : c ≠ '\n') (hb : c ≠ '\\') :
    Caught source (before ++ [c]) s.errors s.brackets := by
  have hcl : closes (Zone.after before) s.cursor.rest = true := by simp [hrest, closes, hnext, hn]
  have hun : undecided s.mode (Zone.after before) s.cursor.rest = [] := by
    cases hmode : s.mode with
    | code => exact absurd hmode hm
    | string => simp [undecided, hcl]
    | raw => simp [undecided, hcl]
  unfold Reported at hr
  rw [hun, List.append_nil] at hr
  exact hr.quiet hs (markOf_of_zone hz) (fault_of_zone hz fun h => hb h.2.1)

/-- **Every step keeps to what there is to report.** -/
theorem Scanner.Step.reported (hst : Step s t) (h : Tracks source before s)
    (hzone : InZone s.mode (Zone.after before) s.cursor.rest) (hr : Reported source before s)
    (hs' : source = before' ++ t.cursor.rest) : Reported source before' t := by
  have hpos : s.cursor.position = .after before := by rw [h.cursor_eq, Cursor.position_between]
  -- A step that reads nothing stays at the same text.
  have hstay : t.cursor = s.cursor → before' = before := fun hcur =>
    (List.append_left_inj s.cursor.rest).1 (by rw [← h.source_eq, hs', hcur])
  cases hst with
  | @comment line r hm hrest hl he =>
      rw [hm, hrest] at hzone
      have hcaught := hr.caught hm
      have hs : source = before ++ '#' :: (line ++ r) := hrest ▸ h.source_eq
      have hcur : (s.cursor.skip (line.length + 1)).rest = r := by simp [Cursor.skip, hrest]
      have hb : before' = before ++ ['#'] ++ line := by
        refine (List.append_left_inj r).1 ?_
        rw [← hcur, ← hs', hs, hcur]
        simp
      have hz := hzone.eq_code (.inl rfl)
      have h1 := hcaught.quiet hs (markOf_of_no_bracket rfl rfl)
        (by rw [fault_of_code hz, codeFault_plain (.inr rfl)])
      rw [hb]
      have hs1 : source = before ++ ['#'] ++ line ++ r := by rw [hs]; simp
      exact Caught.reported (h1.line hs1 hl (by simp [hz, Zone.next])) hm
  | @stringStart r hm hrest =>
      rw [hm, hrest] at hzone
      obtain ⟨hs, rfl⟩ := h.eq_concat hrest (rest_advance hrest) hs'
      have hz := hzone.eq_code (.inr (.inl rfl))
      have hnew := (hr.caught hm).literal hs hz (f := .unterminatedString) (fun _ _ => rfl)
        (markOf_of_no_bracket rfl rfl) rfl
      unfold Reported
      simpa [undecided, hpos, hz, rest_advance hrest] using hnew
  | @rawStart r hm hrest =>
      rw [hm, hrest] at hzone
      obtain ⟨hs, rfl⟩ := h.eq_concat hrest (rest_advance hrest) hs'
      have hz := hzone.eq_code (.inr (.inr rfl))
      have hnew := (hr.caught hm).literal hs hz (f := .unterminatedRaw) (fun _ _ => rfl)
        (markOf_of_no_bracket rfl rfl) rfl
      unfold Reported
      simpa [undecided, hpos, hz, rest_advance hrest] using hnew
  | @opening b r hm hrest =>
      rw [hm, hrest] at hzone
      obtain ⟨hs, rfl⟩ := h.eq_concat hrest (rest_advance hrest) hs'
      have hz := hzone.eq_code_of_ne (by cases b <;> decide) (by cases b <;> decide)
      exact Caught.reported (hpos ▸ (hr.caught hm).opening hs hz) hm
  | @closing b p outer r hm hrest hb =>
      rw [hm, hrest] at hzone
      obtain ⟨hs, rfl⟩ := h.eq_concat hrest (rest_advance hrest) hs'
      have hz := hzone.eq_code_of_ne (by cases b <;> decide) (by cases b <;> decide)
      exact Caught.reported ((hb ▸ hr.caught hm).closing hs hz) hm
  | @unexpected b r hm hrest hb =>
      rw [hm, hrest] at hzone
      obtain ⟨hs, rfl⟩ := h.eq_concat hrest (rest_advance hrest) hs'
      have hz := hzone.eq_code_of_ne (by cases b <;> decide) (by cases b <;> decide)
      exact Caught.reported (hpos ▸ (hr.caught hm).unexpected hs hz hb) hm
  | illegal hm hrest hc =>
      rw [hm, hrest] at hzone
      obtain ⟨hs, rfl⟩ := h.eq_concat hrest (rest_advance hrest) hs'
      exact Caught.reported (hpos ▸ (hr.caught hm).illegal hs hzone hc) hm
  | plain hm hrest hc =>
      obtain ⟨hs, rfl⟩ := h.eq_concat hrest (rest_advance hrest) hs'
      exact Caught.reported ((hr.caught hm).plain hs hc) hm
  | stringCut hm hcut =>
      obtain rfl := hstay rfl
      rw [hm] at hzone
      unfold Reported at *
      rw [hm, undecided, closes_of_cutsString hzone hcut] at hr
      simpa [undecided, report] using hr
  | @escape p c r hm hrest hc =>
      rw [hm, hrest] at hzone
      have hz := hzone.eq_string
      have hs : source = before ++ '\\' :: c :: r := hrest ▸ h.source_eq
      -- The backslash is in the string, and the character behind it is escaped.
      have h1 := hr.inside hrest hs (by simp [hz]) (by simp [hz, Zone.next]) (by simp [hc])
      have hz' : Zone.after (before ++ ['\\']) = .escape := by simp [hz, Zone.next]
      have hs1 : source = before ++ ['\\'] ++ c :: r := by rw [hs]; simp
      have h2 := h1.inside (rest_advance hrest) hs1 (by simp [hz']) (by simp [hz', Zone.next, hc])
        (by simp [hz'])
      have hb : before' = before ++ ['\\'] ++ [c] := by
        refine (List.append_left_inj r).1 ?_
        rw [← rest_advance (rest_advance hrest), ← cursor_advance, ← cursor_advance, ← hs', hs1]
        simp [rest_advance (rest_advance hrest)]
      rw [hb]
      exact h2
  | stringEnd hm hrest =>
      rw [hm, hrest] at hzone
      obtain ⟨hs, rfl⟩ := h.eq_concat hrest (rest_advance hrest) hs'
      have hz := hzone.eq_string
      have hcaught := hr.close hrest hs (by simp [hm]) (by simp [hz]) (by simp [hz, Zone.next])
        (by decide) (by decide)
      exact Caught.reported hcaught rfl
  | @stringBody p c r hm hrest hq hn hb =>
      rw [hm, hrest] at hzone
      obtain ⟨hs, rfl⟩ := h.eq_concat hrest (rest_advance hrest) hs'
      have hz := hzone.eq_string
      refine hr.inside hrest hs (by simp [hz]) ?_ ?_
      · by_cases hc : c = '\\' <;> simp [hz, Zone.next, hq, hn, hc]
      · rintro ⟨_, rfl, hhead⟩
        simp [hb rfl] at hhead
  | rawCut hm hrest =>
      obtain rfl := hstay rfl
      unfold Reported at *
      rw [hm, hrest, undecided] at hr
      simpa [undecided, report, closes] using hr
  | rawEnd hm hrest =>
      rw [hm] at hzone
      obtain ⟨hs, rfl⟩ := h.eq_concat hrest (rest_advance hrest) hs'
      have hz := hzone.eq_raw
      have hcaught := hr.close hrest hs (by simp [hm]) (by simp [hz]) (by simp [hz, Zone.next])
        (by decide) (by decide)
      exact Caught.reported hcaught rfl
  | @rawBody p c r hm hrest hc =>
      rw [hm] at hzone
      obtain ⟨hs, rfl⟩ := h.eq_concat hrest (rest_advance hrest) hs'
      have hz := hzone.eq_raw
      exact hr.inside hrest hs (by simp [hz]) (by simp [hz, Zone.next, hc]) (by simp [hz])

theorem Reported.start (source : Text) : Reported source [] (start source) :=
  Caught.reported ⟨rfl, rfl⟩ rfl

/-- **The invariant of the errors of a scan.** The scanner keeps to the source, and to what there is to
    report of it. -/
def KeepsReporting (source : Text) (s : Scanner) : Prop :=
  InStep source s ∧ ∀ before, source = before ++ s.cursor.rest → Reported source before s

theorem Scanner.Step.keepsReporting (hst : Step s t) (h : KeepsReporting source s) :
    KeepsReporting source t := by
  obtain ⟨⟨before, htracks, hzone⟩, hr⟩ := h
  refine ⟨hst.inStep ⟨before, htracks, hzone⟩, fun before' hs' => ?_⟩
  exact hst.reported htracks hzone (hr before htracks.source_eq) hs'

theorem KeepsReporting.start (source : Text) : KeepsReporting source (start source) := by
  refine ⟨.start source, fun before hs => ?_⟩
  have hnil : before = [] := (List.append_left_inj source).1 hs.symm
  exact hnil ▸ .start source

/-- A scan ends with all that is met in its source, and with the brackets that wait. -/
theorem caught_finalState (source : Text) :
    Caught source source (finalState source).errors (finalState source).brackets := by
  have h : KeepsReporting source (finalState source) :=
    (reaches_finalState source).invariant Step.keepsReporting (.start source)
  obtain ⟨hm, hrest⟩ := step_eq_none_iff.1 (step_finalState source)
  exact (h.2 source (by rw [hrest, List.append_nil])).caught hm

/-! ## The errors of a scan -/

/-- What kinds of fault a character can have. -/
inductive Faulty (pairs : List (Nat × Nat)) (before : Text) (c : Char) (rest : Text) :
    LexicalFault → Prop
  | string (hz : Zone.after before = .code) (hc : c = '"') (hr : closes .string rest = false) :
      Faulty pairs before c rest .unterminatedString
  | raw (hz : Zone.after before = .code) (hc : c = '\x60') (hr : closes .raw rest = false) :
      Faulty pairs before c rest .unterminatedRaw
  | unclosed {b : Bracket} (hz : Zone.after before = .code) (hc : c = b.opening)
      (hp : before.length ∉ pairs.map (·.1)) : Faulty pairs before c rest (.unclosed b)
  | unexpected {b : Bracket} (hz : Zone.after before = .code) (hc : c = b.closing)
      (hp : before.length ∉ pairs.map (·.2)) : Faulty pairs before c rest (.unexpected b)
  | illegal (hz : Zone.after before = .code) (hc : c ∈ illegalCharacters) :
      Faulty pairs before c rest (.illegal c)
  | backslash (hz : Zone.after before = .string) (hc : c = '\\') (hr : rest.head? = some '\n') :
      Faulty pairs before c rest (.illegal c)

theorem fault_eq_some_iff {pairs : List (Nat × Nat)} {f : LexicalFault} :
    fault pairs before c rest = some f ↔ Faulty pairs before c rest f := by
  constructor
  · intro h
    unfold fault at h
    split at h
    · rename_i hz
      unfold codeFault at h
      split at h
      · rename_i hc
        split at h
        · cases h
        · rename_i hr
          exact Option.some.inj h ▸ .string hz hc (by simpa using hr)
      · split at h
        · rename_i hc
          split at h
          · cases h
          · rename_i hr
            exact Option.some.inj h ▸ .raw hz hc (by simpa using hr)
        · split at h
          · rename_i hc
            split at h
            · cases h
            · rename_i hp
              exact Option.some.inj h ▸ .unclosed hz (Bracket.ofOpening?_eq_some_iff.1 hc) hp
          · rename_i hc
            split at h
            · cases h
            · rename_i hp
              exact Option.some.inj h ▸ .unexpected hz (Bracket.ofClosing?_eq_some_iff.1 hc) hp
          · split at h
            · rename_i hc
              exact Option.some.inj h ▸ .illegal hz hc
            · cases h
    · rename_i hz
      split at h
      · rename_i hc
        exact Option.some.inj h ▸ .backslash hz hc.1 hc.2
      · cases h
    · cases h
  · rintro (⟨hz, rfl, hr⟩ | ⟨hz, rfl, hr⟩ | ⟨hz, rfl, hp⟩ | ⟨hz, rfl, hp⟩ | ⟨hz, hc⟩ | ⟨hz, rfl, hr⟩)
    · simp [fault_of_code hz, codeFault, hr]
    · simp [fault_of_code hz, codeFault, hr]
    · rw [fault_of_code hz, codeFault_opening, if_neg hp]
    · rw [fault_of_code hz, codeFault_closing, if_neg hp]
    · rw [fault_of_code hz, codeFault_illegal hc]
    · simp [fault, hz, hr]

/-- The brackets that wait at the end are the unclosed ones. -/
theorem unclosed_eq (source : Text) :
    (pairing (marks source)).waiting.reverse.map
        (fun m => LexicalError.mk (placeAt source m.offset) (.unclosed m.bracket)) =
      (errorsBefore source source.length).filter (·.fault.isUnclosed) := by
  have hwait : (pairing (marks source)).waiting.reverse =
      (marks source).filter fun m => m.opens && !((bracketPairs source).map (·.1)).contains m.offset :=
    (pairs_pairing (inOrder_marks source)).waiting_eq
  unfold errorsBefore faultAt
  rw [hwait]
  generalize bracketPairs source = pairs
  rw [marks, gather, List.filter_filterMap, List.map_filterMap, List.filter_filterMap]
  refine List.filterMap_congr fun k hk => ?_
  obtain ⟨before, c, rest, hs, rfl⟩ := exists_split (List.mem_range.1 hk)
  rw [readAt_of_eq hs, readAt_of_eq hs]
  by_cases hopen : Zone.after before = .code ∧ ∃ b : Bracket, c = b.opening
  · obtain ⟨hz, b, rfl⟩ := hopen
    rw [markOf_opening hz, fault_of_code hz, codeFault_opening]
    by_cases hp : before.length ∈ pairs.map (·.1)
    · rw [if_pos hp]
      simpa [Option.filter] using hp
    · simp [Option.filter, hp, LexicalFault.isUnclosed]
  · -- Neither side says anything of another character.
    have hmark : (markOf before c rest).filter (fun m => m.opens &&
        !(pairs.map (·.1)).contains m.offset) = none := by
      cases hm : markOf before c rest with
      | none => rfl
      | some m =>
          obtain ⟨hz, _, hc⟩ := markOf_eq_some hm
          cases ho : m.opens with
          | false => simp [Option.filter, ho]
          | true => exact absurd ⟨hz, m.bracket, by rw [hc, ho]; rfl⟩ hopen
    have hfault : ((fault pairs before c rest).map
        (LexicalError.mk (placeAt source before.length))).filter (·.fault.isUnclosed) = none := by
      cases hf : fault pairs before c rest with
      | none => rfl
      | some f =>
          cases fault_eq_some_iff.1 hf with
          | unclosed hz hc => exact absurd ⟨hz, _, hc⟩ hopen
          | _ => rfl
    rw [hmark, hfault]
    rfl

theorem pairwise_errorsBefore (source : Text) :
    (errorsBefore source source.length).Pairwise fun e f => e.position.Lt f.position := by
  refine List.pairwise_filterMap.2 ?_
  have hrange : (List.range source.length).Pairwise fun i j => i < j ∧ j < source.length :=
    List.pairwise_lt_range.imp_of_mem fun _ hj hij => ⟨hij, List.mem_range.1 hj⟩
  refine hrange.imp fun ⟨hij, hj⟩ e he f hf => ?_
  obtain ⟨_, _, rfl⟩ := Option.map_eq_some_iff.1 he
  obtain ⟨_, _, rfl⟩ := Option.map_eq_some_iff.1 hf
  exact placeAt_lt hij (Nat.le_of_lt hj)

/-- The errors of a finished scan are those of the offsets, but for their order. -/
theorem perm_errorsBefore (source : Text) :
    ((finalState source).errors ++
      (finalState source).brackets.reverse.map fun opening => LexicalError.mk opening.2 (.unclosed opening.1)).Perm
      (errorsBefore source source.length) := by
  have h := caught_finalState source
  have hbrackets : ((finalState source).brackets.reverse.map
      fun opening => LexicalError.mk opening.2 (.unclosed opening.1)) =
      (errorsBefore source source.length).filter (·.fault.isUnclosed) := by
    rw [← unclosed_eq, h.brackets_eq, ← List.map_reverse, List.map_map]
    rfl
  rw [hbrackets, ← h.errors_eq, metBefore]
  refine List.perm_append_comm.trans ?_
  exact List.filter_append_perm _ _

/-- **A scan reports the fault of each character, in the order of the source.** -/
theorem scan_errors_eq (source : Text) : (scan source).errors = errorsBefore source source.length := by
  have hlt := pairwise_errorsBefore source
  have hperm : (scan source).errors.Perm (errorsBefore source source.length) :=
    (List.mergeSort_perm _ _).trans (perm_errorsBefore source)
  have hsorted : (scan source).errors.Pairwise fun e f => e.position.le f.position = true := by
    refine List.pairwise_mergeSort ?_ ?_ _
    · exact fun e f g => Position.le_trans
    · exact fun e f => Position.le_total e.position f.position
  -- No two errors share a place, so one sorted list has them all.
  refine hperm.eq_of_pairwise (fun e f he hf hef hfe => ?_) hsorted
    (hlt.imp fun h => Position.le_iff.2 (.inl h))
  have hnodup : ((errorsBefore source source.length).map (·.position)).Nodup :=
    List.pairwise_map.2 (hlt.imp Position.Lt.ne)
  exact List.inj_on_of_nodup_map hnodup (hperm.mem_iff.1 he) hf (Position.le_antisymm hef hfe)

end PolicyTable.Rego
