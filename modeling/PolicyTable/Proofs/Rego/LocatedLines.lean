import Mathlib.Data.List.TakeWhile
import PolicyTable.Proofs.Rego.ErrorText
import PolicyTable.Proofs.Text.Pieces

/-!
# `PolicyTable.Proofs.Rego.LocatedLines` — what the lines of a complaint say

A line can be read as a located one in several ways, since dashes may stand in a message and colons in a module
name. Of all readings of a line one counts: that with the shortest message, of those the one with the shortest module
name, and of those the one with the longest column. It gives one diagnostic, and a complaint gives the diagnostics
of its lines in the order of their places.

The search for the reading that counts goes through the beginnings of a text twice, once for the message and once for
the module name. Both times it takes the first one behind which it finds what has to follow (`FirstBehind`).

## Contents
- **Readings.** `LineReading`, `LineReading.Reads` and `LineReading.Counts`, the reading that counts, of which there
  is one at most (`LineReading.Counts.unique`). `IsLocated` lines have a reading, and `Gives` says what a line gives.
- **Numerals.** `numerals?` reads what is written, with the longest column.
- **Search.** `FirstBehind`, with `location?` and `Located.ofLine?` as instances.
- **Lines.** `ofLine?_eq_some_iff`: the search finds the reading that counts, and it finds one if there is any.
- **Order.** `InPlaceOrder`, a list in the order of the places, with those of one place as before.

Main statement: `diagnosticsOf_located`.
-/

namespace PolicyTable.Rego

variable {line t lead a b rest : Text} {l : Located}

/-! ## Readings -/

/-- A line cut into the parts of a located line: the message, the module name, the numerals of the line and of the
    column, and what stands behind them. -/
structure LineReading where
  message : Text
  moduleName : Text
  line : Text
  column : Text
  rest : Text

namespace LineReading

/-- The line is made of the parts, with dashes and colons between them, and the parts are what they have to be. -/
structure Reads (s : LineReading) (line : Text) : Prop where
  parts : line = s.message ++ dashes ++ s.moduleName ++ ':' :: s.line ++ ':' :: s.column ++ s.rest
  message_ne : s.message ≠ []
  moduleName_ne : s.moduleName ≠ []
  moduleName_not_blank : ∀ c ∈ s.moduleName, Text.isBlank c = false
  line_ne : s.line ≠ []
  line_digits : ∀ c ∈ s.line, Text.isDigit c = true
  column_ne : s.column ≠ []
  column_digits : ∀ c ∈ s.column, Text.isDigit c = true

/-- The reading of a line that counts: the shortest message, then the shortest module name, then the longest
    column. -/
structure Counts (s : LineReading) (line : Text) : Prop extends s.Reads line where
  message_le : ∀ s' : LineReading, s'.Reads line → s.message.length ≤ s'.message.length
  moduleName_le : ∀ s' : LineReading, s'.Reads line → s'.message = s.message →
    s.moduleName.length ≤ s'.moduleName.length
  column_ge : ∀ s' : LineReading, s'.Reads line → s'.message = s.message → s'.moduleName = s.moduleName →
    s'.column.length ≤ s.column.length

/-- What a reading says: the numbers of its numerals, and its message without blanks at the ends. -/
def diagnostic (s : LineReading) : Diagnostic :=
  ⟨Text.numeralValue s.line, Text.numeralValue s.column, Text.trim s.message⟩

/-- What stands behind the module name. -/
def numerals (s : LineReading) : Text := ':' :: (s.line ++ ':' :: (s.column ++ s.rest))

variable {s s' : LineReading}

theorem Reads.eq_append (h : s.Reads line) :
    line = s.message ++ (dashes ++ (s.moduleName ++ s.numerals)) := by
  rw [h.parts, numerals]
  simp only [List.append_assoc, List.cons_append]

/-- Behind the same message and module name stand the same numerals. -/
theorem Reads.numerals_eq (h : s.Reads line) (h' : s'.Reads line) (hmessage : s'.message = s.message)
    (hmodule : s'.moduleName = s.moduleName) : s'.numerals = s.numerals := by
  have heq := h'.eq_append.symm.trans h.eq_append
  rw [hmessage, hmodule] at heq
  exact List.append_cancel_left (List.append_cancel_left (List.append_cancel_left heq))

theorem Reads.length_column_le (h : s.Reads line) : s.line.length ≤ line.length ∧ s.column.length ≤ line.length := by
  rw [h.eq_append, numerals]
  simp only [List.length_append, List.length_cons]
  omega

end LineReading

/-- The line can be read as a located one. -/
def IsLocated (line : Text) : Prop := ∃ s : LineReading, s.Reads line

/-- The line gives the diagnostic of its reading that counts. -/
def Gives (line : Text) (d : Diagnostic) : Prop := ∃ s : LineReading, s.Counts line ∧ s.diagnostic = d

/-! ## Numerals -/

theorem isDigit_colon : Text.isDigit ':' = false := by decide

/-- The characters of a class at the beginning of a text are those before the first other one. -/
theorem takeWhile_append_of_stop {p : Char → Bool} {c : Char} (ha : ∀ x ∈ a, p x = true) (hc : p c = false) :
    (a ++ c :: t).takeWhile p = a ∧ (a ++ c :: t).dropWhile p = c :: t := by
  rw [List.takeWhile_append_of_pos ha, List.dropWhile_append_of_pos ha, List.takeWhile_cons, List.dropWhile_cons,
    hc]
  simp

/-- **Written numerals are read, and the digits behind the second one with it.** -/
theorem numerals?_written (ha : a ≠ []) (hda : ∀ c ∈ a, Text.isDigit c = true) (hb : b ≠ [])
    (hdb : ∀ c ∈ b, Text.isDigit c = true) :
    numerals? (':' :: (a ++ ':' :: (b ++ rest))) = some (a, b ++ rest.takeWhile Text.isDigit) := by
  obtain ⟨htake, hdrop⟩ := takeWhile_append_of_stop (t := b ++ rest) hda isDigit_colon
  simp only [numerals?, htake, hdrop, List.takeWhile_append_of_pos hdb]
  rw [if_neg (by simp [ha, hb])]

/-- What is read as numerals is written so. -/
theorem written_of_numerals? (h : numerals? t = some (a, b)) :
    ∃ rest, t = ':' :: (a ++ ':' :: (b ++ rest)) ∧ a ≠ [] ∧ (∀ c ∈ a, Text.isDigit c = true) ∧
      b ≠ [] ∧ ∀ c ∈ b, Text.isDigit c = true := by
  unfold numerals? at h
  split at h
  · rename_i r
    split at h
    · rename_i r' hr
      dsimp only at h
      split at h
      · cases h
      · rename_i hne
        cases h
        simp only [Bool.or_eq_true, List.isEmpty_iff, not_or] at hne
        refine ⟨r'.dropWhile Text.isDigit, ?_, hne.1, ?_, hne.2, ?_⟩
        · rw [List.takeWhile_append_dropWhile, ← hr, List.takeWhile_append_dropWhile]
        · exact fun c hc => List.mem_takeWhile_imp hc
        · exact fun c hc => List.mem_takeWhile_imp hc
    · cases h
  · cases h

theorem LineReading.Reads.numerals?_eq {s : LineReading} (h : s.Reads line) :
    numerals? s.numerals = some (s.line, s.column ++ s.rest.takeWhile Text.isDigit) :=
  numerals?_written h.line_ne h.line_digits h.column_ne h.column_digits

/-! ## Search -/

/-- The shortest beginning of a text, not empty and of characters of a class, behind which something is found. -/
inductive FirstBehind (ok : Char → Bool) (find : Text → Option (Text × Text)) : Text → Text → Text × Text → Prop
  | here {c : Char} {r : Text} {found : Text × Text} (hc : ok c = true) (hr : find r = some found) :
      FirstBehind ok find (c :: r) [c] found
  | later {c : Char} {r lead : Text} {found : Text × Text} (hc : ok c = true) (hr : find r = none)
      (h : FirstBehind ok find r lead found) : FirstBehind ok find (c :: r) (c :: lead) found

section

variable {ok : Char → Bool} {find : Text → Option (Text × Text)} {found : Text × Text}

/-- What such a beginning is, and that a shorter one finds nothing. -/
theorem FirstBehind.spec (h : FirstBehind ok find t lead found) :
    ∃ behind, t = lead ++ behind ∧ lead ≠ [] ∧ (∀ c ∈ lead, ok c = true) ∧ find behind = some found ∧
      ∀ lead' behind', t = lead' ++ behind' → lead' ≠ [] → find behind' ≠ none → lead.length ≤ lead'.length := by
  induction h with
  | @here c r found hc hr =>
      refine ⟨r, rfl, by simp, by simpa using hc, hr, fun lead' _ _ hne _ => ?_⟩
      exact List.length_pos_of_ne_nil hne
  | @later c r lead found hc hr _ ih =>
      obtain ⟨behind, rfl, _, hlead, hfind, hleast⟩ := ih
      refine ⟨behind, rfl, by simp, ?_, hfind, fun lead' behind' ht hne hsome => ?_⟩
      · simpa using ⟨hc, hlead⟩
      · obtain ⟨x, lead', rfl⟩ := List.exists_cons_of_ne_nil hne
        obtain ⟨_, ht⟩ := List.cons.inj ht
        -- A beginning of one character finds nothing here.
        have hne' : lead' ≠ [] := by
          rintro rfl
          exact hsome ((congrArg find ht).symm.trans hr)
        exact Nat.succ_le_succ (hleast lead' behind' ht hne' hsome)

theorem not_firstBehind_nil : ¬ FirstBehind ok find [] lead found := by
  intro h
  cases h

/-- One step of the search. -/
theorem firstBehind_cons_iff {c : Char} {r : Text} :
    FirstBehind ok find (c :: r) lead found ↔ ok c = true ∧
      (lead = [c] ∧ find r = some found ∨
        ∃ lead', lead = c :: lead' ∧ find r = none ∧ FirstBehind ok find r lead' found) := by
  constructor
  · intro h
    cases h with
    | here hc hr => exact ⟨hc, .inl ⟨rfl, hr⟩⟩
    | later hc hr h => exact ⟨hc, .inr ⟨_, rfl, hr, h⟩⟩
  · rintro ⟨hc, ⟨rfl, hr⟩ | ⟨lead', rfl, hr, h⟩⟩
    · exact .here hc hr
    · exact .later hc hr h

/-- If there is a beginning behind which something is found then there is a shortest one. -/
theorem exists_firstBehind {behind : Text} (hne : lead ≠ []) (hlead : ∀ c ∈ lead, ok c = true)
    (hfind : find behind ≠ none) : ∃ first found, FirstBehind ok find (lead ++ behind) first found := by
  induction lead with
  | nil => exact absurd rfl hne
  | cons c r ih =>
      obtain ⟨hc, hr⟩ := List.forall_mem_cons.1 hlead
      cases hnext : find (r ++ behind) with
      | some found => exact ⟨[c], found, .here hc hnext⟩
      | none =>
          have hr' : r ≠ [] := by
            rintro rfl
            exact hfind hnext
          obtain ⟨first, found, h⟩ := ih hr' hr
          exact ⟨c :: first, found, .later hc hnext h⟩

end

/-- A location is behind the shortest module name that has numerals behind it. -/
theorem location?_eq_some_iff {found : Text × Text} :
    location? t = some found ↔ ∃ name, FirstBehind (fun c => !Text.isBlank c) numerals? t name found := by
  induction t with
  | nil => simp [location?, not_firstBehind_nil]
  | cons c r ih =>
      unfold location?
      simp only [firstBehind_cons_iff]
      by_cases hc : Text.isBlank c = true
      · simp [hc]
      · cases hr : numerals? r with
        | some found' => simp [hc]
        | none => simp [hc, ih]

/-- What stands behind a message: the dashes, and a location behind them. -/
def behindMessage (t : Text) : Option (Text × Text) := (Text.dropLead? dashes t).bind location?

/-- A located line is read with the shortest message that has a location behind it. -/
theorem ofLine?_eq_some_iff_firstBehind :
    Located.ofLine? t = some l ↔ FirstBehind (fun _ => true) behindMessage t l.message (l.line, l.column) := by
  induction t generalizing l with
  | nil => simp [Located.ofLine?, not_firstBehind_nil]
  | cons c r ih =>
      obtain ⟨message, line, column⟩ := l
      rw [Located.ofLine?, ← behindMessage, firstBehind_cons_iff]
      cases hr : behindMessage r with
      | some found =>
          obtain ⟨line', column'⟩ := found
          simp [eq_comm]
      | none =>
          simp only [Option.map_eq_some_iff, true_and, reduceCtorEq, and_false, false_or]
          constructor
          · rintro ⟨l', hl', heq⟩
            cases heq
            exact ⟨l'.message, rfl, ih.1 hl'⟩
          · rintro ⟨lead, rfl, h⟩
            exact ⟨⟨lead, line, column⟩, ih.2 h, rfl⟩

/-! ## Lines -/

theorem behindMessage_dashes (t : Text) : behindMessage (dashes ++ t) = location? t := by
  have hlead : Text.dropLead? dashes (dashes ++ t) = some t := Text.dropLead?_eq_some_iff.2 rfl
  rw [behindMessage, hlead, Option.bind_some]

namespace LineReading

variable {s s' : LineReading}

/-- What a line is searched for. -/
def located (s : LineReading) : Located := ⟨s.message, s.line, s.column⟩

theorem Reads.location?_ne_none (h : s.Reads line) : location? (s.moduleName ++ s.numerals) ≠ none := by
  have hok : ∀ c ∈ s.moduleName, (!Text.isBlank c) = true := by simpa using h.moduleName_not_blank
  have hnumerals : numerals? s.numerals ≠ none := by
    rw [h.numerals?_eq]
    exact Option.some_ne_none _
  obtain ⟨name, found, hfirst⟩ := exists_firstBehind h.moduleName_ne hok hnumerals
  rw [location?_eq_some_iff.2 ⟨name, hfirst⟩]
  exact Option.some_ne_none found

theorem Reads.behindMessage_ne_none (h : s.Reads line) :
    behindMessage (dashes ++ (s.moduleName ++ s.numerals)) ≠ none := by
  rw [behindMessage_dashes]
  exact h.location?_ne_none

/-- A line that can be read is found to be located. -/
theorem Reads.exists_ofLine? (h : s.Reads line) : ∃ l, Located.ofLine? line = some l := by
  have hok : ∀ c ∈ s.message, (fun _ => true) c = true := fun _ _ => rfl
  obtain ⟨message, ⟨line', column⟩, hfirst⟩ := exists_firstBehind h.message_ne hok h.behindMessage_ne_none
  rw [← h.eq_append] at hfirst
  exact ⟨⟨message, line', column⟩, ofLine?_eq_some_iff_firstBehind.2 hfirst⟩

/-- What is found is the reading that counts. -/
theorem exists_counts (h : Located.ofLine? line = some l) : ∃ s : LineReading, s.Counts line ∧ s.located = l := by
  obtain ⟨behind, hline, hmessage, _, hbehind, hleast⟩ := (ofLine?_eq_some_iff_firstBehind.1 h).spec
  obtain ⟨t, hdashes, hlocation⟩ := Option.bind_eq_some_iff.1 hbehind
  obtain rfl := Text.dropLead?_eq_some_iff.1 hdashes
  obtain ⟨name, hname⟩ := location?_eq_some_iff.1 hlocation
  obtain ⟨behind, rfl, hnameNe, hnameOk, hnumerals, hnameLeast⟩ := hname.spec
  obtain ⟨rest, rfl, hlineNe, hlineDigits, hcolumnNe, hcolumnDigits⟩ := written_of_numerals? hnumerals
  let s : LineReading := ⟨l.message, name, l.line, l.column, rest⟩
  have hreads : s.Reads line :=
    { parts := by rw [hline]; simp only [s, List.append_assoc, List.cons_append]
      message_ne := hmessage, moduleName_ne := hnameNe
      moduleName_not_blank := by simpa using hnameOk
      line_ne := hlineNe, line_digits := hlineDigits, column_ne := hcolumnNe, column_digits := hcolumnDigits }
  refine ⟨s, { hreads with message_le := ?_, moduleName_le := ?_, column_ge := ?_ }, rfl⟩
  · exact fun s' h' => hleast _ _ h'.eq_append h'.message_ne h'.behindMessage_ne_none
  · intro s' h' heq
    -- Behind the same message the search for the module name starts at the same place.
    have hsame := h'.eq_append.symm.trans hline
    rw [heq] at hsame
    have hname' := List.append_cancel_left (List.append_cancel_left hsame)
    refine hnameLeast _ _ hname'.symm h'.moduleName_ne ?_
    rw [h'.numerals?_eq]
    exact Option.some_ne_none _
  · intro s' h' hmessage' hmodule'
    have hfound := h'.numerals?_eq
    rw [hreads.numerals_eq h' hmessage' hmodule'] at hfound
    obtain ⟨_, hcolumn⟩ := Prod.mk.inj (Option.some.inj (hfound.symm.trans hnumerals))
    rw [← show s'.column ++ s'.rest.takeWhile Text.isDigit = s.column from hcolumn, List.length_append]
    omega

/-- **One reading counts at most.** -/
theorem Counts.unique (h : s.Counts line) (h' : s'.Counts line) : s = s' := by
  have heq := h.eq_append.symm.trans h'.eq_append
  have hlength := Nat.le_antisymm (h.message_le s' h'.toReads) (h'.message_le s h.toReads)
  obtain ⟨hmessage, hbehind⟩ := List.append_inj heq hlength
  have hlength := Nat.le_antisymm (h.moduleName_le s' h'.toReads hmessage.symm)
    (h'.moduleName_le s h.toReads hmessage)
  obtain ⟨hmodule, hnumerals⟩ := List.append_inj (List.append_cancel_left hbehind) hlength
  -- The numeral of the line goes up to the first character that is no digit.
  have hfound := h.numerals?_eq.symm.trans ((congrArg numerals? hnumerals).trans h'.numerals?_eq)
  obtain ⟨hline, _⟩ := Prod.mk.inj (Option.some.inj hfound)
  have hlength := Nat.le_antisymm (h'.column_ge s h.toReads hmessage hmodule)
    (h.column_ge s' h'.toReads hmessage.symm hmodule.symm)
  rw [numerals, numerals, hline] at hnumerals
  have hrest := List.append_cancel_left (List.cons.inj hnumerals).2
  obtain ⟨hcolumn, hrest⟩ := List.append_inj (List.cons.inj hrest).2 hlength
  obtain ⟨message, name, line, column, rest⟩ := s
  cases hmessage
  cases hmodule
  cases hline
  cases hcolumn
  cases hrest
  rfl

end LineReading

/-- **The search finds the reading that counts.** -/
theorem ofLine?_eq_some_iff : Located.ofLine? line = some l ↔ ∃ s : LineReading, s.Counts line ∧ s.located = l := by
  constructor
  · exact LineReading.exists_counts
  · rintro ⟨s, hs, rfl⟩
    obtain ⟨l, hl⟩ := hs.toReads.exists_ofLine?
    obtain ⟨s', hs', rfl⟩ := LineReading.exists_counts hl
    rw [hl, hs.unique hs']

theorem isLocated_iff : IsLocated line ↔ (Located.ofLine? line).isSome = true := by
  rw [Option.isSome_iff_exists]
  constructor
  · rintro ⟨s, hs⟩
    exact hs.exists_ofLine?
  · rintro ⟨l, hl⟩
    obtain ⟨s, hs, _⟩ := LineReading.exists_counts hl
    exact ⟨s, hs.toReads⟩

instance : DecidablePred IsLocated := fun _ => decidable_of_iff' _ isLocated_iff

/-- A located line has one reading that counts. -/
theorem IsLocated.existsUnique_counts (h : IsLocated line) : ∃! s : LineReading, s.Counts line := by
  obtain ⟨_, h⟩ := h
  obtain ⟨l, hl⟩ := h.exists_ofLine?
  obtain ⟨s, hs, _⟩ := LineReading.exists_counts hl
  exact ⟨s, hs, fun _ hs' => hs'.unique hs⟩

/-! ## Order -/

/-- Sorting keeps the order of elements that are in order already. -/
theorem filter_mergeSort {α : Type} {le : α → α → Bool} {l : List α} {p : α → Bool}
    (htrans : ∀ a b c, le a b = true → le b c = true → le a c = true) (htotal : ∀ a b, (le a b || le b a) = true)
    (hp : (l.filter p).Pairwise fun a b => le a b = true) : (l.mergeSort le).filter p = l.filter p := by
  have hsub : (l.filter p).Sublist (l.mergeSort le) :=
    List.sublist_mergeSort htrans htotal hp List.filter_sublist
  have hfilter : (l.filter p).Sublist ((l.mergeSort le).filter p) := by
    simpa only [List.filter_filter, Bool.and_self] using hsub.filter p
  exact (hfilter.eq_of_length ((List.mergeSort_perm l le).filter p).length_eq.symm).symm

/-- The second list has the diagnostics of the first one in the order of their places, and those of one place in the
    order in which they were. -/
structure InPlaceOrder (found ds : List Diagnostic) : Prop where
  perm : ds.Perm found
  ordered : ds.Pairwise fun d e => d.line < e.line ∨ d.line = e.line ∧ d.column ≤ e.column
  stable : ∀ line column : Int, ds.filter (fun d => d.line = line ∧ d.column = column) =
    found.filter fun d => d.line = line ∧ d.column = column

theorem Diagnostic.le_iff {d e : Diagnostic} :
    d.le e = true ↔ d.line < e.line ∨ d.line = e.line ∧ d.column ≤ e.column := by
  simp [Diagnostic.le]

theorem Diagnostic.le_trans (d e f : Diagnostic) (hde : d.le e = true) (hef : e.le f = true) : d.le f = true := by
  rw [Diagnostic.le_iff] at *
  omega

theorem Diagnostic.le_total (d e : Diagnostic) : (d.le e || e.le d) = true := by
  rw [Bool.or_eq_true, Diagnostic.le_iff, Diagnostic.le_iff]
  omega

theorem inPlaceOrder_mergeSort (found : List Diagnostic) : InPlaceOrder found (found.mergeSort Diagnostic.le) where
  perm := List.mergeSort_perm found Diagnostic.le
  ordered :=
    (List.pairwise_mergeSort Diagnostic.le_trans Diagnostic.le_total found).imp fun h => Diagnostic.le_iff.1 h
  stable line column := by
    refine filter_mergeSort Diagnostic.le_trans Diagnostic.le_total ?_
    refine List.pairwise_of_forall_mem_list fun d hd e he => Diagnostic.le_iff.2 ?_
    simp only [List.mem_filter, decide_eq_true_eq] at hd he
    omega

/-! ## Complaints -/

/-- A reading with short numerals gives its diagnostic. -/
theorem LineReading.diagnostic_located {s : LineReading} (hline : s.line.length ≤ maxDigits)
    (hcolumn : s.column.length ≤ maxDigits) : s.located.diagnostic = .ok s.diagnostic := by
  have hnumber : ∀ digits : Text, digits.length ≤ maxDigits → numeralOf digits = .ok (Text.numeralValue digits) :=
    fun digits h => if_neg (Nat.not_lt.2 h)
  refine bind_eq_ok_iff.2 ⟨_, hnumber _ hline, bind_eq_ok_iff.2 ⟨_, hnumber _ hcolumn, rfl⟩⟩

/-- The diagnostics of located lines are given in the order of their places, if there are any. -/
theorem diagnosticsOf_of_found {text : Text} {found : List Diagnostic}
    (hfound : (locatedLines text).mapM Located.diagnostic = .ok found) (hne : found ≠ []) :
    diagnosticsOf text = .ok (found.mergeSort Diagnostic.le) := by
  refine bind_eq_ok_iff.2 ⟨found, hfound, ?_⟩
  rw [if_neg (by simpa using hne)]
  rfl

theorem diagnosticsOf_of_none {text : Text} (hnone : (locatedLines text).mapM Located.diagnostic = .ok []) :
    diagnosticsOf text = .ok [unlocated text] :=
  bind_eq_ok_iff.2 ⟨[], hnone, rfl⟩

/-- The located lines of a list give one diagnostic each. -/
theorem exists_forall₂_gives {lines : List Text}
    (hshort : ∀ line ∈ lines, ∀ s : LineReading, s.Counts line →
      s.line.length ≤ maxDigits ∧ s.column.length ≤ maxDigits) :
    ∃ found, (lines.filterMap Located.ofLine?).mapM Located.diagnostic = .ok found ∧
      List.Forall₂ Gives (lines.filter IsLocated) found := by
  simp only [mapM_eq_ok_iff]
  induction lines with
  | nil => exact ⟨[], .nil, .nil⟩
  | cons line lines ih =>
      obtain ⟨hfirst, hrest⟩ := List.forall_mem_cons.1 hshort
      obtain ⟨found, hfound, hgives⟩ := ih hrest
      cases hl : Located.ofLine? line with
      | none =>
          have hnot : ¬ IsLocated line := by simp [isLocated_iff, hl]
          rw [List.filterMap_cons_none hl, List.filter_cons_of_neg (by simpa using hnot)]
          exact ⟨found, hfound, hgives⟩
      | some l =>
          obtain ⟨s, hs, rfl⟩ := LineReading.exists_counts hl
          obtain ⟨hline, hcolumn⟩ := hfirst s hs
          rw [List.filterMap_cons_some hl, List.filter_cons_of_pos (by simpa using ⟨s, hs.toReads⟩)]
          exact ⟨s.diagnostic :: found, .cons (LineReading.diagnostic_located hline hcolumn) hfound,
            .cons ⟨s, hs, rfl⟩ hgives⟩

/-- **A complaint gives the diagnostics of its located lines.** A located line has one reading that counts. If no
    numeral of these is too long then each located line gives one diagnostic, and all of them are given, in the order
    of their places. A complaint without a located line gives its text, or a standing message if it is blank. -/
theorem diagnosticsOf_located (text : Text)
    (hshort : ∀ line ∈ text.splitOn '\n', ∀ s : LineReading, s.Counts line →
      s.line.length ≤ maxDigits ∧ s.column.length ≤ maxDigits) :
    (∀ line ∈ text.splitOn '\n', IsLocated line → ∃! s : LineReading, s.Counts line) ∧
      ∃ found ds, diagnosticsOf text = .ok ds ∧
        List.Forall₂ Gives ((text.splitOn '\n').filter IsLocated) found ∧
        ((∃ line ∈ text.splitOn '\n', IsLocated line) → InPlaceOrder found ds) ∧
        ((∀ line ∈ text.splitOn '\n', ¬ IsLocated line) →
          ds = [⟨0, 0, if Text.trim text = [] then "invalid Rego module".toList else Text.trim text⟩]) := by
  obtain ⟨found, hfound, hgives⟩ := exists_forall₂_gives hshort
  rw [← Text.split_eq_splitOn] at hfound
  refine ⟨fun line _ hline => hline.existsUnique_counts, found, ?_⟩
  rcases eq_or_ne found [] with rfl | hne
  · refine ⟨_, diagnosticsOf_of_none hfound, hgives, ?_, fun _ => ?_⟩
    · rintro ⟨line, hmem, hline⟩
      rw [List.forall₂_nil_right_iff, List.filter_eq_nil_iff] at hgives
      exact absurd (decide_eq_true hline) (hgives line hmem)
    · simp only [unlocated, List.isEmpty_iff]
  · refine ⟨_, diagnosticsOf_of_found hfound hne, hgives, fun _ => inPlaceOrder_mergeSort found, fun hnone => ?_⟩
    rw [List.filter_eq_nil_iff.2 (by simpa using hnone), List.forall₂_nil_left_iff] at hgives
    exact absurd hgives hne

/-- Two lines of one place, the first with a colon in its module name and a digit of another script, behind a line of
    a later place whose message has dashes in it. -/
def tiedComplaint : Text :=
  "bad -- a b -- m:2:07\n  late -- x:y:1:\u0662)\nno place\nearly -- p:1:2:3".toList

/-- What the lines give, in the order of the places. -/
def tiedDiagnostics : List Diagnostic :=
  [⟨1, 2, "late".toList⟩, ⟨1, 2, "early".toList⟩, ⟨2, 7, "bad -- a b".toList⟩]

theorem diagnosticsOf_located_tied :
    ∃ found, diagnosticsOf tiedComplaint = .ok tiedDiagnostics ∧
      List.Forall₂ Gives ((tiedComplaint.splitOn '\n').filter IsLocated) found ∧
      InPlaceOrder found tiedDiagnostics := by
  have hlines : (locatedLines tiedComplaint).mapM Located.diagnostic =
      .ok [⟨2, 7, "bad -- a b".toList⟩, ⟨1, 2, "late".toList⟩, ⟨1, 2, "early".toList⟩] := by decide +kernel
  have hvalue : diagnosticsOf tiedComplaint = .ok tiedDiagnostics := by
    rw [diagnosticsOf_of_found hlines (List.cons_ne_nil _ _)]
    simp [List.mergeSort, List.MergeSort.Internal.splitInTwo, Diagnostic.le, tiedDiagnostics]
  have hlength : ∀ line ∈ tiedComplaint.splitOn '\n', line.length ≤ maxDigits := by
    rw [← Text.split_eq_splitOn]
    decide +kernel
  obtain ⟨_, found, ds, hds, hgives, horder, _⟩ := diagnosticsOf_located tiedComplaint fun line hline s hs => by
    obtain ⟨hl, hc⟩ := hs.toReads.length_column_le
    exact ⟨Nat.le_trans hl (hlength line hline), Nat.le_trans hc (hlength line hline)⟩
  obtain rfl := Except.ok.inj (hvalue.symm.trans hds)
  refine ⟨found, hvalue, hgives, horder ⟨"early -- p:1:2:3".toList, ?_⟩⟩
  rw [← Text.split_eq_splitOn]
  decide +kernel

end PolicyTable.Rego
