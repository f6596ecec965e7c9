import Mathlib.Data.Finset.Card
import PolicyTable.Proofs.Rego.Literals

/-!
# `PolicyTable.Proofs.Rego.Brackets` — what is reported about brackets

The brackets of the code of a source are matched without crossing: an opening bracket inside a pair has its
own closing one inside it, and a closing bracket is matched exactly if the last opening bracket that waits in
front of it is of its kind. A scan reports each bracket without a partner, and no other.

## Contents
- **Matchings.** `Matching`, with `LastWaiting` for the bracket that a closing one meets;
  `matching_pairing`.
- **Reports.** `unclosed_reports` and `unexpected_reports`, by the brackets without a pair.
- **Counting.** As many opening brackets have a partner as closing ones.

Main statement: `scan_bracket_reports`.
-/

namespace PolicyTable.Rego

variable {source before rest : Text} {row : List Mark} {m o : Mark}

/-! ## Matchings -/

/-- The last opening bracket before an offset that has no partner when the offset is reached. -/
structure LastWaiting (row : List Mark) (M : Finset (Nat × Nat)) (offset : Nat) (o : Mark) : Prop where
  mem : o ∈ row
  opens : o.opens = true
  before : o.offset < offset
  free : ∀ l < offset, (o.offset, l) ∉ M
  last : ∀ n ∈ row, n.opens = true → o.offset < n.offset → n.offset < offset →
    ∃ l < offset, (n.offset, l) ∈ M

/-- **A matching of the brackets of a row**, as pairs of offsets. -/
structure Matching (row : List Mark) (M : Finset (Nat × Nat)) : Prop where
  kind : ∀ i j, (i, j) ∈ M → i < j ∧ ∃ b, ⟨i, b, true⟩ ∈ row ∧ ⟨j, b, false⟩ ∈ row
  once : ∀ q ∈ M, ∀ r ∈ M, q.1 = r.1 ∨ q.1 = r.2 ∨ q.2 = r.1 ∨ q.2 = r.2 → q = r
  apart : ∀ q ∈ M, ∀ r ∈ M, ¬ (q.1 < r.1 ∧ r.1 < q.2 ∧ q.2 < r.2)
  inside : ∀ i j, (i, j) ∈ M → ∀ m ∈ row, m.opens = true → i < m.offset → m.offset < j →
    ∃ l, m.offset < l ∧ l < j ∧ (m.offset, l) ∈ M
  nearest : ∀ m ∈ row, m.opens = false →
    ((∃ i, (i, m.offset) ∈ M) ↔ ∃ o, LastWaiting row M m.offset o ∧ o.bracket = m.bracket)

theorem InOrder.eq_of_offset (h : InOrder row) (hm : m ∈ row) (ho : o ∈ row)
    (heq : m.offset = o.offset) : m = o := by
  have hnodup : (row.map (·.offset)).Nodup := List.pairwise_map.2 (h.imp Nat.ne_of_lt)
  exact List.inj_on_of_nodup_map hnodup hm ho heq

/-- No offset both opens and closes. -/
theorem Pairs.fst_ne_snd {p : Pairing} (h : Pairs row p) (hrow : InOrder row) {q r : Nat × Nat}
    (hq : q ∈ p.pairs) (hr : r ∈ p.pairs) : q.1 ≠ r.2 := by
  intro heq
  obtain ⟨_, b, ho, _⟩ := h.kind _ _ hq
  obtain ⟨_, b', _, hc⟩ := h.kind _ _ hr
  have hsame : true = false := congrArg Mark.opens (hrow.eq_of_offset ho hc heq)
  cases hsame

/-- In front of a closing bracket, the last one that waits is the innermost one of the pairing. -/
theorem lastWaiting_iff {later : List Mark} (hrow : InOrder (row ++ m :: later)) :
    LastWaiting (row ++ m :: later) (pairing (row ++ m :: later)).pairs.toFinset m.offset o ↔
      ∃ outer, (pairing row).waiting = o :: outer := by
  obtain ⟨hrow', hlater, hlt⟩ := List.pairwise_append.1 hrow
  rw [waiting_head_iff (pairs_pairing hrow') hrow']
  have hmem : ∀ n : Mark, n ∈ row ++ m :: later → n.offset < m.offset → n ∈ row := by
    intro n hn hnm
    rcases List.mem_append.1 hn with hn | hn
    · exact hn
    · rcases List.mem_cons.1 hn with rfl | hn
      · exact absurd hnm (Nat.lt_irrefl _)
      · exact absurd hnm (Nat.lt_asymm ((List.pairwise_cons.1 hlater).1 n hn))
  constructor
  · intro h
    refine ⟨hmem o h.mem h.before, h.opens, fun j hj => ?_, fun n hn hopen hon => ?_⟩
    · obtain ⟨hjm, hj'⟩ := (mem_pairs_beginning_iff hrow).1 hj
      exact h.free j hjm (List.mem_toFinset.2 hj')
    · obtain ⟨l, hl, hnl⟩ := h.last n (List.mem_append_left _ hn) hopen hon
        (hlt n hn m List.mem_cons_self)
      exact ⟨l, (mem_pairs_beginning_iff hrow).2 ⟨hl, List.mem_toFinset.1 hnl⟩⟩
  · rintro ⟨ho, hopen, hfree, hlast⟩
    refine ⟨List.mem_append_left _ ho, hopen, hlt o ho m List.mem_cons_self, fun l hl hol => ?_, ?_⟩
    · exact hfree l ((mem_pairs_beginning_iff hrow).2 ⟨hl, List.mem_toFinset.1 hol⟩)
    · intro n hn hno hon hnm
      obtain ⟨l, hl⟩ := hlast n (hmem n hn hnm) hno hon
      obtain ⟨hlm, hl'⟩ := (mem_pairs_beginning_iff hrow).1 hl
      exact ⟨l, hlm, List.mem_toFinset.2 hl'⟩

/-- **The pairing of a row in order is a matching.** -/
theorem matching_pairing (hrow : InOrder row) : Matching row (pairing row).pairs.toFinset := by
  have h := pairs_pairing hrow
  have inside : ∀ i j, (i, j) ∈ (pairing row).pairs → ∀ m ∈ row, m.opens = true → i < m.offset →
      m.offset < j → ∃ l, m.offset < l ∧ l < j ∧ (m.offset, l) ∈ (pairing row).pairs := by
    intro i j hij m hm hopen him hmj
    obtain ⟨l, hlj, hl⟩ := h.inside i j hij m hm hopen him hmj
    exact ⟨l, (h.kind _ _ hl).1, hlj, hl⟩
  refine ⟨?_, ?_, ?_, ?_, ?_⟩
  · intro i j hij
    exact h.kind i j (List.mem_toFinset.1 hij)
  · intro q hq r hr hqr
    rw [List.mem_toFinset] at hq hr
    rcases hqr with hqr | hqr | hqr | hqr
    · exact h.once q hq r hr (.inl hqr)
    · exact absurd hqr (h.fst_ne_snd hrow hq hr)
    · exact absurd hqr.symm (h.fst_ne_snd hrow hr hq)
    · exact h.once q hq r hr (.inr hqr)
  · rintro ⟨i, j⟩ hq ⟨i', j'⟩ hr ⟨h1, h2, h3⟩
    rw [List.mem_toFinset] at hq hr
    -- The second opening bracket lies inside the first pair, so its partner does as well.
    obtain ⟨_, b, ho, _⟩ := h.kind _ _ hr
    obtain ⟨l, _, hlj, hl⟩ := inside i j hq _ ho rfl h1 h2
    have hlj' : l = j' := (Prod.mk.inj (h.once _ hl _ hr (.inl rfl))).2
    exact absurd h3 (Nat.lt_asymm (hlj' ▸ hlj))
  · intro i j hij m hm hopen him hmj
    obtain ⟨l, hml, hlj, hl⟩ := inside i j (List.mem_toFinset.1 hij) m hm hopen him hmj
    exact ⟨l, hml, hlj, List.mem_toFinset.2 hl⟩
  · intro m hm hclose
    obtain ⟨front, later, rfl⟩ := List.append_of_mem hm
    simp only [List.mem_toFinset, closing_paired_iff hrow hclose, lastWaiting_iff hrow, exists_and_right]

/-- A closing bracket of another kind takes no partner, and the one behind it pairs across it. -/
example : bracketPairs ['(', '[', ')', ']'] = [(1, 3)] := by decide

/-! ## Reports -/

/-- The mark of a bracket is a character of code. -/
theorem mem_marks_iff :
    m ∈ marks source ↔ ∃ before rest, Zone.after before = .code ∧ before.length = m.offset ∧
      source = before ++ (if m.opens then m.bracket.opening else m.bracket.closing) :: rest := by
  rw [marks, mem_gather_iff]
  constructor
  · rintro ⟨k, _, hk⟩
    obtain ⟨before, c, rest, hs, rfl, hm⟩ := readAt_eq_some_iff.1 hk
    obtain ⟨hz, hoff, hc⟩ := markOf_eq_some hm
    exact ⟨before, rest, hz, hoff.symm, hc ▸ hs⟩
  · rintro ⟨before, rest, hz, hoff, hs⟩
    refine ⟨before.length, by simp [hs], readAt_eq_some_iff.2 ⟨before, _, rest, hs, rfl, ?_⟩⟩
    obtain ⟨k, b, opens⟩ := m
    obtain rfl : before.length = k := hoff
    cases opens with
    | true => exact markOf_opening hz
    | false => exact markOf_closing hz

/-- The diagnostic for a fault of a bracket. -/
def markDiagnostic (source : Text) (fault : Bracket → LexicalFault) (m : Mark) : Diagnostic :=
  (LexicalError.mk (placeAt source m.offset) (fault m.bracket)).diagnostic

/-- Reports about brackets, by the row of brackets. -/
theorem reports_marks (source : Text) (p : Mark → Bool) (fault : Bracket → LexicalFault) :
    reports (fun before c rest => ((markOf before c rest).filter p).map (fault ·.bracket)) source =
      ((marks source).filter p).map (markDiagnostic source fault) := by
  rw [reports, gather, marks, gather, List.filter_filterMap, List.map_filterMap]
  refine List.filterMap_congr fun k hk => ?_
  obtain ⟨before, c, rest, hs, rfl⟩ := exists_split (List.mem_range.1 hk)
  rw [readAt_of_eq hs, readAt_of_eq hs, Option.map_map]
  cases hm : markOf before c rest with
  | none => rfl
  | some m =>
      have hplace : placeAt source m.offset = .after before := by
        rw [(markOf_eq_some hm).2.1, placeAt_of_eq hs]
      cases hp : p m <;> simp [Option.filter, hp, markDiagnostic, hplace]

/-- Does the message say that an opening bracket is not closed? -/
def saysUnclosed (message : Text) : Bool := "unclosed ".toList.isPrefixOf message

/-- Does the message say that a closing bracket was not expected? -/
def saysUnexpected (message : Text) : Bool := "unexpected ".toList.isPrefixOf message

theorem saysUnclosed_iff {f : LexicalFault} : saysUnclosed f.message = true ↔ ∃ b, f = .unclosed b := by
  constructor
  · intro h
    cases f with
    | illegal c => cases h
    | unexpected b => cases b <;> cases h
    | unclosed b => exact ⟨b, rfl⟩
    | unterminatedString => cases h
    | unterminatedRaw => cases h
  · rintro ⟨b, rfl⟩
    exact List.isPrefixOf_iff_prefix.2 ⟨[b.opening], rfl⟩

theorem saysUnexpected_iff {f : LexicalFault} :
    saysUnexpected f.message = true ↔ ∃ b, f = .unexpected b := by
  constructor
  · intro h
    cases f with
    | illegal c => cases h
    | unexpected b => exact ⟨b, rfl⟩
    | unclosed b => cases b <;> cases h
    | unterminatedString => cases h
    | unterminatedRaw => cases h
  · rintro ⟨b, rfl⟩
    exact List.isPrefixOf_iff_prefix.2 ⟨b.closing :: " token".toList, rfl⟩

/-- The opening brackets of a row without a partner. -/
def aloneOpening (M : Finset (Nat × Nat)) (m : Mark) : Bool :=
  m.opens && decide (m.offset ∉ M.image Prod.fst)

/-- The closing brackets of a row without a partner. -/
def aloneClosing (M : Finset (Nat × Nat)) (m : Mark) : Bool :=
  !m.opens && decide (m.offset ∉ M.image Prod.snd)

theorem unclosed_reports (source : Text) :
    (scan source).diagnostics.filter (fun d => saysUnclosed d.message) =
      ((marks source).filter (aloneOpening (bracketPairs source).toFinset)).map
        (markDiagnostic source .unclosed) := by
  rw [← reports_marks]
  refine filter_diagnostics_eq fun before c rest e => ?_
  rw [saysUnclosed_iff]
  constructor
  · intro h
    obtain ⟨m, hm, rfl⟩ := Option.map_eq_some_iff.1 h
    obtain ⟨hm, hp⟩ := Option.filter_eq_some_iff.1 hm
    obtain ⟨hz, hoff, hc⟩ := markOf_eq_some hm
    rw [aloneOpening, Bool.and_eq_true, decide_eq_true_eq, hoff] at hp
    obtain ⟨hopen, hno⟩ := hp
    rw [hopen] at hc
    exact ⟨.unclosed hz hc (by simpa using hno), m.bracket, rfl⟩
  · rintro ⟨hf, b, rfl⟩
    cases hf with
    | unclosed hz hc hp =>
        have halone : aloneOpening (bracketPairs source).toFinset ⟨before.length, b, true⟩ = true := by
          simpa [aloneOpening] using hp
        rw [hc, markOf_opening hz, Option.filter_some_pos halone]
        rfl

theorem unexpected_reports (source : Text) :
    (scan source).diagnostics.filter (fun d => saysUnexpected d.message) =
      ((marks source).filter (aloneClosing (bracketPairs source).toFinset)).map
        (markDiagnostic source .unexpected) := by
  rw [← reports_marks]
  refine filter_diagnostics_eq fun before c rest e => ?_
  rw [saysUnexpected_iff]
  constructor
  · intro h
    obtain ⟨m, hm, rfl⟩ := Option.map_eq_some_iff.1 h
    obtain ⟨hm, hp⟩ := Option.filter_eq_some_iff.1 hm
    obtain ⟨hz, hoff, hc⟩ := markOf_eq_some hm
    rw [aloneClosing, Bool.and_eq_true, Bool.not_eq_true', decide_eq_true_eq, hoff] at hp
    obtain ⟨hclose, hno⟩ := hp
    rw [hclose] at hc
    exact ⟨.unexpected hz hc (by simpa using hno), m.bracket, rfl⟩
  · rintro ⟨hf, b, rfl⟩
    cases hf with
    | unexpected hz hc hp =>
        have halone : aloneClosing (bracketPairs source).toFinset ⟨before.length, b, false⟩ = true := by
          simpa [aloneClosing] using hp
        rw [hc, markOf_closing hz, Option.filter_some_pos halone]
        rfl

/-! ## Counting -/

/-- The brackets of one side of the pairs are those without a partner, and one for each pair. -/
theorem countP_eq_alone_add_card {M : Finset (Nat × Nat)} (hrow : InOrder row) {p : Mark → Bool}
    {f : Nat × Nat → Nat} (hf : Set.InjOn f M) (h : ∀ q ∈ M, ∃ m ∈ row, p m = true ∧ m.offset = f q) :
    row.countP p = (row.filter fun m => p m && decide (m.offset ∉ M.image f)).length + M.card := by
  have hnodup : ((row.filter fun m => p m && decide (m.offset ∈ M.image f)).map (·.offset)).Nodup :=
    List.pairwise_map.2 ((hrow.filter _).imp Nat.ne_of_lt)
  have himage : ((row.filter fun m => p m && decide (m.offset ∈ M.image f)).map (·.offset)).toFinset =
      M.image f := by
    ext k
    rw [List.mem_toFinset, List.mem_map]
    constructor
    · rintro ⟨m, hm, rfl⟩
      exact of_decide_eq_true (Bool.and_eq_true_iff.1 (List.mem_filter.1 hm).2).2
    · intro hk
      obtain ⟨q, hq, rfl⟩ := Finset.mem_image.1 hk
      obtain ⟨m, hm, hp, hoff⟩ := h q hq
      exact ⟨m, List.mem_filter.2 ⟨hm, by rw [hp, hoff, decide_eq_true hk]; rfl⟩, hoff⟩
  have hcard : (row.filter fun m => p m && decide (m.offset ∈ M.image f)).length = M.card := by
    rw [← List.length_map (·.offset), ← List.toFinset_card_of_nodup hnodup, himage,
      Finset.card_image_of_injOn hf]
  rw [← hcard, List.countP_eq_countP_filter_add row p (fun m => decide (m.offset ∈ M.image f)),
    List.countP_filter, List.countP_filter, List.countP_eq_length_filter, List.countP_eq_length_filter,
    Nat.add_comm]
  simp only [decide_not]

theorem Matching.openings {M : Finset (Nat × Nat)} (h : Matching row M) (hrow : InOrder row) :
    row.countP (·.opens) = (row.filter (aloneOpening M)).length + M.card := by
  refine countP_eq_alone_add_card hrow (fun q hq r hr hqr => h.once q hq r hr (.inl hqr)) ?_
  rintro ⟨i, j⟩ hij
  obtain ⟨_, b, ho, _⟩ := h.kind i j hij
  exact ⟨_, ho, rfl, rfl⟩

theorem Matching.closings {M : Finset (Nat × Nat)} (h : Matching row M) (hrow : InOrder row) :
    row.countP (!·.opens) = (row.filter (aloneClosing M)).length + M.card := by
  refine countP_eq_alone_add_card hrow
    (fun q hq r hr hqr => h.once q hq r hr (.inr (.inr (.inr hqr)))) ?_
  rintro ⟨i, j⟩ hij
  obtain ⟨_, b, _, hc⟩ := h.kind i j hij
  exact ⟨_, hc, rfl, rfl⟩

/-- **The brackets of a source are matched without crossing, and those without a partner are reported.** Each
    is reported once, at its own place, and no other bracket is. So as many opening brackets as closing ones
    are not reported. -/
theorem scan_bracket_reports (source : Text) :
    ∃ M : Finset (Nat × Nat), Matching (marks source) M ∧
      (scan source).diagnostics.filter (fun d => saysUnclosed d.message) =
        ((marks source).filter (aloneOpening M)).map (markDiagnostic source .unclosed) ∧
      (scan source).diagnostics.filter (fun d => saysUnexpected d.message) =
        ((marks source).filter (aloneClosing M)).map (markDiagnostic source .unexpected) ∧
      ((marks source).countP (·.opens) : Int) -
          (scan source).diagnostics.countP (fun d => saysUnclosed d.message) =
        (marks source).countP (!·.opens) -
          (scan source).diagnostics.countP (fun d => saysUnexpected d.message) := by
  have hrow := inOrder_marks source
  have hmatch : Matching (marks source) (bracketPairs source).toFinset := matching_pairing hrow
  refine ⟨_, hmatch, unclosed_reports source, unexpected_reports source, ?_⟩
  have hunclosed := congrArg List.length (unclosed_reports source)
  have hunexpected := congrArg List.length (unexpected_reports source)
  rw [← List.countP_eq_length_filter, List.length_map] at hunclosed hunexpected
  rw [hunclosed, hunexpected, hmatch.openings hrow, hmatch.closings hrow]
  omega

end PolicyTable.Rego
