import Mathlib.Data.List.Induction
import PolicyTable.Rego.Diagnostic

/-!
# `PolicyTable.Proofs.Rego.Pairing` — which closing bracket belongs to which opening one

A row of brackets is paired from the left. A closing bracket takes the last opening bracket that is still
waiting if that one is of its kind; otherwise it stays alone and nothing else changes, so that later
brackets may still pair across it.

## Contents
- **Machine.** `Mark`, a bracket with its offset; `Pairing.next` over one mark and `pairing` over a row.
- **Invariant.** `Pairs`, which every mark keeps (`Pairs.opening`, `Pairs.paired`, `Pairs.alone`).
- **Beginnings.** `closing_paired_iff` and `waiting_head_iff` say what a closing bracket meets.

Main statement: `pairs_pairing`.
-/

namespace PolicyTable.Rego

/-! ## Machine -/

/-- A bracket of a source: its offset, its kind, and whether it opens or closes. -/
structure Mark where
  offset : Nat
  bracket : Bracket
  opens : Bool
  deriving DecidableEq, Repr

/-- The opening brackets that wait for a closing one, innermost first, and the pairs of offsets found. -/
structure Pairing where
  waiting : List Mark := []
  pairs : List (Nat × Nat) := []
  deriving DecidableEq, Repr

/-- The pairing after one more bracket. -/
def Pairing.next (p : Pairing) (m : Mark) : Pairing :=
  if m.opens then { p with waiting := m :: p.waiting }
  else
    match p.waiting with
    | o :: outer =>
      if o.bracket = m.bracket then ⟨outer, p.pairs ++ [(o.offset, m.offset)]⟩ else p
    | [] => p

/-- The pairing of a row of brackets. -/
def pairing (row : List Mark) : Pairing := row.foldl Pairing.next {}

/-- The brackets of a row stand in the order of their offsets. -/
def InOrder (row : List Mark) : Prop := row.Pairwise fun m n => m.offset < n.offset

variable {row : List Mark} {p : Pairing} {m o : Mark} {outer : List Mark}

theorem pairing_concat (row : List Mark) (m : Mark) :
    pairing (row ++ [m]) = (pairing row).next m := by
  simp [pairing]

theorem Pairing.next_opening (hm : m.opens = true) :
    p.next m = { p with waiting := m :: p.waiting } := by
  simp [Pairing.next, hm]

theorem Pairing.next_paired (hm : m.opens = false) (hw : p.waiting = o :: outer)
    (hb : o.bracket = m.bracket) :
    p.next m = ⟨outer, p.pairs ++ [(o.offset, m.offset)]⟩ := by
  simp [Pairing.next, hm, hw, hb]

theorem Pairing.next_alone (hm : m.opens = false)
    (hw : ∀ o outer, p.waiting = o :: outer → o.bracket ≠ m.bracket) : p.next m = p := by
  simp only [Pairing.next, hm, Bool.false_eq_true, if_false]
  split
  · rename_i o outer h
    exact if_neg (hw o outer h)
  · rfl

theorem InOrder.offset_lt (h : InOrder (row ++ [m])) {n : Mark} (hn : n ∈ row) :
    n.offset < m.offset :=
  (List.pairwise_append.1 h).2.2 n hn m (List.mem_singleton_self m)

/-! ## Invariant -/

/-- **What holds of a row and its pairing.** The brackets that wait are the opening ones without a pair, in
    order. A pair is an opening bracket and a later closing one of its kind, no bracket is in two pairs, and
    an opening bracket inside a pair has its own closing one inside it. -/
structure Pairs (row : List Mark) (p : Pairing) : Prop where
  waiting_eq : p.waiting.reverse = row.filter fun m => m.opens && !(p.pairs.map (·.1)).contains m.offset
  kind : ∀ i j, (i, j) ∈ p.pairs → i < j ∧ ∃ b, ⟨i, b, true⟩ ∈ row ∧ ⟨j, b, false⟩ ∈ row
  once : ∀ q ∈ p.pairs, ∀ r ∈ p.pairs, q.1 = r.1 ∨ q.2 = r.2 → q = r
  inside : ∀ i j, (i, j) ∈ p.pairs → ∀ m ∈ row, m.opens = true → i < m.offset → m.offset < j →
    ∃ l < j, (m.offset, l) ∈ p.pairs

theorem Pairs.mem_waiting_iff (h : Pairs row p) :
    m ∈ p.waiting ↔ m ∈ row ∧ m.opens = true ∧ ∀ j, (m.offset, j) ∉ p.pairs := by
  rw [← List.mem_reverse, h.waiting_eq]
  simp

/-- Behind the innermost waiting bracket every opening bracket has its pair. -/
theorem Pairs.paired_behind (h : Pairs row p) (hrow : InOrder row) (hw : p.waiting = o :: outer)
    {n : Mark} (hn : n ∈ row) (hopen : n.opens = true) (hlt : o.offset < n.offset) :
    ∃ l, (n.offset, l) ∈ p.pairs := by
  by_contra hno
  have hmem : n ∈ p.waiting := h.mem_waiting_iff.2 ⟨hn, hopen, not_exists.1 hno⟩
  have horder : InOrder (outer.reverse ++ [o]) := by
    rw [← List.reverse_cons, ← hw, h.waiting_eq]
    exact hrow.filter _
  rw [hw] at hmem
  rcases List.mem_cons.1 hmem with rfl | hmem
  · exact absurd hlt (Nat.lt_irrefl _)
  · exact absurd hlt (Nat.lt_asymm (horder.offset_lt (List.mem_reverse.2 hmem)))

theorem Pairs.nil : Pairs [] {} where
  waiting_eq := rfl
  kind := by simp
  once := by simp
  inside := by simp

/-- Nothing of a row lies at the offset of a later bracket. -/
theorem Pairs.not_mem_pairs (h : Pairs row p) (hrow : InOrder (row ++ [m])) (i : Nat) :
    (m.offset, i) ∉ p.pairs ∧ (i, m.offset) ∉ p.pairs := by
  constructor
  · intro hi
    obtain ⟨_, b, ho, _⟩ := h.kind _ _ hi
    have hlt := hrow.offset_lt ho
    exact Nat.lt_irrefl m.offset hlt
  · intro hi
    obtain ⟨_, b, _, hc⟩ := h.kind _ _ hi
    have hlt := hrow.offset_lt hc
    exact Nat.lt_irrefl m.offset hlt

theorem Pairs.kind_append (h : Pairs row p) (m : Mark) (i j : Nat) (hij : (i, j) ∈ p.pairs) :
    i < j ∧ ∃ b, ⟨i, b, true⟩ ∈ row ++ [m] ∧ ⟨j, b, false⟩ ∈ row ++ [m] := by
  obtain ⟨hlt, b, ho, hc⟩ := h.kind i j hij
  exact ⟨hlt, b, List.mem_append_left _ ho, List.mem_append_left _ hc⟩

/-- A later bracket is not inside a pair. -/
theorem Pairs.inside_append (h : Pairs row p) (hrow : InOrder (row ++ [m])) (i j : Nat)
    (hij : (i, j) ∈ p.pairs) (n : Mark) (hn : n ∈ row ++ [m]) (hopen : n.opens = true)
    (hi : i < n.offset) (hj : n.offset < j) : ∃ l < j, (n.offset, l) ∈ p.pairs := by
  rcases List.mem_append.1 hn with hn | hn
  · exact h.inside i j hij n hn hopen hi hj
  · obtain rfl := List.mem_singleton.1 hn
    obtain ⟨_, b, _, hc⟩ := h.kind i j hij
    have hlt := hrow.offset_lt hc
    exact absurd hj (Nat.lt_asymm hlt)

/-- An opening bracket waits. -/
theorem Pairs.opening (h : Pairs row p) (hrow : InOrder (row ++ [m])) (hm : m.opens = true) :
    Pairs (row ++ [m]) { p with waiting := m :: p.waiting } where
  waiting_eq := by
    have hfresh : m.offset ∉ p.pairs.map (·.1) := by
      rintro hmem
      obtain ⟨⟨i, j⟩, hij, rfl⟩ := List.mem_map.1 hmem
      exact (h.not_mem_pairs hrow j).1 hij
    rw [List.reverse_cons, h.waiting_eq, List.filter_append]
    simp [hm, hfresh]
  kind := h.kind_append m
  once := h.once
  inside := h.inside_append hrow

/-- A closing bracket that is left alone changes nothing. -/
theorem Pairs.alone (h : Pairs row p) (hrow : InOrder (row ++ [m])) (hm : m.opens = false) :
    Pairs (row ++ [m]) p where
  waiting_eq := by
    rw [h.waiting_eq, List.filter_append]
    simp [hm]
  kind := h.kind_append m
  once := h.once
  inside := h.inside_append hrow

/-- A closing bracket takes the innermost waiting bracket of its kind. -/
theorem Pairs.paired (h : Pairs row p) (hrow : InOrder (row ++ [m])) (hm : m.opens = false)
    (hw : p.waiting = o :: outer) (hb : o.bracket = m.bracket) :
    Pairs (row ++ [m]) ⟨outer, p.pairs ++ [(o.offset, m.offset)]⟩ := by
  have hrow' : InOrder row := (List.pairwise_append.1 hrow).1
  obtain ⟨ho, hopen, hfree⟩ := h.mem_waiting_iff.1 (hw ▸ List.mem_cons_self : o ∈ p.waiting)
  have hlt : o.offset < m.offset := hrow.offset_lt ho
  refine ⟨?_, ?_, ?_, ?_⟩
  · -- The waiting brackets other than the innermost one stand in front of it, so it alone drops out.
    have horder : InOrder (outer.reverse ++ [o]) := by
      rw [← List.reverse_cons, ← hw, h.waiting_eq]
      exact hrow'.filter _
    have hrest : outer.reverse = p.waiting.reverse.filter fun n => n.offset ≠ o.offset := by
      have hall : outer.reverse.filter (fun n => n.offset ≠ o.offset) = outer.reverse :=
        List.filter_eq_self.2 fun n hn => decide_eq_true (Nat.ne_of_lt (horder.offset_lt hn))
      rw [hw, List.reverse_cons, List.filter_append, hall]
      simp
    have hlast : [m].filter (fun n => n.opens &&
        !((p.pairs ++ [(o.offset, m.offset)]).map (·.1)).contains n.offset) = [] := by simp [hm]
    rw [hrest, h.waiting_eq, List.filter_filter, List.filter_append, hlast, List.append_nil]
    refine List.filter_congr fun n _ => ?_
    rw [List.map_append, List.contains_append]
    by_cases hn : n.offset = o.offset <;> simp [hn]
  · intro i j hij
    rcases List.mem_append.1 hij with hij | hij
    · exact h.kind_append m i j hij
    · obtain ⟨rfl, rfl⟩ := Prod.mk.inj (List.mem_singleton.1 hij)
      refine ⟨hlt, o.bracket, List.mem_append_left _ ?_, List.mem_append_right _ ?_⟩
      · exact hopen ▸ ho
      · rw [hb, ← hm]
        exact List.mem_singleton_self m
  · -- Neither end of the new pair is in a pair so far.
    have hnew : ∀ q ∈ p.pairs, ¬ (q.1 = o.offset ∨ q.2 = m.offset) := by
      rintro ⟨i, j⟩ hq (rfl | rfl)
      · exact hfree j hq
      · exact (h.not_mem_pairs hrow i).2 hq
    intro q hq r hr hqr
    rcases List.mem_append.1 hq with hq | hq <;> rcases List.mem_append.1 hr with hr | hr
    · exact h.once q hq r hr hqr
    · rw [List.mem_singleton.1 hr] at hqr
      exact absurd hqr (hnew q hq)
    · rw [List.mem_singleton.1 hq] at hqr
      exact absurd (hqr.imp Eq.symm Eq.symm) (hnew r hr)
    · rw [List.mem_singleton.1 hq, List.mem_singleton.1 hr]
  · intro i j hij n hn hno hi hj
    rcases List.mem_append.1 hij with hij | hij
    · obtain ⟨l, hl, hnl⟩ := h.inside_append hrow i j hij n hn hno hi hj
      exact ⟨l, hl, List.mem_append_left _ hnl⟩
    · obtain ⟨rfl, rfl⟩ := Prod.mk.inj (List.mem_singleton.1 hij)
      have hn' : n ∈ row := by
        rcases List.mem_append.1 hn with hn | hn
        · exact hn
        · rw [List.mem_singleton.1 hn] at hj
          exact absurd hj (Nat.lt_irrefl _)
      obtain ⟨l, hl⟩ := h.paired_behind hrow' hw hn' hno hi
      obtain ⟨_, b, _, hc⟩ := h.kind _ _ hl
      exact ⟨l, hrow.offset_lt hc, List.mem_append_left _ hl⟩

/-- **Every mark keeps the invariant.** -/
theorem Pairs.next (h : Pairs row p) (hrow : InOrder (row ++ [m])) : Pairs (row ++ [m]) (p.next m) := by
  cases hm : m.opens with
  | true =>
      rw [Pairing.next_opening hm]
      exact h.opening hrow hm
  | false =>
      by_cases hw : ∃ o outer, p.waiting = o :: outer ∧ o.bracket = m.bracket
      · obtain ⟨o, outer, hw, hb⟩ := hw
        rw [Pairing.next_paired hm hw hb]
        exact h.paired hrow hm hw hb
      · rw [Pairing.next_alone hm fun o outer ho hb => hw ⟨o, outer, ho, hb⟩]
        exact h.alone hrow hm

/-- **The pairing of a row in order has the invariant.** -/
theorem pairs_pairing (hrow : InOrder row) : Pairs row (pairing row) := by
  induction row using List.reverseRecOn with
  | nil => exact .nil
  | append_singleton row m ih =>
      rw [pairing_concat]
      exact (ih (List.pairwise_append.1 hrow).1).next hrow

/-! ## Beginnings -/

/-- Later brackets take nothing back, and each new pair ends at one of them. -/
theorem pairs_append (row later : List Mark) :
    ∃ new, (pairing (row ++ later)).pairs = (pairing row).pairs ++ new ∧
      ∀ q ∈ new, ∃ m ∈ later, m.offset = q.2 := by
  induction later using List.reverseRecOn with
  | nil => exact ⟨[], by simp, by simp⟩
  | append_singleton later m ih =>
      obtain ⟨new, hnew, hlater⟩ := ih
      have hlater' : ∀ q ∈ new, ∃ n ∈ later ++ [m], n.offset = q.2 := by
        intro q hq
        obtain ⟨n, hn, hnq⟩ := hlater q hq
        exact ⟨n, List.mem_append_left _ hn, hnq⟩
      rw [← List.append_assoc, pairing_concat]
      cases hm : m.opens with
      | true => exact ⟨new, by rw [Pairing.next_opening hm, hnew], hlater'⟩
      | false =>
          by_cases hw : ∃ o outer, (pairing (row ++ later)).waiting = o :: outer ∧ o.bracket = m.bracket
          · obtain ⟨o, outer, hw, hb⟩ := hw
            refine ⟨new ++ [(o.offset, m.offset)], ?_, ?_⟩
            · rw [Pairing.next_paired hm hw hb, hnew, List.append_assoc]
            · intro q hq
              rcases List.mem_append.1 hq with hq | hq
              · exact hlater' q hq
              · rw [List.mem_singleton.1 hq]
                exact ⟨m, by simp, rfl⟩
          · refine ⟨new, ?_, hlater'⟩
            rw [Pairing.next_alone hm fun o outer ho hb => hw ⟨o, outer, ho, hb⟩, hnew]

variable {later : List Mark}

/-- A beginning of the row has the pairs that end before what follows it. -/
theorem mem_pairs_beginning_iff (hrow : InOrder (row ++ m :: later)) {i j : Nat} :
    (i, j) ∈ (pairing row).pairs ↔ j < m.offset ∧ (i, j) ∈ (pairing (row ++ m :: later)).pairs := by
  obtain ⟨hrow', hlater, hlt⟩ := List.pairwise_append.1 hrow
  obtain ⟨new, hnew, hends⟩ := pairs_append row (m :: later)
  rw [hnew, List.mem_append]
  constructor
  · intro hij
    obtain ⟨_, b, _, hc⟩ := (pairs_pairing hrow').kind i j hij
    exact ⟨hlt _ hc m List.mem_cons_self, .inl hij⟩
  · rintro ⟨hj, hij | hij⟩
    · exact hij
    · obtain ⟨n, hn, rfl⟩ := hends _ hij
      rcases List.mem_cons.1 hn with rfl | hn
      · exact absurd hj (Nat.lt_irrefl _)
      · exact absurd hj (Nat.lt_asymm ((List.pairwise_cons.1 hlater).1 n hn))

/-- A closing bracket gets a pair exactly if the innermost bracket that waits for it is of its kind. -/
theorem closing_paired_iff (hrow : InOrder (row ++ m :: later)) (hm : m.opens = false) :
    (∃ i, (i, m.offset) ∈ (pairing (row ++ m :: later)).pairs) ↔
      ∃ o outer, (pairing row).waiting = o :: outer ∧ o.bracket = m.bracket := by
  have hrow' : InOrder (row ++ [m]) :=
    hrow.sublist ((List.Sublist.refl row).append (List.singleton_sublist.2 List.mem_cons_self))
  have hp := pairs_pairing (List.pairwise_append.1 hrow').1
  have hmem : (∃ i, (i, m.offset) ∈ (pairing (row ++ m :: later)).pairs) ↔
      ∃ i, (i, m.offset) ∈ (pairing (row ++ [m])).pairs := by
    obtain ⟨new, hnew, hends⟩ := pairs_append (row ++ [m]) later
    rw [List.append_assoc, List.singleton_append] at hnew
    have hno : ∀ i, (i, m.offset) ∉ new := by
      intro i hi
      obtain ⟨n, hn, hnm⟩ := hends _ hi
      have hlt := (List.pairwise_cons.1 (List.pairwise_append.1 hrow).2.1).1 n hn
      exact absurd hnm (Nat.ne_of_gt hlt)
    simp [hnew, hno]
  rw [hmem, pairing_concat]
  constructor
  · rintro ⟨i, hi⟩
    by_contra hw
    rw [Pairing.next_alone hm fun o outer ho hb => hw ⟨o, outer, ho, hb⟩] at hi
    exact (hp.not_mem_pairs hrow' i).2 hi
  · rintro ⟨o, outer, hw, hb⟩
    refine ⟨o.offset, ?_⟩
    rw [Pairing.next_paired hm hw hb]
    simp

/-- The innermost bracket that waits is the last opening one without a pair. -/
theorem waiting_head_iff (h : Pairs row p) (hrow : InOrder row) :
    (∃ outer, p.waiting = o :: outer) ↔
      o ∈ row ∧ o.opens = true ∧ (∀ j, (o.offset, j) ∉ p.pairs) ∧
        ∀ n ∈ row, n.opens = true → o.offset < n.offset → ∃ j, (n.offset, j) ∈ p.pairs := by
  constructor
  · rintro ⟨outer, hw⟩
    obtain ⟨ho, hopen, hfree⟩ := h.mem_waiting_iff.1 (hw ▸ List.mem_cons_self : o ∈ p.waiting)
    exact ⟨ho, hopen, hfree, fun n hn hno hlt => h.paired_behind hrow hw hn hno hlt⟩
  · rintro ⟨ho, hopen, hfree, hbehind⟩
    have hmem : o ∈ p.waiting := h.mem_waiting_iff.2 ⟨ho, hopen, hfree⟩
    cases hw : p.waiting with
    | nil => simp [hw] at hmem
    | cons n outer =>
        rw [hw] at hmem
        rcases List.mem_cons.1 hmem with rfl | hmem
        · exact ⟨outer, rfl⟩
        · -- A bracket further out has a waiting one behind it.
          obtain ⟨hn, hno, hnfree⟩ := h.mem_waiting_iff.1 (hw ▸ List.mem_cons_self : n ∈ p.waiting)
          have horder : InOrder (outer.reverse ++ [n]) := by
            rw [← List.reverse_cons, ← hw, h.waiting_eq]
            exact hrow.filter _
          obtain ⟨j, hj⟩ := hbehind n hn hno (horder.offset_lt (List.mem_reverse.2 hmem))
          exact absurd hj (hnfree j)

end PolicyTable.Rego
