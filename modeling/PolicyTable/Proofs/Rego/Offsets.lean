import Mathlib.Data.List.Basic
import Mathlib.Data.List.Induction
import PolicyTable.Proofs.Rego.Comments

/-!
# `PolicyTable.Proofs.Rego.Offsets` — a source read character by character

Something that is said of single characters is gathered here over the offsets of a source: from the text
before a character, the character, and the text behind it. Offsets come in the order of their places.

## Contents
- **Gathering.** `readAt` at one offset, `gather` over the offsets before one, with `gather_concat` for one
  character more and `gather_split` for two parts.
- **Comments.** `commentOf` one character, and `scan_comments_eq_gather`.
- **Order.** `Position.Lt`; `placeAt_lt` and `placeAt_inj` for the places of a source.
-/

namespace PolicyTable.Rego

/-! ## Gathering -/

section Gathering

variable {α : Type} {f : Text → Char → Text → Option α} {source before rest : Text} {c : Char} {a : α}

/-- What is said at an offset: of the text before it, the character there, and the text behind that. -/
def readAt (f : Text → Char → Text → Option α) (source : Text) (offset : Nat) : Option α :=
  match source.drop offset with
  | [] => none
  | c :: rest => f (source.take offset) c rest

/-- What is said at the offsets before one. -/
def gather (f : Text → Char → Text → Option α) (source : Text) (offset : Nat) : List α :=
  (List.range offset).filterMap (readAt f source)

@[simp] theorem readAt_length :
    readAt f (before ++ c :: rest) before.length = f before c rest := by
  simp [readAt]

theorem readAt_of_eq (hs : source = before ++ c :: rest) :
    readAt f source before.length = f before c rest := by
  rw [hs, readAt_length]

/-- An offset of a source splits it. -/
theorem exists_split {k : Nat} (hk : k < source.length) :
    ∃ before c rest, source = before ++ c :: rest ∧ before.length = k :=
  ⟨source.take k, source[k], source.drop (k + 1),
    by rw [← List.drop_eq_getElem_cons hk, List.take_append_drop],
    List.length_take_of_le (Nat.le_of_lt hk)⟩

/-- Something is said at an offset exactly if it is said of a character with as much text before it. -/
theorem readAt_eq_some_iff {k : Nat} :
    readAt f source k = some a ↔
      ∃ before c rest, source = before ++ c :: rest ∧ before.length = k ∧ f before c rest = some a := by
  constructor
  · intro h
    by_cases hk : k < source.length
    · obtain ⟨before, c, rest, hs, rfl⟩ := exists_split hk
      rw [readAt_of_eq hs] at h
      exact ⟨before, c, rest, hs, rfl, h⟩
    · rw [readAt, List.drop_eq_nil_of_le (Nat.le_of_not_lt hk)] at h
      cases h
  · rintro ⟨before, c, rest, rfl, rfl, h⟩
    rw [readAt_length, h]

theorem mem_gather_iff {k : Nat} : a ∈ gather f source k ↔ ∃ i < k, readAt f source i = some a := by
  simp [gather]

/-- One character more. -/
theorem gather_concat :
    gather f (before ++ c :: rest) (before ++ [c]).length =
      gather f (before ++ c :: rest) before.length ++ (f before c rest).toList := by
  rw [gather, List.length_append, List.length_singleton, List.range_succ, List.filterMap_append]
  cases h : f before c rest <;> simp [gather, h]

/-- What does not look behind a character is the same in every source that begins alike. -/
theorem gather_append (hf : ∀ before c rest rest', f before c rest = f before c rest') :
    gather f (before ++ rest) before.length = gather f before before.length := by
  refine List.filterMap_congr fun k hk => ?_
  have hk : k < before.length := List.mem_range.1 hk
  unfold readAt
  rw [List.drop_append_of_le_length (Nat.le_of_lt hk), List.take_append_of_le_length (Nat.le_of_lt hk),
    List.drop_eq_getElem_cons hk, List.cons_append]
  exact hf _ _ _ _

/-- Two readings that agree on every character of a source gather the same. -/
theorem gather_congr {g : Text → Char → Text → Option α}
    (h : ∀ before c rest, source = before ++ c :: rest → f before c rest = g before c rest) :
    gather f source source.length = gather g source source.length := by
  refine List.filterMap_congr fun k hk => ?_
  obtain ⟨before, c, rest, hs, rfl⟩ := exists_split (List.mem_range.1 hk)
  rw [readAt_of_eq hs, readAt_of_eq hs, h before c rest hs]

theorem gather_map {β : Type} (g : α → β) :
    gather (fun before c rest => (f before c rest).map g) source source.length =
      (gather f source source.length).map g := by
  unfold gather
  rw [List.map_filterMap]
  refine List.filterMap_congr fun k hk => ?_
  obtain ⟨before, c, rest, hs, rfl⟩ := exists_split (List.mem_range.1 hk)
  rw [readAt_of_eq hs, readAt_of_eq hs]

/-- A source in two parts is read part by part: the first one with the second one behind it, and the second
    one with the first one before it. -/
theorem gather_split (f : Text → Char → Text → Option α) (front back : Text) :
    gather f (front ++ back) (front ++ back).length =
      gather (fun before c rest => f before c (rest ++ back)) front front.length ++
        gather (fun before => f (front ++ before)) back back.length := by
  unfold gather
  rw [List.length_append, List.range_add, List.filterMap_append, List.filterMap_map]
  congr 1
  · refine List.filterMap_congr fun k hk => ?_
    obtain ⟨before, c, rest, rfl, rfl⟩ := exists_split (List.mem_range.1 hk)
    rw [readAt_length, List.append_assoc, List.cons_append, readAt_length]
  · refine List.filterMap_congr fun k hk => ?_
    obtain ⟨before, c, rest, rfl, rfl⟩ := exists_split (List.mem_range.1 hk)
    show readAt f (front ++ (before ++ c :: rest)) (front.length + before.length) = _
    rw [readAt_length, ← List.append_assoc, ← List.length_append, readAt_length]

theorem gather_cons (f : Text → Char → Text → Option α) (c : Char) (rest : Text) :
    gather f (c :: rest) (c :: rest).length =
      (f [] c rest).toList ++ gather (fun before => f (c :: before)) rest rest.length := by
  have hfirst : gather (fun before d more => f before d (more ++ rest)) [c] [c].length =
      (f [] c rest).toList := by
    cases h : f [] c rest <;> simp [gather, readAt, h]
  have hsplit := gather_split f [c] rest
  rwa [hfirst] at hsplit

end Gathering

/-! ## Comments -/

/-- The comment that a character starts, by the text before it and the text behind it. -/
def commentOf (before : Text) (c : Char) (rest : Text) : Option Comment :=
  if c = '#' ∧ Zone.after before = .code then
    some ⟨withoutCr (rest.takeWhile (· ≠ '\n')), (Position.after before).line,
      (Position.after before).column⟩
  else none

/-- The comments of a scan, read off the source. -/
theorem scan_comments_eq_gather (source : Text) :
    (scan source).comments = gather commentOf source source.length := by
  show (finalState source).comments = _
  rw [comments_finalState, commentsBefore, gather, ← List.filterMap_eq_map, List.filterMap_filter]
  refine List.filterMap_congr fun k hk => ?_
  obtain ⟨before, c, rest, rfl, rfl⟩ := exists_split (List.mem_range.1 hk)
  have hrest : (before ++ c :: rest).drop (before.length + 1) = rest := by
    rw [← List.drop_drop, List.drop_left, List.drop_one, List.tail_cons]
  rw [readAt_length]
  unfold commentOf
  by_cases h : c = '#' ∧ Zone.after before = .code
  · rw [if_pos (startsComment_length.2 h), if_pos h]
    simp only [Function.comp, commentAt, hrest, List.take_left]
  · rw [if_neg (mt startsComment_length.1 h), if_neg h]

/-! ## Order -/

/-- A position lies before another one: on an earlier line, or on the same line in an earlier column. -/
def Position.Lt (p q : Position) : Prop :=
  p.line < q.line ∨ p.line = q.line ∧ p.column < q.column

theorem Position.Lt.trans {p q r : Position} (h : p.Lt q) (h' : q.Lt r) : p.Lt r := by
  unfold Position.Lt at *
  omega

theorem Position.Lt.irrefl (p : Position) : ¬ p.Lt p := by
  unfold Position.Lt
  omega

theorem Position.Lt.ne {p q : Position} (h : p.Lt q) : p ≠ q :=
  fun heq => Position.Lt.irrefl q (heq ▸ h)

theorem Position.le_iff {p q : Position} : p.le q = true ↔ p.Lt q ∨ p = q := by
  cases p
  cases q
  simp only [Position.le, Position.Lt, Bool.or_eq_true, Bool.and_eq_true, decide_eq_true_eq, beq_iff_eq,
    Position.mk.injEq]
  omega

theorem Position.le_trans {p q r : Position} (h : p.le q = true) (h' : q.le r = true) :
    p.le r = true := by
  rw [Position.le_iff] at *
  rcases h with h | rfl
  · rcases h' with h' | rfl
    · exact .inl (h.trans h')
    · exact .inl h
  · exact h'

theorem Position.le_total (p q : Position) : (p.le q || q.le p) = true := by
  simp only [Position.le, Bool.or_eq_true, Bool.and_eq_true, decide_eq_true_eq, beq_iff_eq]
  omega

theorem Position.le_antisymm {p q : Position} (h : p.le q = true) (h' : q.le p = true) : p = q := by
  rcases Position.le_iff.1 h with h | rfl
  · rcases Position.le_iff.1 h' with h' | rfl
    · exact absurd (h.trans h') (Position.Lt.irrefl p)
    · rfl
  · rfl

/-- Every character moves the place on. -/
theorem Position.lt_after_append (before : Text) {more : Text} (h : more ≠ []) :
    (Position.after before).Lt (.after (before ++ more)) := by
  induction more using List.reverseRecOn with
  | nil => exact absurd rfl h
  | append_singleton more c ih =>
      have hlast : (Position.after (before ++ more)).Lt (.after (before ++ more ++ [c])) := by
        rw [Position.after_concat, Position.Lt]
        split <;> simp
      rw [← List.append_assoc]
      by_cases hm : more = []
      · simpa [hm] using hlast
      · exact (ih hm).trans hlast

/-- The place of an offset of a source. -/
def placeAt (source : Text) (offset : Nat) : Position := .after (source.take offset)

@[simp] theorem placeAt_length : placeAt (before ++ rest) before.length = .after before := by
  simp [placeAt]

theorem placeAt_lt {source : Text} {i j : Nat} (hij : i < j) (hj : j ≤ source.length) :
    (placeAt source i).Lt (placeAt source j) := by
  have htake : source.take j = source.take i ++ (source.take j).drop i := by
    conv_lhs =>
      rw [← List.take_append_drop i (source.take j), List.take_take, Nat.min_eq_left (Nat.le_of_lt hij)]
  have hne : (source.take j).drop i ≠ [] := by
    rw [ne_eq, List.drop_eq_nil_iff, List.length_take]
    omega
  unfold placeAt
  rw [htake]
  exact Position.lt_after_append _ hne

/-- Two offsets of a source have different places. -/
theorem placeAt_inj {source : Text} {i j : Nat} (hi : i ≤ source.length) (hj : j ≤ source.length) :
    placeAt source i = placeAt source j ↔ i = j := by
  refine ⟨fun h => ?_, fun h => h ▸ rfl⟩
  rcases Nat.lt_trichotomy i j with hij | hij | hij
  · exact absurd (h ▸ placeAt_lt hij hj) (Position.Lt.irrefl _)
  · exact hij
  · exact absurd (h ▸ placeAt_lt hij hi) (Position.Lt.irrefl _)

end PolicyTable.Rego
