/-!
# `PolicyTable.Text.Basic` — texts as lists of characters

A `Text` is a list of Unicode scalar values. Lengths, offsets and columns count list elements, and
the order of texts is the lexicographic order of their code points, which is the order that `List`
inherits from `Char`.

## Contents
- **Cutting.** `split` at every separator, `cutAt` at the first one, `trimBy` at both ends.
- **Searching.** `dropLead?` takes a given beginning away, `has` looks for a piece.
- **Order.** `inOrder` compares two texts.
- **Numbers.** `ofNat` and `ofInt` write decimal numerals.

The laws beside the definitions say that cutting loses nothing: joining the pieces gives the text back
(`intercalate_split`), a cut is at the first separator (`cutAt_eq_some_iff`), and a piece is found
exactly where it occurs (`has_iff`).
-/

namespace PolicyTable

/-- A text: its characters in order. -/
abbrev Text := List Char

namespace Text

/-! ## Cutting -/

/-- The piece before the first separator, and the pieces after it. -/
def splitHead (sep : Char) : Text → Text × List Text
  | [] => ([], [])
  | c :: r =>
    let (piece, pieces) := splitHead sep r
    if c = sep then ([], piece :: pieces) else (c :: piece, pieces)

/-- The pieces of a text between separators. Every separator separates, so a text with `n` of them
    has `n + 1` pieces, some of them perhaps empty. -/
def split (sep : Char) (t : Text) : List Text :=
  let (piece, pieces) := splitHead sep t
  piece :: pieces

/-- Joining the pieces with the separator gives the text back. -/
theorem intercalate_split (sep : Char) (t : Text) :
    List.intercalate [sep] (split sep t) = t := by
  unfold split
  induction t with
  | nil => rfl
  | cons c r ih =>
    simp only [splitHead]
    split
    · rename_i h
      subst h
      simpa [List.intercalate, List.intersperse] using ih
    · cases hp : (splitHead sep r).2 <;> simp_all [List.intercalate, List.intersperse]

/-- No piece has a separator in it. -/
theorem not_mem_of_mem_split {sep : Char} {t piece : Text} (h : piece ∈ split sep t) :
    sep ∉ piece := by
  unfold split at h
  induction t generalizing piece with
  | nil => simp_all [splitHead]
  | cons c r ih =>
    simp only [splitHead] at h
    split at h
    · rename_i hc
      rcases List.mem_cons.1 h with rfl | h
      · simp
      · exact ih h
    · rename_i hc
      rcases List.mem_cons.1 h with rfl | h
      · have := ih (List.mem_cons_self ..)
        simp [this, Ne.symm hc]
      · exact ih (List.mem_cons_of_mem _ h)

/-- The texts before and after the first separator, if there is one. -/
def cutAt (sep : Char) : Text → Option (Text × Text)
  | [] => none
  | c :: r =>
    if c = sep then some ([], r) else (cutAt sep r).map fun cut => (c :: cut.1, cut.2)

/-- A cut is at the first separator. -/
theorem cutAt_eq_some_iff {sep : Char} {t before after : Text} :
    cutAt sep t = some (before, after) ↔ t = before ++ sep :: after ∧ sep ∉ before := by
  induction t generalizing before with
  | nil => simp [cutAt]
  | cons c r ih =>
    by_cases h : c = sep
    · subst h
      cases before with
      | nil => simp [cutAt, eq_comm]
      | cons b bs => simp +contextual [cutAt]
    · cases before with
      | nil => simp [cutAt, h]
      | cons b bs =>
        simp only [cutAt, if_neg h, Option.map_eq_some_iff, Prod.exists, Prod.mk.injEq]
        constructor
        · rintro ⟨x, y, hxy, ⟨rfl, rfl⟩, rfl⟩
          obtain ⟨rfl, hx⟩ := ih.1 hxy
          simp [hx, Ne.symm h]
        · rintro ⟨he, hb⟩
          simp only [List.cons_append, List.cons.injEq] at he
          have hbs : sep ∉ bs := fun m => hb (List.mem_cons_of_mem _ m)
          exact ⟨bs, after, ih.2 ⟨he.2, hbs⟩, by rw [he.1], rfl⟩

/-- A text without a separator is not cut. -/
theorem cutAt_eq_none_iff {sep : Char} {t : Text} : cutAt sep t = none ↔ sep ∉ t := by
  induction t with
  | nil => simp [cutAt]
  | cons c r ih =>
    by_cases h : c = sep
    · simp [cutAt, h]
    · simp [cutAt, h, ih, Ne.symm h]

/-- A text without the characters of the class at its end. -/
def trimEndBy (p : Char → Bool) (t : Text) : Text :=
  (t.reverse.dropWhile p).reverse

/-- A text without the characters of the class at its two ends. -/
def trimBy (p : Char → Bool) (t : Text) : Text :=
  trimEndBy p (t.dropWhile p)

/-! ## Searching -/

/-- What follows the given beginning, if the text has it. -/
def dropLead? : (lead : Text) → Text → Option Text
  | [], t => some t
  | _ :: _, [] => none
  | l :: ls, c :: r => if l = c then dropLead? ls r else none

theorem dropLead?_eq_some_iff {lead t rest : Text} :
    dropLead? lead t = some rest ↔ t = lead ++ rest := by
  induction lead generalizing t with
  | nil => simp [dropLead?]
  | cons l ls ih =>
    cases t with
    | nil => simp [dropLead?]
    | cons c r =>
      by_cases h : l = c
      · subst h
        simp [dropLead?, ih]
      · simp [dropLead?, h, Ne.symm h]

/-- Does the piece occur in the text? The empty piece occurs in every text. -/
def has (piece : Text) : Text → Bool
  | [] => piece.isEmpty
  | c :: r => (dropLead? piece (c :: r)).isSome || has piece r

/-- A piece is found exactly where it occurs. -/
theorem has_iff {piece t : Text} : has piece t = true ↔ piece <:+: t := by
  induction t with
  | nil => simp [has, List.infix_nil]
  | cons c r ih =>
    simp only [has, Bool.or_eq_true, ih, List.infix_cons_iff, Option.isSome_iff_exists,
      dropLead?_eq_some_iff, List.prefix_iff_eq_append]
    constructor
    · rintro (⟨rest, h⟩ | h)
      · exact .inl (by rw [h, List.drop_left])
      · exact .inr h
    · rintro (h | h)
      · exact .inl ⟨_, h.symm⟩
      · exact .inr h

/-! ## Order -/

/-- Does the first text come before the second one, or is it the same? -/
def inOrder (a b : Text) : Bool := decide (@LE.le (List Char) List.instLE a b)

/-! ## Numbers -/

/-- The decimal numeral of a natural number. -/
def ofNat (n : Nat) : Text := Nat.toDigits 10 n

/-- The decimal numeral of an integer, with a minus sign before a negative one. -/
def ofInt : Int → Text
  | .ofNat n => ofNat n
  | .negSucc n => '-' :: ofNat (n + 1)

end Text

end PolicyTable
