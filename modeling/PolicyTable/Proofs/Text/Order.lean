import Mathlib.Data.List.Lex
import PolicyTable.Text.Basic

/-!
# `PolicyTable.Proofs.Text.Order` — texts by code points, lists of texts text by text

`Text.inOrder` is a test on two texts. What it tests is a strict order by code points, in which a text stands
before all that begin with it. Lists of texts are compared text by text, which is not the order of the joined
texts: the slash between two names counts for nothing.

## Contents
- **Texts.** `Text.Before`, and `Text.inOrder_iff`; `inOrder_trans` and `inOrder_total` are the laws that sorting
  needs.
- **Lists of texts.** `NamesBefore`, which is a strict order as well; `namesBefore_cons_iff` goes text by text.
-/

namespace PolicyTable

/-- Lists are in a strict order if what they are made of is. -/
theorem isStrictTotalOrder_lex {α : Type} (r : α → α → Prop) [IsStrictTotalOrder α r] :
    IsStrictTotalOrder (List α) (List.Lex r) :=
  have : Std.Trichotomous (List.Lex r) := List.Lex.trichotomous _
  have : IsOrderConnected (List α) (List.Lex r) := List.Lex.isOrderConnected _
  have : Std.Asymm (List.Lex r) := List.Lex.asymm _
  { isStrictWeakOrder_of_isOrderConnected with }

namespace Text

variable {a b c : Text}

/-! ## Texts -/

/-- The first text stands before the second one: the code point is smaller where they first differ, or the first
    one ends there. -/
def Before (a b : Text) : Prop := List.Lex (fun x y => x.toNat < y.toNat) a b

instance : IsStrictTotalOrder Char fun x y => x.toNat < y.toNat where
  trichotomous x y hxy hyx := by
    have htoNat : x.toNat = y.toNat := Nat.le_antisymm (Nat.not_lt.1 hyx) (Nat.not_lt.1 hxy)
    exact Char.ext (UInt32.toNat_inj.1 htoNat)
  irrefl x := Nat.lt_irrefl x.toNat
  trans _ _ _ := Nat.lt_trans

instance : IsStrictTotalOrder Text Before := isStrictTotalOrder_lex _

/-- The test says of two texts that the second one does not stand before the first one. -/
theorem inOrder_iff : inOrder a b = true ↔ ¬ Before b a := by
  have hlt : (fun x y : Char => x < y) = fun x y => x.toNat < y.toNat := by
    funext x y
    exact propext UInt32.lt_iff_toNat_lt
  rw [inOrder, decide_eq_true_iff, Before, ← hlt]
  exact Iff.rfl

theorem before_of_inOrder (h : inOrder a b = true) (hne : a ≠ b) : Before a b := by
  rcases trichotomous_of Before a b with hab | hab | hba
  · exact hab
  · exact absurd hab hne
  · exact absurd hba (inOrder_iff.1 h)

theorem inOrder_total : (inOrder a b || inOrder b a) = true := by
  rw [Bool.or_eq_true, inOrder_iff, inOrder_iff, ← not_and_or]
  rintro ⟨hba, hab⟩
  exact asymm_of Before hba hab

theorem inOrder_trans (hab : inOrder a b = true) (hbc : inOrder b c = true) : inOrder a c = true := by
  rw [inOrder_iff] at *
  intro hca
  by_cases heq : a = b
  · subst heq
    exact hbc hca
  · have h := before_of_inOrder (inOrder_iff.2 hab) heq
    exact hbc (trans_of Before hca h)

end Text

/-! ## Lists of texts -/

/-- The first list stands before the second one: its text stands before the other where they first differ, or
    the first list ends there. -/
def NamesBefore (a b : List Text) : Prop := List.Lex Text.Before a b

instance : IsStrictTotalOrder (List Text) NamesBefore := isStrictTotalOrder_lex _

theorem not_namesBefore_nil (a : List Text) : ¬ NamesBefore a [] := by
  intro h
  cases h

/-- Lists with one text more in front are compared by that text first. -/
theorem namesBefore_cons_iff {x y : Text} {a b : List Text} :
    NamesBefore (x :: a) (y :: b) ↔ Text.Before x y ∨ x = y ∧ NamesBefore a b := by
  constructor
  · intro h
    cases h with
    | cons h => exact .inr ⟨rfl, h⟩
    | rel h => exact .inl h
  · rintro (h | ⟨rfl, h⟩)
    · exact .rel h
    · exact .cons h

end PolicyTable
