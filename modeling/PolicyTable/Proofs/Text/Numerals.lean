import Mathlib.Data.Nat.Init
import PolicyTable.Text.Digit

/-!
# `PolicyTable.Proofs.Text.Numerals` — numbers that are written are read back

A number is written in the digits zero to nine. They are decimal digits with their own values, so that the numeral of
a number is read as the number.

## Contents
- `exists_of_mem_ofNat`, `isDigit_of_mem_ofNat` and `ofNat_ne_nil`: a numeral has digits only, and at least one.
- `numeralValue_ofNat`: its value is the number.
-/

namespace PolicyTable.Text

variable {c : Char} {n d : Nat}

theorem digitValue?_digitChar (h : d < 10) : digitValue? (Nat.digitChar d) = some d := by
  have hall : ∀ d < 10, digitValue? (Nat.digitChar d) = some d := by decide
  exact hall d h

/-- A number is written as the number of its tens, if it has any, and its last digit. -/
theorem ofNat_eq (n : Nat) : ofNat n = (if n < 10 then [] else ofNat (n / 10)) ++ [Nat.digitChar (n % 10)] := by
  unfold ofNat
  rw [Nat.toDigits_eq_if (by decide)]
  split
  · rw [Nat.mod_eq_of_lt (by assumption), List.nil_append]
  · rfl

theorem ofNat_ne_nil (n : Nat) : ofNat n ≠ [] := Nat.toDigits_ne_nil

/-- The characters of a numeral are the digits zero to nine. -/
theorem exists_of_mem_ofNat (h : c ∈ ofNat n) : ∃ d, d < 10 ∧ c = Nat.digitChar d := by
  induction n using Nat.strong_induction_on with
  | h n ih =>
      rw [ofNat_eq, List.mem_append, List.mem_singleton] at h
      rcases h with h | rfl
      · split at h
        · cases h
        · exact ih (n / 10) (by omega) h
      · exact ⟨n % 10, Nat.mod_lt n (by decide), rfl⟩

/-- A numeral has decimal digits only. -/
theorem isDigit_of_mem_ofNat (h : c ∈ ofNat n) : isDigit c = true := by
  obtain ⟨d, hd, rfl⟩ := exists_of_mem_ofNat h
  rw [isDigit, digitValue?_digitChar hd, Option.isSome_some]

theorem numeralValue_concat (digits : Text) (c : Char) :
    numeralValue (digits ++ [c]) = 10 * numeralValue digits + (digitValue? c).getD 0 := by
  simp only [numeralValue, List.foldl_append, List.foldl_cons, List.foldl_nil]

/-- **The numeral of a number is read as the number.** -/
theorem numeralValue_ofNat (n : Nat) : numeralValue (ofNat n) = n := by
  induction n using Nat.strong_induction_on with
  | h n ih =>
      rw [ofNat_eq, numeralValue_concat, digitValue?_digitChar (Nat.mod_lt n (by decide)), Option.getD_some]
      split
      · rw [Nat.mod_eq_of_lt (by assumption)]
        exact Nat.zero_add n
      · rw [ih (n / 10) (by omega)]
        exact Nat.div_add_mod n 10

end PolicyTable.Text
