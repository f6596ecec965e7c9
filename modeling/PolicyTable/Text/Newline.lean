import PolicyTable.Text.Basic

/-!
# `PolicyTable.Text.Newline` — one form for line ends

Files end their lines with LF, CR LF or CR. `unifyNewlines` writes every line end as LF.
-/

namespace PolicyTable.Text

/-- A text with every CR LF and every other CR replaced by one LF. -/
def unifyNewlines : Text → Text
  | [] => []
  | '\r' :: '\n' :: r => '\n' :: unifyNewlines r
  | '\r' :: r => '\n' :: unifyNewlines r
  | c :: r => c :: unifyNewlines r

/-- No CR is left. -/
theorem cr_not_mem_unifyNewlines (t : Text) : '\r' ∉ unifyNewlines t := by
  fun_induction unifyNewlines t with
  | case1 => simp
  | case2 r ih => simp [ih]
  | case3 r _ ih => simp [ih]
  | case4 c r _ h ih => simp [ih, Ne.symm h]

/-- A text without CR stays as it is. -/
theorem unifyNewlines_of_not_mem {t : Text} (h : '\r' ∉ t) : unifyNewlines t = t := by
  fun_induction unifyNewlines t with
  | case1 => rfl
  | case2 r ih => simp at h
  | case3 r _ ih => simp at h
  | case4 c r _ _ ih => rw [ih fun hr => h (List.mem_cons_of_mem _ hr)]

/-- A text stays as it is just if there is no CR in it. -/
theorem unifyNewlines_eq_self_iff {t : Text} : unifyNewlines t = t ↔ '\r' ∉ t :=
  ⟨fun h => h ▸ cr_not_mem_unifyNewlines t, unifyNewlines_of_not_mem⟩

end PolicyTable.Text
