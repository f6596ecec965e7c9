import PolicyTable.Annotations.Pair
import PolicyTable.Proofs.Sequence

/-!
# `PolicyTable.Proofs.Annotations.Words` — the pairs that words write

A word is a pair exactly if it has a slash, and then it is the pair of what stands before its first slash and
behind it. Several words are read as pairs if each of them is one; the first other word is what reading fails
at.
-/

namespace PolicyTable.Annotations.KindPair

variable {word : Text} {texts : List Text} {pairs : List KindPair} {p : KindPair} {b : BadWord}

theorem ofWord_eq_ok_iff : ofWord word = .ok p ↔ word = p.word ∧ '/' ∉ p.group := by
  unfold ofWord KindPair.word
  rw [← Text.cutAt_eq_some_iff]
  cases Text.cutAt '/' word with
  | none => simp
  | some cut =>
      obtain ⟨group, kind⟩ := cut
      obtain ⟨group', kind'⟩ := p
      simp

theorem ofWord_eq_error_iff : ofWord word = .error b ↔ '/' ∉ word ∧ b = ⟨word⟩ := by
  unfold ofWord
  rw [← Text.cutAt_eq_none_iff]
  cases Text.cutAt '/' word with
  | none => simp [eq_comm]
  | some cut => simp

theorem exists_ofWord_iff : (∃ p, ofWord word = .ok p) ↔ '/' ∈ word := by
  constructor
  · rintro ⟨p, hp⟩
    rw [(ofWord_eq_ok_iff.1 hp).1]
    exact List.mem_append_right _ (List.mem_cons_self ..)
  · intro h
    cases hp : ofWord word with
    | ok p => exact ⟨p, rfl⟩
    | error b => exact absurd h (ofWord_eq_error_iff.1 hp).1

/-- Texts are read as pairs if they are the words of the pairs, cut at their first slashes. -/
theorem mapM_ofWord_eq_ok_iff :
    texts.mapM ofWord = .ok pairs ↔ texts = pairs.map KindPair.word ∧ ∀ p ∈ pairs, '/' ∉ p.group := by
  rw [mapM_eq_ok_iff]
  simp only [ofWord_eq_ok_iff]
  constructor
  · intro h
    induction h with
    | nil => exact ⟨rfl, by simp⟩
    | cons hp _ ih =>
        obtain ⟨htexts, hgroups⟩ := ih
        exact ⟨by rw [List.map_cons, ← htexts, ← hp.1], List.forall_mem_cons.2 ⟨hp.2, hgroups⟩⟩
  · rintro ⟨rfl, h⟩
    rw [List.forall₂_map_left_iff, List.forall₂_same]
    exact fun p hp => ⟨rfl, h p hp⟩

/-- Reading texts fails at the first one without a slash. -/
theorem mapM_ofWord_eq_error_iff :
    texts.mapM ofWord = .error b ↔ ∃ front word back, texts = front ++ word :: back ∧
      (∀ x ∈ front, '/' ∈ x) ∧ '/' ∉ word ∧ b = ⟨word⟩ := by
  rw [mapM_eq_error_iff]
  simp only [exists_ofWord_iff, ofWord_eq_error_iff]

end PolicyTable.Annotations.KindPair
