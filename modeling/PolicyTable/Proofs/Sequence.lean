import Mathlib.Data.List.Forall2
import Mathlib.Data.List.Induction

/-!
# `PolicyTable.Proofs.Sequence` — computations one after the other, up to the first that fails

A computation succeeds with a result or fails with a cause, which stops what stands behind it. The laws here
take such computations apart: a pair of them, all those of a list, and those of a list that hand on a state.

## Contents
- **Two.** `bind_eq_ok_iff`, `bind_eq_error_iff`, `map_eq_ok_iff` and `map_eq_error_iff`.
- **Each by itself.** `mapM_eq_ok_iff`, `exists_mapM_eq_ok_iff` and `mapM_eq_error_iff`; `mapM_congr` for two
  lists, `mapM_append_eq_ok_iff` for one behind the other; `mapM_cons_flatten` and `mapM_filter_flatten` for results
  that are lists.
- **With a state.** `foldlM_invariant` goes along a run that succeeds, `exists_of_foldlM_eq_error` cuts a run
  where it fails.
-/

namespace PolicyTable

variable {α β ε : Type}

/-! ## Two -/

theorem bind_eq_ok_iff {x : Except ε α} {f : α → Except ε β} {b : β} :
    x >>= f = .ok b ↔ ∃ a, x = .ok a ∧ f a = .ok b := by
  cases x with
  | error e =>
      constructor
      · intro h
        cases h
      · rintro ⟨a, ha, _⟩
        cases ha
  | ok a =>
      constructor
      · intro h
        exact ⟨a, rfl, h⟩
      · rintro ⟨a', ha, h⟩
        cases ha
        exact h

theorem bind_eq_error_iff {x : Except ε α} {f : α → Except ε β} {e : ε} :
    x >>= f = .error e ↔ x = .error e ∨ ∃ a, x = .ok a ∧ f a = .error e := by
  cases x with
  | error e' =>
      constructor
      · intro h
        cases h
        exact .inl rfl
      · rintro (h | ⟨a, ha, _⟩)
        · cases h
          rfl
        · cases ha
  | ok a =>
      constructor
      · intro h
        exact .inr ⟨a, rfl, h⟩
      · rintro (h | ⟨a', ha, h⟩)
        · cases h
        · cases ha
          exact h

theorem map_eq_ok_iff {x : Except ε α} {f : α → β} {b : β} :
    x.map f = .ok b ↔ ∃ a, x = .ok a ∧ f a = b := by
  cases x with
  | error e => simp [Except.map]
  | ok a => simp [Except.map]

theorem map_eq_error_iff {x : Except ε α} {f : α → β} {e : ε} :
    x.map f = .error e ↔ x = .error e := by
  cases x with
  | error e => simp [Except.map]
  | ok a => simp [Except.map]

/-! ## Each by itself -/

/-- All succeed, each with its own result. -/
theorem mapM_eq_ok_iff {f : α → Except ε β} {l : List α} {bs : List β} :
    l.mapM f = .ok bs ↔ List.Forall₂ (fun a b => f a = .ok b) l bs := by
  induction l generalizing bs with
  | nil =>
      rw [List.mapM_nil, List.forall₂_nil_left_iff]
      exact ⟨fun h => (Except.ok.inj h).symm, fun h => h ▸ rfl⟩
  | cons a l ih =>
      rw [List.mapM_cons, List.forall₂_cons_left_iff, bind_eq_ok_iff]
      simp only [bind_eq_ok_iff, ih]
      constructor
      · rintro ⟨b, ha, rest, hrest, h⟩
        exact ⟨b, rest, ha, hrest, (Except.ok.inj h).symm⟩
      · rintro ⟨b, rest, ha, hrest, rfl⟩
        exact ⟨b, ha, rest, hrest, rfl⟩

/-- If all succeed then so does each of them. -/
theorem exists_of_mapM_eq_ok {f : α → Except ε β} {l : List α} {bs : List β} {a : α}
    (h : l.mapM f = .ok bs) (ha : a ∈ l) : ∃ b ∈ bs, f a = .ok b := by
  have hall := mapM_eq_ok_iff.1 h
  induction hall with
  | nil => cases ha
  | @cons x b l bs hx hrest ih =>
      rcases List.mem_cons.1 ha with rfl | ha
      · exact ⟨b, List.mem_cons_self .., hx⟩
      · obtain ⟨b', hb', h'⟩ := ih (mapM_eq_ok_iff.2 hrest) ha
        exact ⟨b', List.mem_cons_of_mem _ hb', h'⟩

/-- Each result is the result of an element. -/
theorem exists_of_mem_mapM {f : α → Except ε β} {l : List α} {bs : List β} {b : β}
    (h : l.mapM f = .ok bs) (hb : b ∈ bs) : ∃ a ∈ l, f a = .ok b := by
  have hall := mapM_eq_ok_iff.1 h
  clear h
  induction hall with
  | nil => cases hb
  | cons hf _ ih =>
      rcases List.mem_cons.1 hb with rfl | hb
      · exact ⟨_, List.mem_cons_self .., hf⟩
      · obtain ⟨a, ha, hfa⟩ := ih hb
        exact ⟨a, List.mem_cons_of_mem _ ha, hfa⟩

/-- Computations that are the same one by one are the same as a whole. -/
theorem mapM_congr {γ : Type} {f : α → Except ε β} {g : γ → Except ε β} {l : List α} {l' : List γ}
    (h : List.Forall₂ (fun a c => f a = g c) l l') : l.mapM f = l'.mapM g := by
  induction h with
  | nil => rfl
  | cons hac _ ih => rw [List.mapM_cons, List.mapM_cons, hac, ih]

/-- Two lists one after the other succeed if both do. -/
theorem mapM_append_eq_ok_iff {f : α → Except ε β} {l l' : List α} {cs : List β} :
    (l ++ l').mapM f = .ok cs ↔ ∃ bs bs', l.mapM f = .ok bs ∧ l'.mapM f = .ok bs' ∧ cs = bs ++ bs' := by
  rw [List.mapM_append, bind_eq_ok_iff]
  simp only [bind_eq_ok_iff]
  constructor
  · rintro ⟨bs, hbs, bs', hbs', h⟩
    exact ⟨bs, bs', hbs, hbs', (Except.ok.inj h).symm⟩
  · rintro ⟨bs, bs', hbs, hbs', rfl⟩
    exact ⟨bs, hbs, bs', hbs', rfl⟩

/-- Lists that are computed one after the other are joined as they come. -/
theorem mapM_cons_flatten {f : α → Except ε (List β)} {a : α} {l : List α} :
    ((a :: l).mapM f).map List.flatten =
      f a >>= fun bs => ((l.mapM f).map List.flatten).map (bs ++ ·) := by
  rw [List.mapM_cons]
  cases f a with
  | error e => rfl
  | ok bs => cases l.mapM f <;> rfl

/-- Elements that give nothing may be left out. -/
theorem mapM_filter_flatten {f : α → Except ε (List β)} {p : α → Bool} {l : List α}
    (h : ∀ a ∈ l, p a = false → f a = .ok []) :
    ((l.filter p).mapM f).map List.flatten = (l.mapM f).map List.flatten := by
  induction l with
  | nil => rfl
  | cons a l ih =>
      obtain ⟨ha, hl⟩ := List.forall_mem_cons.1 h
      rw [mapM_cons_flatten, ← ih hl]
      cases hp : p a with
      | true => rw [List.filter_cons_of_pos hp, mapM_cons_flatten]
      | false =>
          rw [List.filter_cons_of_neg (by simp [hp]), ha hp]
          cases (l.filter p).mapM f <;> rfl

/-- The first that fails counts, whatever stands behind it. -/
theorem mapM_eq_error_iff {f : α → Except ε β} {l : List α} {e : ε} :
    l.mapM f = .error e ↔ ∃ before a after, l = before ++ a :: after ∧
      (∀ x ∈ before, ∃ b, f x = .ok b) ∧ f a = .error e := by
  induction l with
  | nil =>
      rw [List.mapM_nil]
      constructor
      · intro h
        cases h
      · rintro ⟨before, a, after, h, _⟩
        simp at h
  | cons x l ih =>
      rw [List.mapM_cons, bind_eq_error_iff]
      simp only [bind_eq_error_iff, ih]
      constructor
      · -- The head fails, or the head succeeds and the rest fails; putting the results together cannot.
        rintro (h | ⟨b, hx, ⟨before, a, after, rfl, hbefore, ha⟩ | ⟨bs, _, h⟩⟩)
        · exact ⟨[], x, l, rfl, by simp, h⟩
        · exact ⟨x :: before, a, after, rfl, List.forall_mem_cons.2 ⟨⟨b, hx⟩, hbefore⟩, ha⟩
        · cases h
      · rintro ⟨before, a, after, h, hbefore, ha⟩
        cases before with
        | nil =>
            cases h
            exact .inl ha
        | cons y before =>
            cases h
            obtain ⟨⟨b, hb⟩, hbefore⟩ := List.forall_mem_cons.1 hbefore
            exact .inr ⟨b, hb, .inl ⟨before, a, after, rfl, hbefore, ha⟩⟩

theorem exists_mapM_eq_ok_iff {f : α → Except ε β} {l : List α} :
    (∃ bs, l.mapM f = .ok bs) ↔ ∀ a ∈ l, ∃ b, f a = .ok b := by
  constructor
  · rintro ⟨bs, h⟩ a ha
    obtain ⟨b, _, hb⟩ := exists_of_mapM_eq_ok h ha
    exact ⟨b, hb⟩
  · intro hall
    cases h : l.mapM f with
    | ok bs => exact ⟨bs, rfl⟩
    | error e =>
        obtain ⟨before, a, after, rfl, _, ha⟩ := mapM_eq_error_iff.1 h
        obtain ⟨b, hb⟩ := hall a (by simp)
        rw [ha] at hb
        cases hb

/-! ## With a state -/

/-- What holds before the first and is kept by each holds behind the last. -/
theorem foldlM_invariant {f : β → α → Except ε β} {P : List α → β → Prop} {s t : β} {l : List α}
    (hstart : P [] s)
    (hstep : ∀ before a s t, P before s → f s a = .ok t → P (before ++ [a]) t)
    (h : l.foldlM f s = .ok t) : P l t := by
  -- From the end of the list, since the property speaks of what has been gone over.
  induction l using List.reverseRecOn generalizing t with
  | nil =>
      cases h
      exact hstart
  | append_singleton before a ih =>
      rw [List.foldlM_append, bind_eq_ok_iff] at h
      obtain ⟨u, hbefore, h⟩ := h
      rw [List.foldlM_cons, bind_eq_ok_iff] at h
      obtain ⟨v, ha, h⟩ := h
      cases h
      exact hstep before a u _ (ih hbefore) ha

/-- A run that fails has succeeded up to the one that it fails at. -/
theorem exists_of_foldlM_eq_error {f : β → α → Except ε β} {s : β} {l : List α} {e : ε}
    (h : l.foldlM f s = .error e) :
    ∃ before a after t, l = before ++ a :: after ∧ before.foldlM f s = .ok t ∧ f t a = .error e := by
  induction l generalizing s with
  | nil => cases h
  | cons x l ih =>
      rw [List.foldlM_cons, bind_eq_error_iff] at h
      rcases h with hx | ⟨u, hx, h⟩
      · exact ⟨[], x, l, s, rfl, rfl, hx⟩
      · obtain ⟨before, a, after, t, rfl, hbefore, ha⟩ := ih h
        refine ⟨x :: before, a, after, t, rfl, ?_, ha⟩
        rw [List.foldlM_cons, bind_eq_ok_iff]
        exact ⟨u, hx, hbefore⟩

end PolicyTable
