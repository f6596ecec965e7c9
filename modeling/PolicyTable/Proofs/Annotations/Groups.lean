import Mathlib.Data.List.Induction
import Mathlib.Data.List.Infix
import PolicyTable.Annotations.Groups

/-!
# `PolicyTable.Proofs.Annotations.Groups` — what is kept of the groups

The groups are gone through once. A group is kept or left out, never changed, and what is kept stays where it
is. A group is compared with those kept and not with those before it, which comes to the same: for every group that
has been met, one that is the same up to case is kept.

## Contents
- **One group.** `prefix_addGroup` and `mem_of_mem_addGroup`.
- **All groups.** `mem_of_mem_dedupe` and `dedupe_ne_nil`.
- **One more group.** `any_dedupe` is the invariant, and `dedupe_concat` says what one more group does.
- **Equal groups.** `dedupe_eq_filter` for the places of the groups that are kept, `exists_first_dedupe` for the one
  that is kept of equal ones, and `pairwise_dedupe` for their order.
- **More groups.** `dedupe_dedupe` and `dedupe_append`.

Main statement: `dedupe_keeps_first`.
-/

namespace PolicyTable.Annotations

variable {kept groups : List Text} {group other : Text}

/-! ## One group -/

/-- What is kept so far stays. -/
theorem prefix_addGroup (kept : List Text) (group : Text) : kept <+: addGroup kept group := by
  unfold addGroup
  split
  · exact List.prefix_rfl
  · exact List.prefix_append _ _

theorem mem_of_mem_addGroup (h : other ∈ addGroup kept group) : other ∈ kept ∨ other = group := by
  unfold addGroup at h
  split at h
  · exact .inl h
  · simpa using h

/-! ## All groups -/

theorem prefix_foldl_addGroup (kept groups : List Text) : kept <+: groups.foldl addGroup kept := by
  induction groups generalizing kept with
  | nil => exact List.prefix_rfl
  | cons group r ih => exact (prefix_addGroup kept group).trans (ih _)

theorem mem_of_mem_foldl_addGroup (h : other ∈ groups.foldl addGroup kept) : other ∈ kept ∨ other ∈ groups := by
  induction groups generalizing kept with
  | nil => exact .inl h
  | cons group r ih =>
      rcases ih h with hadd | hr
      · rcases mem_of_mem_addGroup hadd with hkept | rfl
        · exact .inl hkept
        · exact .inr (List.mem_cons_self ..)
      · exact .inr (List.mem_cons_of_mem _ hr)

/-- What is kept is one of the groups. -/
theorem mem_of_mem_dedupe (h : group ∈ dedupe groups) : group ∈ groups :=
  (mem_of_mem_foldl_addGroup h).resolve_left List.not_mem_nil

/-- The first group is kept. -/
theorem dedupe_ne_nil (h : groups ≠ []) : dedupe groups ≠ [] := by
  cases groups with
  | nil => exact absurd rfl h
  | cons group r =>
      intro hnil
      have hfirst : [group] <+: dedupe (group :: r) := prefix_foldl_addGroup [group] r
      rw [hnil, List.prefix_nil] at hfirst
      cases hfirst

/-! ## One more group -/

theorem sameGroup_iff : sameGroup group other = true ↔ group.caseFold = other.caseFold := beq_iff_eq

/-- Two groups that are the same are the same as the same others. -/
theorem sameGroup_congr (h : sameGroup group other = true) : (sameGroup · group) = (sameGroup · other) := by
  funext third
  rw [sameGroup, sameGroup, sameGroup_iff.1 h]

theorem dedupe_concat_eq_addGroup (groups : List Text) (group : Text) :
    dedupe (groups ++ [group]) = addGroup (dedupe groups) group := by
  rw [dedupe, List.foldl_append]
  rfl

/-- **For every group that has been met, one that is the same is kept.** -/
theorem any_dedupe (groups : List Text) (group : Text) :
    (dedupe groups).any (sameGroup · group) = groups.any (sameGroup · group) := by
  induction groups using List.reverseRecOn with
  | nil => rfl
  | append_singleton groups last ih =>
      rw [dedupe_concat_eq_addGroup, addGroup, List.any_append, ← ih]
      split
      · rename_i hlast
        cases hsame : sameGroup last group with
        | false => simp [hsame]
        | true =>
            -- The last one is left out, and what stands for it stands for the group too.
            rw [sameGroup_congr hsame] at hlast
            rw [hlast, Bool.true_or]
      · rw [List.any_append]

/-- **One more group is kept exactly if no group before it is the same.** -/
theorem dedupe_concat (groups : List Text) (group : Text) :
    dedupe (groups ++ [group]) =
      if groups.any (sameGroup · group) then dedupe groups else dedupe groups ++ [group] := by
  rw [dedupe_concat_eq_addGroup, addGroup, any_dedupe]

/-! ## Equal groups -/

/-- **A group is kept at the places where none before it is the same.** -/
theorem dedupe_eq_filter (groups : List Text) :
    dedupe groups = (groups.zipIdx.filter fun p => !(groups.take p.2).any (sameGroup · p.1)).map Prod.fst := by
  induction groups using List.reverseRecOn with
  | nil => rfl
  | append_singleton groups last ih =>
      have hbefore : (groups.zipIdx.filter fun p => !((groups ++ [last]).take p.2).any (sameGroup · p.1)) =
          groups.zipIdx.filter fun p => !(groups.take p.2).any (sameGroup · p.1) := by
        refine List.filter_congr fun p hp => ?_
        have hlt := List.snd_lt_of_mem_zipIdx hp
        rw [List.take_append_of_le_length (by omega)]
      rw [dedupe_concat, List.zipIdx_append, List.filter_append, List.map_append, hbefore, ← ih]
      cases hlast : groups.any (sameGroup · last) with
      | false => simp [hlast]
      | true => simp [hlast]

/-- **Of equal groups the first one is kept**, and no other. -/
theorem filter_dedupe (groups : List Text) (group : Text) :
    (dedupe groups).filter (sameGroup · group) = (groups.find? (sameGroup · group)).toList := by
  induction groups using List.reverseRecOn with
  | nil => rfl
  | append_singleton groups last ih =>
      rw [dedupe_concat, List.find?_append]
      cases hlast : sameGroup last group with
      | false =>
          have hnone : [last].find? (sameGroup · group) = none := by simp [hlast]
          rw [hnone, Option.or_none, ← ih]
          split
          · rfl
          · simp [hlast]
      | true =>
          -- The last one stands for the group exactly if the group has not been met.
          rw [sameGroup_congr hlast]
          cases hfind : groups.find? (sameGroup · group) with
          | some first =>
              have hany : groups.any (sameGroup · group) = true := by
                rw [List.any_eq_true]
                exact ⟨first, List.mem_of_find?_eq_some hfind, by simpa using List.find?_some hfind⟩
              rw [if_pos hany, ih, hfind, Option.some_or]
          | none =>
              have hany : groups.any (sameGroup · group) = false := by
                rw [List.any_eq_false]
                exact List.find?_eq_none.1 hfind
              rw [hany, if_neg Bool.false_ne_true, List.filter_append, ih, hfind]
              simp [hlast]

/-- For each group, the first one that is the same is kept, and no other. -/
theorem exists_first_dedupe (h : group ∈ groups) :
    ∃ first, groups.find? (sameGroup · group) = some first ∧ (dedupe groups).filter (sameGroup · group) = [first] := by
  have hsome : (groups.find? (sameGroup · group)).isSome = true :=
    List.find?_isSome.2 ⟨group, h, sameGroup_iff.2 rfl⟩
  obtain ⟨first, hfirst⟩ := Option.isSome_iff_exists.1 hsome
  refine ⟨first, hfirst, ?_⟩
  rw [filter_dedupe, hfirst, Option.toList_some]

/-- **The groups that are kept stand in the order in which they are met.** -/
theorem pairwise_dedupe (groups : List Text) :
    (dedupe groups).Pairwise fun a b => groups.findIdx (sameGroup · a) < groups.findIdx (sameGroup · b) := by
  induction groups using List.reverseRecOn with
  | nil => exact .nil
  | append_singleton groups last ih =>
      have hmet : ∀ a ∈ dedupe groups, groups.findIdx (sameGroup · a) < groups.length := fun a ha =>
        List.findIdx_lt_length_of_exists ⟨a, mem_of_mem_dedupe ha, sameGroup_iff.2 rfl⟩
      have hbefore : (dedupe groups).Pairwise fun a b =>
          (groups ++ [last]).findIdx (sameGroup · a) < (groups ++ [last]).findIdx (sameGroup · b) := by
        refine ih.imp_of_mem fun ha hb hlt => ?_
        rwa [List.findIdx_append, List.findIdx_append, if_pos (hmet _ ha), if_pos (hmet _ hb)]
      rw [dedupe_concat]
      split
      · exact hbefore
      · rename_i hnew
        refine List.pairwise_append.2 ⟨hbefore, List.pairwise_singleton _ _, fun a ha b hb => ?_⟩
        obtain rfl := List.mem_singleton.1 hb
        have hlast : ¬ groups.findIdx (sameGroup · b) < groups.length := by
          rw [List.findIdx_lt_length]
          simpa using hnew
        rw [List.findIdx_append, List.findIdx_append, if_pos (hmet a ha), if_neg hlast]
        have hlt := hmet a ha
        omega

/-! ## More groups -/

theorem dedupe_dedupe (groups : List Text) : dedupe (dedupe groups) = dedupe groups := by
  induction groups using List.reverseRecOn with
  | nil => rfl
  | append_singleton groups last ih =>
      rw [dedupe_concat]
      split
      · exact ih
      · rename_i hnew
        rw [dedupe_concat, any_dedupe, if_neg hnew, ih]

/-- **More groups add those of them that are kept and have not been met.** -/
theorem dedupe_append (groups more : List Text) :
    dedupe (groups ++ more) = dedupe groups ++ (dedupe more).filter fun group => !groups.any (sameGroup · group) := by
  induction more using List.reverseRecOn with
  | nil => simp [dedupe]
  | append_singleton more last ih =>
      rw [← List.append_assoc, dedupe_concat, dedupe_concat, List.any_append, ih]
      cases hmet : groups.any (sameGroup · last) with
      | true =>
          rw [Bool.true_or, if_pos rfl]
          split
          · rfl
          · simp [hmet]
      | false =>
          rw [Bool.false_or]
          split
          · rfl
          · simp [hmet]

/-- **Of names that are the same up to case the first one is kept.** What is kept are the names whose folding no name
    before them has. Doing it twice changes nothing. For each name, the first one with its folding is kept and no
    other. More names add those that are kept of them and whose folding is new, so that it does not matter whether
    the names before them have been gone through already. -/
theorem dedupe_keeps_first (groups more : List Text) :
    dedupe groups =
        (groups.zipIdx.filter fun p => !(groups.take p.2).any (·.caseFold == p.1.caseFold)).map Prod.fst ∧
      dedupe (dedupe groups) = dedupe groups ∧
      (∀ group ∈ groups, ∃ first, groups.find? (·.caseFold == group.caseFold) = some first ∧
        (dedupe groups).filter (·.caseFold == group.caseFold) = [first]) ∧
      dedupe (groups ++ more) =
        dedupe groups ++ (dedupe more).filter (fun group => !groups.any (·.caseFold == group.caseFold)) ∧
      dedupe (dedupe groups ++ more) = dedupe (groups ++ more) := by
  refine ⟨dedupe_eq_filter groups, dedupe_dedupe groups, fun group hgroup => exists_first_dedupe hgroup,
    dedupe_append groups more, ?_⟩
  rw [dedupe_append, dedupe_append, dedupe_dedupe]
  simp only [any_dedupe]

/-- Names of which two are the same, although one is longer: a sharp s folds to two letters. -/
def sharpGroups : List Text := ["Straße".toList, "apps".toList, "STRASSE".toList]

theorem dedupe_keeps_first_sharp :
    dedupe sharpGroups = ["Straße".toList, "apps".toList] ∧ "STRASSE".toList ∈ sharpGroups ∧
      ∃ first, sharpGroups.find? (·.caseFold == Text.caseFold "STRASSE".toList) = some first ∧
        (dedupe sharpGroups).filter (·.caseFold == Text.caseFold "STRASSE".toList) = [first] :=
  ⟨by decide +kernel, by decide, (dedupe_keeps_first sharpGroups []).2.2.1 _ (by decide)⟩

end PolicyTable.Annotations
