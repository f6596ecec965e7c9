import PolicyTable.Policy.Collection
import PolicyTable.Proofs.FileSystem.Below
import PolicyTable.Proofs.FileSystem.Relisted
import PolicyTable.Proofs.Sequence

/-!
# `PolicyTable.Proofs.Policy.Listing` — ordered lists of paths below a directory

The walk through a directory puts together what its entries give, in the order of their names. Each entry gives
a list of paths that begin with its name. If these lists are ordered then so is the whole, since paths are
compared name by name and no two entries have one name.

## Contents
- **One directory.** `listing_eq`: the walk goes through the entries in the order of their names; `listing_put`:
  entries that give nothing make no difference.
- **Lists of paths.** `ListsBelow` says that a list has the paths with a property, each once and in order.
- **Results.** `Answers` says the same of a walk that may stop; `Answers.listing` puts the entries together.
-/

namespace PolicyTable.Policy

open FileSystem

variable {w : World} {s : Selection} {path : Path} {name : Name} {entries : Entries} {files : List Path}
  {P Q : List Name → Prop}

/-! ## One directory -/

theorem collectEach_eq_map :
    collectEach w s path entries = entries.map fun e => (e.1, collectEntry w s path e) := by
  induction entries with
  | nil => rw [collectEach, List.map_nil]
  | cons e r ih => rw [collectEach, List.map_cons, ih]

/-- A directory gives what its entries give, one after the other in the order of their names. -/
theorem listing_eq :
    inNameOrder (collectEach w s path entries) =
      (entries.byName.mapM (collectEntry w s path)).map List.flatten := by
  have hsort : (collectEach w s path entries).mergeSort (fun a b => Text.inOrder a.1 b.1) =
      entries.byName.map fun e => (e.1, collectEntry w s path e) := by
    rw [collectEach_eq_map, Entries.byName, List.map_mergeSort]
    intro a _ b _
    rfl
  rw [inNameOrder, hsort, List.mapM_map]
  rfl

/-- Entries that give nothing may be left out. -/
theorem listing_filter {p : Name × Node → Bool} (hd : (entries.map Prod.fst).Nodup)
    (h : ∀ e ∈ entries, p e = false → collectEntry w s path e = .ok []) :
    inNameOrder (collectEach w s path (entries.filter p)) = inNameOrder (collectEach w s path entries) := by
  rw [listing_eq, listing_eq, Entries.byName_filter hd]
  exact mapM_filter_flatten fun e he => h e (Entries.mem_byName.1 he)

/-- **An entry that gives nothing may be put in the place of another one**, or of none. -/
theorem listing_put {new : Node} (hd : (entries.map Prod.fst).Nodup)
    (hnew : collectEntry w s path (name, new) = .ok [])
    (hold : ∀ old, entries.get? name = some old → collectEntry w s path (name, old) = .ok []) :
    inNameOrder (collectEach w s path (entries.put name new)) = inNameOrder (collectEach w s path entries) := by
  -- Without the entries of that name, the two directories are the same.
  rw [← listing_filter (p := (·.1 ≠ name)) hd, ← listing_filter (p := (·.1 ≠ name)) (Entries.nodup_put hd),
    Entries.filter_put]
  · rintro ⟨x, node⟩ he hx
    obtain rfl : x = name := by simpa using hx
    have hget := (Entries.get?_eq_some_iff (Entries.nodup_put hd)).2 he
    rw [Entries.get?_put_self, Option.some.injEq] at hget
    rwa [← hget]
  · rintro ⟨x, node⟩ he hx
    obtain rfl : x = name := by simpa using hx
    exact hold node ((Entries.get?_eq_some_iff hd).2 he)

/-! ## Lists of paths -/

/-- The files are the paths below a path whose names have the property, each of them once and in the order of
    the names. -/
def ListsBelow (path : Path) (P : List Name → Prop) (files : List Path) : Prop :=
  ∃ found : List (List Name), files = found.map path.below ∧ found.Pairwise NamesBefore ∧
    ∀ names, names ∈ found ↔ P names

namespace ListsBelow

theorem congr (h : ListsBelow path P files) (hPQ : ∀ names, P names ↔ Q names) : ListsBelow path Q files := by
  obtain ⟨found, rfl, hsorted, hmem⟩ := h
  exact ⟨found, rfl, hsorted, fun names => (hmem names).trans (hPQ names)⟩

theorem none (h : ∀ names, ¬ P names) : ListsBelow path P [] := by
  refine ⟨[], rfl, .nil, fun names => ⟨fun hmem => ?_, fun hP => absurd hP (h names)⟩⟩
  cases hmem

theorem self (h : ∀ names, P names ↔ names = []) : ListsBelow path P [path] := by
  refine ⟨[[]], by rw [List.map_singleton, Path.below_nil], List.pairwise_singleton .., fun names => ?_⟩
  rw [List.mem_singleton, h]

/-- Lists of paths whose first names are in order make one list. -/
theorem flatten {sorted : Entries} {lists : List (List Path)} {P : Name × Node → List Name → Prop}
    (hsorted : sorted.Pairwise fun a b => Text.Before a.1 b.1)
    (h : List.Forall₂ (fun e files => ListsBelow (path.child e.1) (P e) files) sorted lists) :
    ListsBelow path (fun names => ∃ e ∈ sorted, ∃ rest, names = e.1 :: rest ∧ P e rest) lists.flatten := by
  induction h with
  | nil => exact .none fun names => by simp
  | @cons e files sorted lists he hrest ih =>
      obtain ⟨hfirst, hsorted⟩ := List.pairwise_cons.1 hsorted
      obtain ⟨found, rfl, hfound, hmem⟩ := he
      obtain ⟨others, hothers, hpairwise, hmem'⟩ := ih hsorted
      refine ⟨found.map (e.1 :: ·) ++ others, ?_, ?_, ?_⟩
      · rw [List.flatten_cons, hothers, List.map_append, List.map_map]
        congr 2
        funext rest
        exact (path.below_cons e.1 rest).symm
      · refine List.pairwise_append.2 ⟨List.pairwise_map.2 (hfound.imp .cons), hpairwise, ?_⟩
        -- A path of this entry and one of a later entry differ in their first names already.
        intro a ha b hb
        obtain ⟨rest, _, rfl⟩ := List.mem_map.1 ha
        obtain ⟨e', he', rest', rfl, _⟩ := (hmem' b).1 hb
        exact .rel (hfirst e' he')
      · intro names
        rw [List.mem_append, List.mem_map, hmem']
        refine (or_congr ⟨?_, ?_⟩ Iff.rfl).trans (List.exists_mem_cons_iff _ _ _).symm
        · rintro ⟨rest, hrest, rfl⟩
          exact ⟨rest, rfl, (hmem rest).1 hrest⟩
        · rintro ⟨rest, rfl, hrest⟩
          exact ⟨rest, (hmem rest).2 hrest, rfl⟩

theorem nodup (h : ListsBelow path P files) : files.Nodup := by
  obtain ⟨found, rfl, hsorted, _⟩ := h
  refine List.Pairwise.map _ (fun a b hab heq => ?_) hsorted
  have hparts : path.parts ++ a = path.parts ++ b := congrArg (·.parts) heq
  obtain rfl : a = b := List.append_cancel_left hparts
  exact irrefl_of (List.Lex Text.Before) a hab

end ListsBelow

/-! ## Results -/

/-- The walk gives all paths below a path whose names have the property, or stops with one of the stops that
    there are; it gives nothing if there is any. -/
def Answers (path : Path) (P : List Name → Prop) (H : Stop → Prop) : Except Stop (List Path) → Prop
  | .ok files => ListsBelow path P files ∧ ∀ stop, ¬ H stop
  | .error stop => H stop

namespace Answers

variable {H K : Stop → Prop} {result : Except Stop (List Path)}

theorem congr (h : Answers path P H result) (hPQ : ∀ names, P names ↔ Q names) (hHK : ∀ stop, H stop ↔ K stop) :
    Answers path Q K result := by
  cases result with
  | ok files => exact ⟨h.1.congr hPQ, fun stop hK => h.2 stop ((hHK stop).2 hK)⟩
  | error stop => exact (hHK stop).1 h

/-- **What holds of the walk through each entry holds of the walk through the directory.** -/
theorem listing {P : Name × Node → List Name → Prop} {H : Name × Node → Stop → Prop}
    (hd : (entries.map Prod.fst).Nodup)
    (h : ∀ e ∈ entries, Answers (path.child e.1) (P e) (H e) (collectEntry w s path e)) :
    Answers path (fun names => ∃ e ∈ entries, ∃ rest, names = e.1 :: rest ∧ P e rest)
      (fun stop => ∃ e ∈ entries, H e stop) (inNameOrder (collectEach w s path entries)) := by
  have hsorted := Entries.byName_pairwise hd
  rw [listing_eq]
  cases hresult : entries.byName.mapM (collectEntry w s path) with
  | error stop =>
      -- The first entry in the order of the names that stops the walk; there may be others.
      obtain ⟨before, e, after, hsplit, _, he⟩ := mapM_eq_error_iff.1 hresult
      have hmem : e ∈ entries := Entries.mem_byName.1 (hsplit ▸ List.mem_append_right _ (List.mem_cons_self ..))
      have hH := h e hmem
      rw [he] at hH
      exact ⟨e, hmem, hH⟩
  | ok lists =>
      have hall := mapM_eq_ok_iff.1 hresult
      constructor
      · have hlists : List.Forall₂ (fun e files => ListsBelow (path.child e.1) (P e) files) entries.byName lists := by
          have hboth := (@List.forall₂_and_left _ _ _ (· ∈ entries.byName) _ _).2 ⟨fun _ he => he, hall⟩
          refine hboth.imp ?_
          rintro e files ⟨hmem, he⟩
          have hA := h e (Entries.mem_byName.1 hmem)
          rw [he] at hA
          exact hA.1
        refine (ListsBelow.flatten hsorted hlists).congr fun names => ?_
        simp only [Entries.mem_byName]
      · rintro stop ⟨e, hmem, hH⟩
        obtain ⟨files, _, he⟩ := exists_of_mapM_eq_ok hresult (Entries.mem_byName.2 hmem)
        have hA := h e hmem
        rw [he] at hA
        exact hA.2 stop hH

end Answers

end PolicyTable.Policy
