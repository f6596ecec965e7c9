import PolicyTable.Proofs.FileSystem.Relisted

/-!
# `PolicyTable.Proofs.FileSystem.Change` — what a change at one location changes

A node is put at a location, or an entry is taken away from one. What stands there and below is then new or
gone, and everything else is as it was: a file with its bytes, a link with its target, a directory.

## Contents
- **Entries.** Putting and taking away among the entries of one directory.
- **Elsewhere.** `Node.kindAt?`, the kind of the node at a location, after `Node.put` and `Node.remove`.
- **Twice.** A put undone (`Node.remove_put`) and a put done again (`Node.put_put`).
- **Well-formed trees.** `Node.Distinct.put`, `Node.WellFormed.put` and `Node.WellFormed.remove`, and
  `Node.kindAt?_foldl_remove` for several entries.
- **Parts.** `Node.Within`: everything in one tree is in another. `Node.Adds`: one file more, which may stand below
  new directories (`Node.adds_put_chain`). `World.without` takes entries away.
-/

namespace PolicyTable.FileSystem

open Node (HasDirectory HasLink Keeps Kept Kind)

variable {entries : Entries} {name x : Name} {node new old child top top' : Node} {d l m : Location}

/-! ## Entries -/

namespace Entries

theorem remove_put (h : entries.get? name = none) : (entries.put name new).remove name = entries := by
  induction entries with
  | nil => simp [put, remove]
  | cons e r ih =>
      obtain ⟨n, sub⟩ := e
      by_cases hn : n = name
      · simp [get?, hn] at h
      · simp only [get?, if_neg hn] at h
        simp [put, remove, hn, ih h]

theorem put_put (entries : Entries) (name : Name) (old new : Node) :
    (entries.put name old).put name new = entries.put name new := by
  induction entries with
  | nil => simp [put]
  | cons e r ih => by_cases hn : e.1 = name <;> simp [put, hn, ih]

theorem get?_remove_self (hd : (entries.map Prod.fst).Nodup) : (entries.remove name).get? name = none := by
  rw [Option.eq_none_iff_forall_ne_some]
  intro node hnode
  have hmem := mem_of_get? hnode
  induction entries with
  | nil => cases hmem
  | cons e r ih =>
      obtain ⟨n, sub⟩ := e
      obtain ⟨hn, hr⟩ := List.nodup_cons.1 hd
      by_cases heq : n = name
      · simp only [remove, if_pos heq] at hmem
        exact hn (heq ▸ List.mem_map.2 ⟨_, hmem, rfl⟩)
      · simp only [remove, if_neg heq, get?] at hnode hmem
        rcases List.mem_cons.1 hmem with hfirst | hmem
        · exact heq (congrArg Prod.fst hfirst).symm
        · exact ih hr hnode hmem

theorem remove_sublist (entries : Entries) (name : Name) : (entries.remove name).Sublist entries := by
  induction entries with
  | nil => exact List.Sublist.refl _
  | cons e r ih =>
      by_cases hn : e.1 = name
      · simp [remove, hn]
      · simpa [remove, hn] using ih

theorem mem_put {e : Name × Node} (h : e ∈ entries.put name new) : e ∈ entries ∨ e = (name, new) := by
  induction entries with
  | nil => exact .inr (by simpa [put] using h)
  | cons first r ih =>
      obtain ⟨n, sub⟩ := first
      by_cases hn : n = name
      · simp only [put, if_pos hn, List.mem_cons] at h
        rcases h with h | h
        · exact .inr h
        · exact .inl (List.mem_cons_of_mem _ h)
      · simp only [put, if_neg hn, List.mem_cons] at h
        rcases h with h | h
        · exact .inl (h ▸ List.mem_cons_self ..)
        · exact (ih h).imp_left (List.mem_cons_of_mem _)

theorem nodup_put (hd : (entries.map Prod.fst).Nodup) : ((entries.put name new).map Prod.fst).Nodup := by
  induction entries with
  | nil => simp [put]
  | cons e r ih =>
      obtain ⟨n, sub⟩ := e
      obtain ⟨hn, hr⟩ := List.nodup_cons.1 hd
      by_cases heq : n = name
      · subst heq
        rw [put, if_pos rfl]
        exact hd
      · simp only [put, if_neg heq, List.map_cons, List.nodup_cons]
        refine ⟨fun hmem => ?_, ih hr⟩
        obtain ⟨e, he, hfirst⟩ := List.mem_map.1 hmem
        rcases mem_put he with he | rfl
        · exact hn (List.mem_map.2 ⟨e, he, hfirst⟩)
        · exact heq hfirst.symm

theorem filter_put (entries : Entries) (name : Name) (new : Node) :
    (entries.put name new).filter (·.1 ≠ name) = entries.filter (·.1 ≠ name) := by
  induction entries with
  | nil => simp [put]
  | cons e r ih =>
      by_cases hn : e.1 = name
      · simp [put, hn]
      · simpa [put, hn] using ih

end Entries

namespace Node

/-! ## Elsewhere -/

/-- The kind of the node at a location. -/
def kindAt? (top : Node) (l : Location) : Option Kind := (top.at? l).map kind

theorem kindAt?_eq_file_iff {bytes : List UInt8} :
    top.kindAt? l = some (.file bytes) ↔ top.at? l = some (.file bytes) := by
  unfold kindAt?
  rcases top.at? l with _ | (_ | _ | _) <;> simp [kind]

theorem kindAt?_eq_link_iff {target : Text} :
    top.kindAt? l = some (.link target) ↔ top.at? l = some (.link target) := by
  unfold kindAt?
  rcases top.at? l with _ | (_ | _ | _) <;> simp [kind]

theorem kindAt?_eq_directory_iff : top.kindAt? l = some .directory ↔ top.HasDirectory l := by
  unfold kindAt? HasDirectory
  rcases top.at? l with _ | (_ | _ | _) <;> simp [kind]

@[simp] theorem kindAt?_nil (node : Node) : node.kindAt? [] = some node.kind := by
  rw [kindAt?, at?_nil, Option.map_some]

theorem kindAt?_directory_cons :
    (directory entries).kindAt? (name :: l) = (entries.get? name).bind (·.kindAt? l) := by
  rw [kindAt?, at?_directory_cons]
  cases entries.get? name <;> rfl

theorem kindAt?_append (h : top.at? d = some node) : top.kindAt? (d ++ l) = node.kindAt? l := by
  rw [kindAt?, kindAt?, at?_append, h, Option.bind_some]

/-- A new entry makes no difference where its node has what was there. -/
theorem kindAt?_put_entry
    (h : ∀ s, l = name :: s → child.kindAt? s = (entries.get? name).bind (·.kindAt? s)) :
    (directory (entries.put name child)).kindAt? l = (directory entries).kindAt? l := by
  cases l with
  | nil => rfl
  | cons n s =>
      rw [kindAt?_directory_cons, kindAt?_directory_cons]
      by_cases hn : n = name
      · subst hn
        rw [Entries.get?_put_self]
        exact h s rfl
      · rw [Entries.get?_put_of_ne hn]

/-- **Putting changes nothing elsewhere.** -/
theorem kindAt?_put (h : ¬ m <+: l) : (top.put m new).kindAt? l = top.kindAt? l := by
  induction m generalizing top l with
  | nil => exact absurd List.nil_prefix h
  | cons name r ih =>
      cases top with
      | file bytes => rfl
      | link target => rfl
      | directory entries =>
          have hbelow : ∀ s, l = name :: s → ¬ r <+: s := by
            rintro s rfl hr
            exact h (List.cons_prefix_cons.2 ⟨rfl, hr⟩)
          rcases eq_or_ne r [] with rfl | hr
          · exact kindAt?_put_entry fun s hs => absurd List.nil_prefix (hbelow s hs)
          · cases hchild : Entries.get? entries name with
            | none => rw [put_directory_none hchild hr]
            | some child =>
                rw [put_directory_some hchild hr]
                refine kindAt?_put_entry fun s hs => ?_
                rw [hchild]
                exact ih (hbelow s hs)

/-- Below an entry, `remove` goes down into it. -/
theorem remove_directory_some (hchild : entries.get? name = some child) (hl : l ≠ []) :
    (directory entries).remove (name :: l) = .directory (entries.put name (child.remove l)) := by
  obtain ⟨y, ys, rfl⟩ := List.exists_cons_of_ne_nil hl
  simp only [remove, hchild]

/-- Below a missing entry, nothing is taken away. -/
theorem remove_directory_none (hchild : entries.get? name = none) (hl : l ≠ []) :
    (directory entries).remove (name :: l) = .directory entries := by
  obtain ⟨y, ys, rfl⟩ := List.exists_cons_of_ne_nil hl
  simp only [remove, hchild]

@[simp] theorem remove_nil (top : Node) : top.remove [] = top := by
  cases top <;> rfl

/-- Taking away changes nothing elsewhere. -/
theorem kindAt?_remove_of_not_prefix (h : ¬ m <+: l) : (top.remove m).kindAt? l = top.kindAt? l := by
  induction m generalizing top l with
  | nil => exact absurd List.nil_prefix h
  | cons name r ih =>
      cases top with
      | file bytes => rfl
      | link target => rfl
      | directory entries =>
          have hbelow : ∀ s, l = name :: s → ¬ r <+: s := by
            rintro s rfl hr
            exact h (List.cons_prefix_cons.2 ⟨rfl, hr⟩)
          rcases eq_or_ne r [] with rfl | hr
          · -- The entry is gone, and `l` does not go through it.
            cases l with
            | nil => rfl
            | cons n s =>
                have hn : n ≠ name := by
                  rintro rfl
                  exact hbelow s rfl List.nil_prefix
                rw [remove, kindAt?_directory_cons, kindAt?_directory_cons, Entries.get?_remove_of_ne hn]
          · cases hchild : Entries.get? entries name with
            | none => rw [remove_directory_none hchild hr]
            | some child =>
                rw [remove_directory_some hchild hr]
                refine kindAt?_put_entry fun s hs => ?_
                rw [hchild]
                exact ih (hbelow s hs)

/-- Taking away leaves nothing there and below. -/
theorem at?_remove_append (h : top.Distinct) (hm : m ≠ []) : (top.remove m).at? (m ++ l) = none := by
  induction m generalizing top with
  | nil => exact absurd rfl hm
  | cons name r ih =>
      cases top with
      | file bytes => rfl
      | link target => rfl
      | directory entries =>
          rcases eq_or_ne r [] with rfl | hr
          · rw [remove, List.cons_append, at?_directory_cons, Entries.get?_remove_self (h [] entries (at?_nil _))]
            rfl
          · cases hchild : Entries.get? entries name with
            | none =>
                rw [remove_directory_none hchild hr, List.cons_append, at?_directory_cons, hchild]
                rfl
            | some child =>
                rw [remove_directory_some hchild hr, List.cons_append, at?_directory_cons, Entries.get?_put_self]
                exact ih (h.of_get? hchild) hr

/-- **What is left where an entry is taken away.** -/
theorem kindAt?_remove (hw : top.WellFormed) (hm : m ≠ []) :
    (top.remove m).kindAt? l = if m <+: l then none else top.kindAt? l := by
  split_ifs with hl
  · obtain ⟨s, rfl⟩ := hl
    rw [kindAt?, at?_remove_append hw.distinct hm, Option.map_none]
  · exact kindAt?_remove_of_not_prefix hl

/-- Below what is no directory there is nothing. -/
theorem at?_append_of_not_hasDirectory (h : ¬ top.HasDirectory m) (hl : l ≠ []) : top.at? (m ++ l) = none := by
  rw [Node.at?_append]
  obtain ⟨y, ys, rfl⟩ := List.exists_cons_of_ne_nil hl
  cases hm : top.at? m with
  | none => rfl
  | some node =>
      cases node with
      | file bytes => rfl
      | link target => rfl
      | directory entries => exact absurd ⟨entries, hm⟩ h

theorem Free.not_hasDirectory (h : top.Free m) : ¬ top.HasDirectory m := by
  rintro ⟨entries, hm⟩
  obtain ⟨bytes, hbytes⟩ := h _ hm
  cases hbytes

/-- Below a file there is nothing. -/
theorem Free.at?_append (h : top.Free m) (hl : l ≠ []) : top.at? (m ++ l) = none :=
  at?_append_of_not_hasDirectory h.not_hasDirectory hl

/-- Taking away what has nothing below it changes nothing but what is there. -/
theorem kindAt?_remove_leaf (h : top.Distinct) (hm : m ≠ []) (hleaf : ¬ top.HasDirectory m) (hl : l ≠ m) :
    (top.remove m).kindAt? l = top.kindAt? l := by
  by_cases hbelow : m <+: l
  · obtain ⟨s, rfl⟩ := hbelow
    have hs : s ≠ [] := by
      rintro rfl
      exact hl (List.append_nil m)
    rw [kindAt?, kindAt?, at?_remove_append h hm, at?_append_of_not_hasDirectory hleaf hs]
  · exact kindAt?_remove_of_not_prefix hbelow

/-- **Putting a node with nothing below it changes nothing but what is there.** -/
theorem kindAt?_put_leaf (hd : top.HasDirectory d) (hold : ∀ s, s ≠ [] → top.at? (d ++ [x] ++ s) = none)
    (hnew : ∀ s, s ≠ [] → new.at? s = none) (hl : l ≠ d ++ [x]) :
    (top.put (d ++ [x]) new).kindAt? l = top.kindAt? l := by
  by_cases hbelow : d ++ [x] <+: l
  · obtain ⟨s, rfl⟩ := hbelow
    have hs : s ≠ [] := by
      rintro rfl
      exact hl (List.append_nil _)
    rw [kindAt?, kindAt?, hold s hs, Node.at?_append, at?_put_concat hd, Option.bind_some, hnew s hs]
  · exact kindAt?_put hbelow

/-- **Putting a file changes nothing but the file.** -/
theorem kindAt?_put_file {bytes : List UInt8} (hd : top.HasDirectory d) (hfree : top.Free (d ++ [x]))
    (hl : l ≠ d ++ [x]) : (top.put (d ++ [x]) (.file bytes)).kindAt? l = top.kindAt? l := by
  refine kindAt?_put_leaf hd (fun s hs => hfree.at?_append hs) (fun s hs => ?_) hl
  obtain ⟨y, ys, rfl⟩ := List.exists_cons_of_ne_nil hs
  rfl

/-- The same at any location where a file may be put: if there is no directory for it, nothing is put. -/
theorem kindAt?_put_free {bytes : List UInt8} (hfree : top.Free m) (hl : l ≠ m) :
    (top.put m (.file bytes)).kindAt? l = top.kindAt? l := by
  rcases List.eq_nil_or_concat m with rfl | ⟨d, x, rfl⟩
  · -- The tree is a file.
    obtain ⟨y, ys, rfl⟩ := List.exists_cons_of_ne_nil hl
    obtain ⟨old, rfl⟩ := hfree top (at?_nil top)
    rfl
  · rw [List.concat_eq_append] at hfree hl ⊢
    by_cases hd : top.HasDirectory d
    · exact kindAt?_put_file hd hfree hl
    · rw [put_concat_of_not_hasDirectory hd]

/-! ## Twice -/

/-- What is put below a place is put into the directory there. -/
theorem at?_put_append (h : top.at? d = some node) (hm : m ≠ []) :
    (top.put (d ++ m) new).at? d = some (node.put m new) := by
  induction d generalizing top with
  | nil =>
      rw [at?_nil, Option.some.injEq] at h
      rw [h, List.nil_append, at?_nil]
  | cons name r ih =>
      cases top with
      | file bytes => cases h
      | link target => cases h
      | directory entries =>
          rw [at?_directory_cons] at h
          obtain ⟨child, hchild, h⟩ := Option.bind_eq_some_iff.1 h
          rw [List.cons_append, put_directory_some hchild (by simp [hm]), at?_directory_cons, Entries.get?_put_self]
          exact ih h

/-- **A put where nothing was is undone by taking away.** -/
theorem remove_put (hd : top.HasDirectory d) (hnone : top.at? (d ++ [x]) = none) :
    (top.put (d ++ [x]) new).remove (d ++ [x]) = top := by
  obtain ⟨entries, hd⟩ := hd
  induction d generalizing top with
  | nil =>
      obtain rfl : top = .directory entries := by simpa using hd
      have hget : Entries.get? entries x = none := by simpa [at?_directory_cons] using hnone
      simp [put, remove, Entries.remove_put hget]
  | cons name r ih =>
      cases top with
      | file bytes => cases hd
      | link target => cases hd
      | directory es =>
          rw [at?_directory_cons] at hd
          obtain ⟨child, hchild, hd⟩ := Option.bind_eq_some_iff.1 hd
          rw [List.cons_append, at?_directory_cons, hchild] at hnone
          rw [List.cons_append, put_directory_some hchild (by simp),
            remove_directory_some (Entries.get?_put_self ..) (by simp), ih hnone hd, Entries.put_put,
            Entries.put_get? hchild]

/-- **The second of two puts counts.** -/
theorem put_put (top : Node) (m : Location) (old new : Node) : (top.put m old).put m new = top.put m new := by
  induction m generalizing top with
  | nil => cases top <;> cases old <;> rfl
  | cons name r ih =>
      cases top with
      | file bytes => rfl
      | link target => rfl
      | directory entries =>
          rcases eq_or_ne r [] with rfl | hr
          · simp only [put, Entries.put_put]
          · cases hchild : Entries.get? entries name with
            | none => rw [put_directory_none hchild hr, put_directory_none hchild hr]
            | some child =>
                rw [put_directory_some hchild hr, put_directory_some (Entries.get?_put_self ..) hr, ih,
                  Entries.put_put, put_directory_some hchild hr]

/-! ## Well-formed trees -/

theorem Distinct.put_entry (h : (directory entries).Distinct) (hchild : child.Distinct) :
    (directory (entries.put name child)).Distinct := by
  refine distinct_directory (Entries.nodup_put (h [] entries (at?_nil _))) fun x node hx => ?_
  by_cases hname : x = name
  · subst hname
    rw [Entries.get?_put_self, Option.some.injEq] at hx
    exact hx ▸ hchild
  · rw [Entries.get?_put_of_ne hname] at hx
    exact h.of_get? hx

/-- A put keeps the names in each directory different. -/
theorem Distinct.put (h : top.Distinct) (hnew : new.Distinct) : (top.put m new).Distinct := by
  induction m generalizing top with
  | nil => cases top <;> exact hnew
  | cons name r ih =>
      cases top with
      | file bytes => exact h
      | link target => exact h
      | directory entries =>
          rcases eq_or_ne r [] with rfl | hr
          · exact h.put_entry hnew
          · cases hchild : Entries.get? entries name with
            | none =>
                rw [put_directory_none hchild hr]
                exact h
            | some child =>
                rw [put_directory_some hchild hr]
                exact h.put_entry (ih (h.of_get? hchild))

theorem WellFormed.put_entry (h : (Node.directory entries).WellFormed) (hname : IsEntryName name)
    (hchild : child.WellFormed) : (Node.directory (entries.put name child)).WellFormed := by
  cases h with
  | directory hd hnames hnodes =>
      refine .directory (Entries.nodup_put hd) (fun e he => ?_) fun e he => ?_
      · rcases Entries.mem_put he with he | rfl
        · exact hnames e he
        · exact hname
      · rcases Entries.mem_put he with he | rfl
        · exact hnodes e he
        · exact hchild

theorem WellFormed.put (h : top.WellFormed) (hx : IsEntryName x) (hnew : new.WellFormed) :
    (top.put (d ++ [x]) new).WellFormed := by
  induction d generalizing top with
  | nil =>
      cases h with
      | file => exact .file
      | link => exact .link
      | directory hd hnames hnodes => exact put_entry (.directory hd hnames hnodes) hx hnew
  | cons name r ih =>
      cases h with
      | file => exact .file
      | link => exact .link
      | @directory entries hd hnames hnodes =>
          rw [List.cons_append]
          cases hchild : Entries.get? entries name with
          | none =>
              rw [put_directory_none hchild (by simp)]
              exact .directory hd hnames hnodes
          | some child =>
              have hmem := Entries.mem_of_get? hchild
              rw [put_directory_some hchild (by simp)]
              exact put_entry (.directory hd hnames hnodes) (hnames _ hmem) (ih (hnodes _ hmem))

theorem WellFormed.remove (h : top.WellFormed) : (top.remove m).WellFormed := by
  induction m generalizing top with
  | nil => rwa [remove_nil]
  | cons name r ih =>
      cases h with
      | file => exact .file
      | link => exact .link
      | @directory entries hd hnames hnodes =>
          rcases eq_or_ne r [] with rfl | hr
          · have hsub := entries.remove_sublist name
            exact .directory (hd.sublist (hsub.map _)) (fun e he => hnames e (hsub.subset he))
              fun e he => hnodes e (hsub.subset he)
          · cases hchild : Entries.get? entries name with
            | none =>
                rw [remove_directory_none hchild hr]
                exact .directory hd hnames hnodes
            | some child =>
                have hmem := Entries.mem_of_get? hchild
                rw [remove_directory_some hchild hr]
                exact put_entry (.directory hd hnames hnodes) (hnames _ hmem) (ih (hnodes _ hmem))

/-- **What is left where several entries are taken away.** -/
theorem kindAt?_foldl_remove {locations : List Location} (hw : top.WellFormed) (hne : [] ∉ locations) :
    (locations.foldl Node.remove top).kindAt? l = if ∃ m ∈ locations, m <+: l then none else top.kindAt? l := by
  induction locations generalizing top with
  | nil => simp
  | cons m r ih =>
      obtain ⟨hm, hr⟩ := not_or.1 (List.mem_cons.not.1 hne)
      rw [List.foldl_cons, ih hw.remove hr, kindAt?_remove hw (Ne.symm hm)]
      simp only [List.exists_mem_cons_iff]
      by_cases hrest : ∃ n ∈ r, n <+: l
      · rw [if_pos hrest, if_pos (.inr hrest)]
      · simp only [hrest, or_false, if_false]

/-! ## Parts -/

/-- Everything in one tree is in another: its directories, its links and its files with their bytes. -/
def Within (top top' : Node) : Prop := ∀ l kind, top.kindAt? l = some kind → top'.kindAt? l = some kind

theorem Within.at?_file {bytes : List UInt8} (h : top.Within top') (hl : top.at? l = some (.file bytes)) :
    top'.at? l = some (.file bytes) :=
  kindAt?_eq_file_iff.1 (h l _ (kindAt?_eq_file_iff.2 hl))

theorem Within.keeps (h : top.Within top') : Keeps top top' := by
  intro l
  cases hl : top.at? l with
  | none => exact .missing
  | some node =>
      cases node with
      | file bytes => exact h.at?_file hl ▸ .file
      | link target => exact kindAt?_eq_link_iff.1 (h l _ (kindAt?_eq_link_iff.2 hl)) ▸ .link
      | directory entries =>
          obtain ⟨entries', hl'⟩ := kindAt?_eq_directory_iff.1 (h l _ (kindAt?_eq_directory_iff.2 ⟨entries, hl⟩))
          exact hl' ▸ .directory

/-- One tree is another one with a file more: the file was missing, and besides it only directories that lead to it
    are new. -/
structure Adds (top top' : Node) (m : Location) (bytes : List UInt8) : Prop where
  within : top.Within top'
  missing : top.at? m = none
  there : top'.at? m = some (.file bytes)
  only : ∀ l kind, top'.kindAt? l = some kind → top.kindAt? l = some kind ∨ l <+: m

/-- What stands on the way to a node, other than the node itself, is a directory. -/
theorem hasDirectory_above (hm : top.at? m = some node) (hl : l <+: m) (hne : l ≠ m) : top.HasDirectory l := by
  obtain ⟨s, rfl⟩ := hl
  have hs : s ≠ [] := by
    rintro rfl
    exact hne (List.append_nil l).symm
  rw [at?_append] at hm
  obtain ⟨above, habove, hs'⟩ := Option.bind_eq_some_iff.1 hm
  obtain ⟨y, ys, rfl⟩ := List.exists_cons_of_ne_nil hs
  cases above with
  | directory entries => exact ⟨entries, habove⟩
  | file bytes => cases hs'
  | link target => cases hs'

namespace Adds

variable {bytes other : List UInt8}

theorem not_hasLink (h : top.Adds top' m bytes) (hlinks : ∀ l, ¬ top.HasLink l) (l : Location) :
    ¬ top'.HasLink l := by
  rintro ⟨target, hl⟩
  rcases h.only l _ (kindAt?_eq_link_iff.2 hl) with hold | hway
  · exact hlinks l ⟨target, kindAt?_eq_link_iff.1 hold⟩
  · rcases eq_or_ne l m with rfl | hne
    · rw [h.there] at hl
      cases hl
    · exact (hasDirectory_above h.there hway hne).not_hasLink ⟨target, hl⟩

/-- The files are the new one and those from before. -/
theorem at?_file_iff (h : top.Adds top' m bytes) :
    top'.at? l = some (.file other) ↔ l = m ∧ other = bytes ∨ top.at? l = some (.file other) := by
  constructor
  · intro hl
    rcases h.only l _ (kindAt?_eq_file_iff.2 hl) with hold | hway
    · exact .inr (kindAt?_eq_file_iff.1 hold)
    · rcases eq_or_ne l m with rfl | hne
      · rw [h.there] at hl
        cases hl
        exact .inl ⟨rfl, rfl⟩
      · obtain ⟨entries, hd⟩ := hasDirectory_above h.there hway hne
        rw [hd] at hl
        cases hl
  · rintro (⟨rfl, rfl⟩ | hl)
    · exact h.there
    · exact h.within.at?_file hl

theorem hasDirectory (h : top.Adds top' m bytes) (hd : top.HasDirectory l) : top'.HasDirectory l :=
  h.within.keeps.hasDirectory hd

/-- The same below a directory. -/
theorem below (h : top.Adds top' (d ++ m) bytes) (hd : top.at? d = some node) (hd' : top'.at? d = some new) :
    node.Adds new m bytes where
  within l kind hl := by
    rw [← kindAt?_append hd']
    exact h.within _ _ ((kindAt?_append hd).trans hl)
  missing := by
    have hm := h.missing
    rwa [at?_append, hd] at hm
  there := by
    have hm := h.there
    rwa [at?_append, hd'] at hm
  only l kind hl := by
    rw [← kindAt?_append hd'] at hl
    rw [← kindAt?_append hd]
    exact (h.only _ _ hl).imp id fun hway => (List.prefix_append_right_inj d).1 hway

end Adds

/-- A node at the end of new directories, one in the other. -/
def chain : List Name → Node → Node
  | [], new => new
  | name :: r, new => .directory [(name, chain r new)]

theorem at?_chain (names : List Name) (new : Node) : (chain names new).at? names = some new := by
  induction names with
  | nil => exact at?_nil new
  | cons name r ih => simpa [chain, at?_directory_cons, Entries.get?] using ih

/-- A chain with a file at its end has nothing beside it. -/
theorem prefix_of_at?_chain {bytes : List UInt8} {names : List Name}
    (h : (chain names (.file bytes)).at? l = some node) : l <+: names := by
  induction names generalizing l with
  | nil =>
      cases l with
      | nil => exact List.nil_prefix
      | cons x s => cases h
  | cons name r ih =>
      cases l with
      | nil => exact List.nil_prefix
      | cons x s =>
          rw [chain, at?_directory_cons] at h
          obtain ⟨child, hchild, h⟩ := Option.bind_eq_some_iff.1 h
          obtain ⟨rfl, rfl⟩ : name = x ∧ chain r (.file bytes) = child := by simpa [Entries.get?] using hchild
          exact List.cons_prefix_cons.2 ⟨rfl, ih h⟩

theorem WellFormed.chain {names : List Name} (hnames : ∀ name ∈ names, IsEntryName name) (h : new.WellFormed) :
    (Node.chain names new).WellFormed := by
  induction names with
  | nil => exact h
  | cons name r ih =>
      obtain ⟨hname, hr⟩ := List.forall_mem_cons.1 hnames
      exact .directory (by simp) (by simpa using hname) (by simpa using ih hr)

/-- **Where there is a directory, a file can be put below new directories.** -/
theorem adds_put_chain {bytes : List UInt8} {names : List Name} (hd : top.HasDirectory d)
    (hnone : top.at? (d ++ [x]) = none) :
    Adds top (top.put (d ++ [x]) (chain names (.file bytes))) (d ++ x :: names) bytes where
  within l kind hl := by
    rw [kindAt?_put ?_]
    · exact hl
    · rintro ⟨s, rfl⟩
      rw [kindAt?, at?_append, hnone] at hl
      cases hl
  missing := by rw [List.append_cons, at?_append, hnone, Option.bind_none]
  there := by
    rw [List.append_cons d x names, at?_append, at?_put_concat hd, Option.bind_some, at?_chain]
  only l kind hl := by
    by_cases hbelow : d ++ [x] <+: l
    · obtain ⟨s, rfl⟩ := hbelow
      rw [kindAt?, at?_append, at?_put_concat hd, Option.bind_some] at hl
      obtain ⟨node, hnode, _⟩ := Option.map_eq_some_iff.1 hl
      rw [List.append_cons d x names]
      exact .inr ((List.prefix_append_right_inj _).2 (prefix_of_at?_chain hnode))
    · rw [kindAt?_put hbelow] at hl
      exact .inl hl

end Node

/-- The world without the entries at some locations. -/
def World.without (w : World) (locations : List Location) : World :=
  { w with top := locations.foldl Node.remove w.top }

theorem World.kindAt?_without {w : World} {locations : List Location} (hw : w.top.WellFormed)
    (hne : [] ∉ locations) :
    (w.without locations).top.kindAt? l = if ∃ m ∈ locations, m <+: l then none else w.top.kindAt? l :=
  Node.kindAt?_foldl_remove hw hne

end PolicyTable.FileSystem
