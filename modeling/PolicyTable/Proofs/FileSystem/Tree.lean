import Mathlib.Data.List.Induction
import Mathlib.Data.List.Perm.Subperm
import PolicyTable.FileSystem.Node

/-!
# `PolicyTable.Proofs.FileSystem.Tree` — what a change to a tree leaves alone

A location that ends in a name has a directory above it. Putting a file where there is no directory and no
link leaves every directory a directory, every link as it is and every file a file: this is `Node.Keeps`.

## Contents
- **Locations.** `Node.HasDirectory` and `Node.HasLink`; what stands above a node is a directory.
- **Putting.** What `Node.put` does at its own location, and that it does nothing without a directory.
- **Keeping.** `Node.Keeps`, and `Node.keeps_put` for files.
- **All nodes.** Every node below the top is among the descendants (`Node.mem_descendants`), so that there
  are at most `Node.linkCount` locations of links (`Node.length_le_linkCount`).
-/

namespace PolicyTable.FileSystem

/-- Putting what is there already changes nothing. -/
theorem Entries.put_get? {entries : Entries} {name : Name} {child : Node}
    (h : Entries.get? entries name = some child) : Entries.put entries name child = entries := by
  induction entries with
  | nil => cases h
  | cons e r ih =>
      obtain ⟨n, sub⟩ := e
      by_cases hn : n = name
      · simp only [Entries.get?, if_pos hn, Option.some.injEq] at h
        simp [Entries.put, hn, h]
      · simp only [Entries.get?, if_neg hn] at h
        simp [Entries.put, hn, ih h]

namespace Node

/-! ## Locations -/

/-- There is a directory at the location. -/
def HasDirectory (top : Node) (l : Location) : Prop :=
  ∃ entries, top.at? l = some (.directory entries)

/-- There is a link at the location. -/
def HasLink (top : Node) (l : Location) : Prop :=
  ∃ target, top.at? l = some (.link target)

variable {top top' node new : Node} {d l m : Location} {name x : Name}

@[simp] theorem at?_nil (node : Node) : node.at? [] = some node := by
  cases node <;> rfl

theorem at?_directory_cons {entries : Entries} :
    (directory entries).at? (name :: l) = (Entries.get? entries name).bind (·.at? l) := rfl

/-- **Above every node there is a directory.** -/
theorem hasDirectory_of_at?_concat (h : top.at? (d ++ [x]) = some node) : top.HasDirectory d := by
  rw [at?_append] at h
  obtain ⟨above, habove, hx⟩ := Option.bind_eq_some_iff.1 h
  cases above with
  | file bytes => cases hx
  | link target => cases hx
  | directory entries => exact ⟨entries, habove⟩

theorem at?_concat_of_not_hasDirectory (h : ¬ top.HasDirectory d) : top.at? (d ++ [x]) = none := by
  rw [Option.eq_none_iff_forall_ne_some]
  intro node hnode
  exact h (hasDirectory_of_at?_concat hnode)

theorem HasDirectory.of_concat (h : top.HasDirectory (d ++ [x])) : top.HasDirectory d := by
  obtain ⟨entries, h⟩ := h
  exact hasDirectory_of_at?_concat h

/-- The directory above a directory; the top counts as the one above itself. -/
theorem HasDirectory.dropLast (h : top.HasDirectory d) : top.HasDirectory d.dropLast := by
  rcases List.eq_nil_or_concat d with rfl | ⟨front, last, rfl⟩
  · exact h
  · rw [List.concat_eq_append] at h ⊢
    rw [List.dropLast_concat]
    exact h.of_concat

/-- Above every location with a directory there is a directory at the top. -/
theorem HasDirectory.nil (h : top.HasDirectory d) : top.HasDirectory [] := by
  induction d using List.reverseRecOn with
  | nil => exact h
  | append_singleton front last ih => exact ih h.of_concat

theorem HasDirectory.not_hasLink (h : top.HasDirectory d) : ¬ top.HasLink d := by
  rintro ⟨target, ht⟩
  obtain ⟨entries, hd⟩ := h
  rw [ht] at hd
  cases hd

/-! ## Putting -/

/-- Below an entry, `put` goes down into it. -/
theorem put_directory_some {entries : Entries} {child : Node}
    (hchild : Entries.get? entries name = some child) (hl : l ≠ []) :
    (directory entries).put (name :: l) new =
      .directory (Entries.put entries name (child.put l new)) := by
  obtain ⟨y, ys, rfl⟩ := List.exists_cons_of_ne_nil hl
  simp only [put, hchild]

/-- Below a missing entry, nothing is put. -/
theorem put_directory_none {entries : Entries} (hchild : Entries.get? entries name = none)
    (hl : l ≠ []) : (directory entries).put (name :: l) new = .directory entries := by
  obtain ⟨y, ys, rfl⟩ := List.exists_cons_of_ne_nil hl
  simp only [put, hchild]

/-- In a directory, what is put under a name is there. -/
theorem at?_put_concat (h : top.HasDirectory d) :
    (top.put (d ++ [x]) new).at? (d ++ [x]) = some new := by
  obtain ⟨entries, h⟩ := h
  induction d generalizing top with
  | nil =>
      obtain rfl : top = .directory entries := by simpa using h
      simp [put, at?_directory_cons]
  | cons n r ih =>
      cases top with
      | file bytes => cases h
      | link target => cases h
      | directory es =>
          rw [at?_directory_cons] at h
          obtain ⟨child, hchild, h⟩ := Option.bind_eq_some_iff.1 h
          rw [List.cons_append, put_directory_some hchild (by simp), at?_directory_cons,
            Entries.get?_put_self]
          exact ih h

/-- Without a directory above, nothing is put. -/
theorem put_concat_of_not_hasDirectory (h : ¬ top.HasDirectory d) :
    top.put (d ++ [x]) new = top := by
  induction d generalizing top with
  | nil =>
      cases top with
      | file bytes => rfl
      | link target => rfl
      | directory entries => exact absurd ⟨entries, at?_nil _⟩ h
  | cons n r ih =>
      cases top with
      | file bytes => rfl
      | link target => rfl
      | directory entries =>
          rw [List.cons_append]
          cases hchild : Entries.get? entries n with
          | none => exact put_directory_none hchild (by simp)
          | some child =>
              have hput : child.put (r ++ [x]) new = child := by
                refine ih fun ⟨es, hes⟩ => h ⟨es, ?_⟩
                rw [at?_directory_cons, hchild]
                exact hes
              rw [put_directory_some hchild (by simp), hput, Entries.put_get? hchild]

/-! ## Keeping -/

/-- What was at a location is kept by what is there now: a directory and a file may have changed inside, a
    link leads on as before. -/
inductive Kept : Option Node → Option Node → Prop
  | missing {now : Option Node} : Kept none now
  | directory {before after : Entries} : Kept (some (.directory before)) (some (.directory after))
  | link {target : Text} : Kept (some (.link target)) (some (.link target))
  | file {before after : List UInt8} : Kept (some (.file before)) (some (.file after))

theorem Kept.refl (node? : Option Node) : Kept node? node? := by
  cases node? with
  | none => exact .missing
  | some node =>
      cases node with
      | file bytes => exact .file
      | link target => exact .link
      | directory entries => exact .directory

/-- One tree keeps another: where there was a directory, a link or a file, there still is one. -/
def Keeps (top top' : Node) : Prop := ∀ l, Kept (top.at? l) (top'.at? l)

theorem Keeps.refl (top : Node) : Keeps top top := fun l => .refl (top.at? l)

theorem Keeps.hasDirectory (h : Keeps top top') (hd : top.HasDirectory l) : top'.HasDirectory l := by
  obtain ⟨entries, hl⟩ := hd
  have hk := h l
  rw [hl] at hk
  generalize hnow : top'.at? l = now at hk
  cases hk with
  | directory => exact ⟨_, hnow⟩

theorem Keeps.at?_link {target : Text} (h : Keeps top top')
    (hl : top.at? l = some (.link target)) : top'.at? l = some (.link target) := by
  have hk := h l
  rw [hl] at hk
  generalize top'.at? l = now at hk
  cases hk with
  | link => rfl

theorem Keeps.at?_file {bytes : List UInt8} (h : Keeps top top')
    (hl : top.at? l = some (.file bytes)) : ∃ bytes', top'.at? l = some (.file bytes') := by
  have hk := h l
  rw [hl] at hk
  generalize top'.at? l = now at hk
  cases hk with
  | file => exact ⟨_, rfl⟩

theorem Keeps.at?_some (h : Keeps top top') (hl : top.at? l = some node) :
    ∃ node', top'.at? l = some node' := by
  have hk := h l
  rw [hl] at hk
  generalize top'.at? l = now at hk
  cases hk with
  | directory => exact ⟨_, rfl⟩
  | link => exact ⟨_, rfl⟩
  | file => exact ⟨_, rfl⟩

/-- A file may be put at a location: there is nothing, or a file that it replaces. -/
def Free (top : Node) (l : Location) : Prop :=
  ∀ node, top.at? l = some node → ∃ bytes, node = .file bytes

theorem free_of_missing (h : top.at? l = none) : top.Free l := by
  intro node hnode
  rw [h] at hnode
  cases hnode

theorem free_of_not (hdir : ¬ top.HasDirectory l) (hlink : ¬ top.HasLink l) : top.Free l := by
  intro node hnode
  cases node with
  | file bytes => exact ⟨bytes, rfl⟩
  | link target => exact absurd ⟨target, hnode⟩ hlink
  | directory entries => exact absurd ⟨entries, hnode⟩ hdir

/-- A directory with a new entry is kept if what was below the name is. -/
theorem Keeps.put_entry {entries : Entries} {child : Node}
    (h : ∀ s, Kept ((Entries.get? entries name).bind (·.at? s)) (child.at? s)) :
    Keeps (.directory entries) (.directory (Entries.put entries name child)) := by
  intro l
  cases l with
  | nil => exact .directory
  | cons n s =>
      rw [at?_directory_cons, at?_directory_cons]
      by_cases hn : n = name
      · rw [hn, Entries.get?_put_self]
        exact h s
      · rw [Entries.get?_put_of_ne hn]
        exact .refl _

theorem keeps_file (before after : List UInt8) : Keeps (.file before) (.file after) := by
  intro l
  cases l with
  | nil => exact .file
  | cons n s => exact .missing

/-- **A file that is put where it may be put keeps the tree.** -/
theorem keeps_put {bytes : List UInt8} (hm : top.Free m) : Keeps top (top.put m (.file bytes)) := by
  induction m generalizing top with
  | nil =>
      obtain ⟨old, rfl⟩ := hm top (at?_nil top)
      exact keeps_file old bytes
  | cons name r ih =>
      cases top with
      | file old => exact fun _ => .refl _
      | link target => exact fun _ => .refl _
      | directory entries =>
          -- What is free here is free below the name as well, where the entry is replaced or gone through.
          have hbelow : ∀ child, Entries.get? entries name = some child → child.Free r := by
            intro child hchild node hnode
            refine hm node ?_
            rw [at?_directory_cons, hchild]
            exact hnode
          cases r with
          | nil =>
              refine Keeps.put_entry fun s => ?_
              cases hchild : Entries.get? entries name with
              | none => exact .missing
              | some child =>
                  obtain ⟨old, rfl⟩ := hbelow child hchild child (at?_nil child)
                  exact keeps_file old bytes s
          | cons y ys =>
              cases hchild : Entries.get? entries name with
              | none =>
                  rw [put_directory_none hchild (List.cons_ne_nil y ys)]
                  exact fun _ => .refl _
              | some child =>
                  rw [put_directory_some hchild (List.cons_ne_nil y ys)]
                  refine Keeps.put_entry fun s => ?_
                  rw [hchild]
                  exact ih (hbelow child hchild) s

/-! ## All nodes -/

theorem mem_descendantsOf {entries : Entries} {child : Node}
    (h : Entries.get? entries name = some child) :
    ([name], child) ∈ descendantsOf entries ∧
      ∀ below ∈ child.descendants, (name :: below.1, below.2) ∈ descendantsOf entries := by
  induction entries with
  | nil => cases h
  | cons e r ih =>
      obtain ⟨n, sub⟩ := e
      by_cases hn : n = name
      · simp only [Entries.get?, if_pos hn, Option.some.injEq] at h
        subst hn h
        refine ⟨by simp [descendantsOf], fun below hbelow => ?_⟩
        simp only [descendantsOf, List.cons_append, List.mem_cons, List.mem_append, List.mem_map]
        exact .inr (.inl ⟨below, hbelow, rfl⟩)
      · simp only [Entries.get?, if_neg hn] at h
        obtain ⟨h1, h2⟩ := ih h
        simp only [descendantsOf, List.cons_append]
        exact ⟨List.mem_cons_of_mem _ (List.mem_append_right _ h1),
          fun below hbelow => List.mem_cons_of_mem _ (List.mem_append_right _ (h2 below hbelow))⟩

/-- **Every node below the top is a descendant.** -/
theorem mem_descendants (hl : l ≠ []) (h : top.at? l = some node) : (l, node) ∈ top.descendants := by
  induction l generalizing top with
  | nil => exact absurd rfl hl
  | cons name r ih =>
      cases top with
      | file bytes => cases h
      | link target => cases h
      | directory entries =>
          rw [at?_directory_cons] at h
          obtain ⟨child, hchild, h⟩ := Option.bind_eq_some_iff.1 h
          obtain ⟨h1, h2⟩ := mem_descendantsOf hchild
          cases r with
          | nil =>
              obtain rfl : child = node := by simpa using h
              exact h1
          | cons y ys => exact h2 _ (ih (List.cons_ne_nil y ys) h)

/-- Different locations of links are at most as many as there are links. -/
theorem length_le_linkCount {links : List Location} (hd : links.Nodup)
    (h : ∀ l ∈ links, l ≠ [] ∧ top.HasLink l) : links.length ≤ top.linkCount := by
  have hsub : links ⊆ (top.descendants.filter (·.2.isLink)).map Prod.fst := by
    intro l hl
    obtain ⟨hne, target, ht⟩ := h l hl
    refine List.mem_map.2 ⟨(l, .link target), List.mem_filter.2 ⟨?_, rfl⟩, rfl⟩
    exact mem_descendants hne ht
  have hle := (List.subperm_of_subset hd hsub).length_le
  rwa [List.length_map] at hle

/-- A directory that counts no links has none. -/
theorem not_hasLink_of_linkCount_eq_zero (hdir : top.isDirectory = true) (h : top.linkCount = 0) (l : Location) :
    ¬ top.HasLink l := by
  intro hl
  have hne : l ≠ [] := by
    rintro rfl
    obtain ⟨target, ht⟩ := hl
    rw [at?_nil, Option.some.injEq] at ht
    rw [ht] at hdir
    cases hdir
  have hlink : ∀ m ∈ [l], m ≠ [] ∧ top.HasLink m := by simpa using ⟨hne, hl⟩
  have hle := length_le_linkCount (by simp) hlink
  rw [h] at hle
  simp at hle

end Node

end PolicyTable.FileSystem
