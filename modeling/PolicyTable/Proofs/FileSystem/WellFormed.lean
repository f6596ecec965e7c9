import PolicyTable.FileSystem.World
import PolicyTable.Proofs.FileSystem.Tree

/-!
# `PolicyTable.Proofs.FileSystem.WellFormed` — the trees that a file system can hold

Nothing in a `Node` keeps two entries of a directory from having one name, or an entry from having a name
that no entry can have. A file system has no such trees. In a well-formed directory the entries are what
their names lead to.

## Contents
- **Names.** `IsEntryName`, the names that an entry can have.
- **Trees.** `Node.WellFormed`, which holds of all nodes below if it holds of a tree (`Node.WellFormed.at?`), and
  `Node.Distinct`, the part of it that is about different names.
- **Induction.** `Node.induction`: what passes from the entries of a directory to the directory holds of every
  node.
-/

namespace PolicyTable.FileSystem

variable {entries : Entries} {name : Name} {node top : Node} {l : Location}

/-! ## Names -/

/-- A name that an entry can have. Directories use the other names for themselves, for the one above and to
    end a path. -/
structure IsEntryName (name : Name) : Prop where
  ne_empty : name ≠ emptyName
  ne_self : name ≠ selfName
  ne_parent : name ≠ parentName
  no_slash : '/' ∉ name
  no_nul : '\x00' ∉ name

theorem isEntryName_iff : IsEntryName name ↔
    name ≠ emptyName ∧ name ≠ selfName ∧ name ≠ parentName ∧ '/' ∉ name ∧ '\x00' ∉ name :=
  ⟨fun h => ⟨h.ne_empty, h.ne_self, h.ne_parent, h.no_slash, h.no_nul⟩,
    fun ⟨he, hs, hp, hslash, hnul⟩ => ⟨he, hs, hp, hslash, hnul⟩⟩

instance : DecidablePred IsEntryName := fun _ => decidable_of_iff' _ isEntryName_iff

/-- Unless it is too long, such a name is looked up among the entries. -/
theorem IsEntryName.isOrdinary (h : IsEntryName name) (hlong : isLongName name = false) :
    isOrdinary name = true := by
  simp [FileSystem.isOrdinary, h.ne_empty, h.ne_self, h.ne_parent, hlong]

/-! ## Trees -/

/-- The tree is one that a file system can hold: in each directory the names are different, and each is a
    name that an entry can have. -/
inductive Node.WellFormed : Node → Prop
  | file {bytes : List UInt8} : WellFormed (.file bytes)
  | link {target : Text} : WellFormed (.link target)
  | directory {entries : Entries} (distinct : (entries.map Prod.fst).Nodup)
      (names : ∀ e ∈ entries, IsEntryName e.1) (nodes : ∀ e ∈ entries, WellFormed e.2) :
      WellFormed (.directory entries)

theorem Entries.mem_of_get? (h : entries.get? name = some node) : (name, node) ∈ entries := by
  induction entries with
  | nil => cases h
  | cons e r ih =>
      obtain ⟨m, child⟩ := e
      by_cases hm : m = name
      · simp only [Entries.get?, if_pos hm, Option.some.injEq] at h
        rw [hm, h]
        exact List.mem_cons_self ..
      · simp only [Entries.get?, if_neg hm] at h
        exact List.mem_cons_of_mem _ (ih h)

/-- Where the names are different, an entry is what its name leads to. -/
theorem Entries.get?_eq_some_iff (hd : (entries.map Prod.fst).Nodup) :
    entries.get? name = some node ↔ (name, node) ∈ entries := by
  refine ⟨mem_of_get?, fun hmem => ?_⟩
  induction entries with
  | nil => cases hmem
  | cons e r ih =>
      obtain ⟨m, child⟩ := e
      obtain ⟨hm, hr⟩ := List.nodup_cons.1 hd
      rcases List.mem_cons.1 hmem with heq | hmem
      · cases heq
        simp [Entries.get?]
      · have hne : m ≠ name := by
          intro heq
          exact hm (List.mem_map.2 ⟨_, hmem, heq.symm⟩)
        simp only [Entries.get?, if_neg hne]
        exact ih hr hmem

namespace Node

/-- What stands in a well-formed tree is well formed. -/
theorem WellFormed.at? (h : top.WellFormed) (hl : top.at? l = some node) : node.WellFormed := by
  induction l generalizing top with
  | nil =>
      rw [at?_nil, Option.some.injEq] at hl
      exact hl ▸ h
  | cons name r ih =>
      cases h with
      | file => cases hl
      | link => cases hl
      | directory _ _ nodes =>
          rw [at?_directory_cons] at hl
          obtain ⟨child, hchild, hl⟩ := Option.bind_eq_some_iff.1 hl
          exact ih (nodes _ (Entries.mem_of_get? hchild)) hl

/-- A directory with no directory in it is well formed if its names are. -/
theorem WellFormed.flat (hd : (entries.map Prod.fst).Nodup) (hnames : ∀ e ∈ entries, IsEntryName e.1)
    (hflat : ∀ e ∈ entries, e.2.isDirectory = false) : (Node.directory entries).WellFormed := by
  refine .directory hd hnames ?_
  rintro ⟨name, node⟩ he
  cases node with
  | file => exact .file
  | link => exact .link
  | directory => cases hflat _ he

/-- A location in a well-formed tree has names that an entry can have. -/
theorem WellFormed.isEntryName (h : top.WellFormed) (hl : top.at? l = some node) (hname : name ∈ l) :
    IsEntryName name := by
  induction l generalizing top with
  | nil => cases hname
  | cons x r ih =>
      cases h with
      | file => cases hl
      | link => cases hl
      | directory _ names nodes =>
          rw [at?_directory_cons] at hl
          obtain ⟨child, hchild, hl⟩ := Option.bind_eq_some_iff.1 hl
          have hmem := Entries.mem_of_get? hchild
          rcases List.mem_cons.1 hname with rfl | hname
          · exact names _ hmem
          · exact ih (nodes _ hmem) hl hname

/-- In each directory of the tree, the names are different. -/
def Distinct (top : Node) : Prop :=
  ∀ (l : Location) (entries : Entries), top.at? l = some (.directory entries) → (entries.map Prod.fst).Nodup

theorem WellFormed.distinct (h : top.WellFormed) : top.Distinct := by
  intro l entries hl
  cases h.at? hl with
  | directory hd _ _ => exact hd

theorem Distinct.of_get? (h : (directory entries).Distinct) (hchild : entries.get? name = some node) :
    node.Distinct := by
  intro l sub hl
  apply h (name :: l) sub
  rw [at?_directory_cons, hchild]
  exact hl

/-- The names in a tree are different if they are at its top and below each of its entries. -/
theorem distinct_directory (hd : (entries.map Prod.fst).Nodup)
    (h : ∀ name node, entries.get? name = some node → node.Distinct) : (directory entries).Distinct := by
  intro l sub hl
  cases l with
  | nil =>
      rw [at?_nil, Option.some.injEq, directory.injEq] at hl
      exact hl ▸ hd
  | cons name r =>
      rw [at?_directory_cons] at hl
      obtain ⟨child, hchild, hl⟩ := Option.bind_eq_some_iff.1 hl
      exact h name child hchild r sub hl

theorem distinct_file (bytes : List UInt8) : (file bytes).Distinct := by
  intro l entries hl
  cases l <;> cases hl

/-! ## Induction -/

/-- What holds of files and links, and of a directory if it holds of its entries, holds of every node. -/
theorem induction {P : Node → Prop} (file : ∀ bytes, P (.file bytes)) (link : ∀ target, P (.link target))
    (directory : ∀ entries : Entries, (∀ e ∈ entries, P e.2) → P (.directory entries)) : ∀ node, P node
  | .file bytes => file bytes
  | .link target => link target
  | .directory entries => directory entries fun e _ => induction file link directory e.2
termination_by node => sizeOf node
decreasing_by
  rename_i he
  obtain ⟨name, child⟩ := e
  have hlt := List.sizeOf_lt_of_mem he
  simp only [Node.directory.sizeOf_spec, Prod.mk.sizeOf_spec] at hlt ⊢
  omega

end Node

end PolicyTable.FileSystem
