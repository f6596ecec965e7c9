import Mathlib.Data.List.Forall2
import Mathlib.Data.List.Sort
import PolicyTable.Proofs.FileSystem.Walk
import PolicyTable.Proofs.FileSystem.WellFormed
import PolicyTable.Proofs.Text.Order

/-!
# `PolicyTable.Proofs.FileSystem.Relisted` — one file system, listed in another order

The order of the entries of a directory is no part of what the directory is. Two trees that have the same files,
the same links and directories at the same locations are one file system for everything that goes by names.

## Contents
- **Trees.** `Node.Alike` by locations, and entry by entry (`Node.Alike.get?`); directories with the entries of
  each other are alike (`Node.alike_of_perm`).
- **Names in order.** `Entries.byName`; directories that are alike are alike entry by entry in this order
  (`Entries.byName_alike`).
- **Worlds.** `World.Alike`; a path finds the same in worlds that are alike (`World.Alike.sameLook`).
-/

namespace PolicyTable.FileSystem

variable {top top' node : Node} {entries entries' : Entries} {name : Name} {l : Location} {w w' : World}

/-! ## Trees -/

/-- What a node is, entries apart. -/
inductive Node.Kind
  | file (bytes : List UInt8)
  | link (target : Text)
  | directory

namespace Node

/-- The kind of a node. -/
def kind : Node → Kind
  | .file bytes => .file bytes
  | .link target => .link target
  | .directory _ => .directory

/-- The trees have nodes of the same kinds at the same locations. -/
def Alike (top top' : Node) : Prop := ∀ l, (top.at? l).map kind = (top'.at? l).map kind

namespace Alike

theorem symm (h : top.Alike top') : top'.Alike top := fun l => (h l).symm

/-- What stands at a location stands there in the other tree, with entries that are alike. -/
theorem at? (h : top.Alike top') (hl : top.at? l = some node) :
    ∃ node', top'.at? l = some node' ∧ node.Alike node' := by
  have hkind : (top'.at? l).map kind = some node.kind := by rw [← h l, hl, Option.map_some]
  obtain ⟨node', hl', _⟩ := Option.map_eq_some_iff.1 hkind
  refine ⟨node', hl', fun m => ?_⟩
  have hm := h (l ++ m)
  rwa [at?_append, at?_append, hl, hl'] at hm

theorem kind_eq (h : top.Alike top') : top.kind = top'.kind := by
  have hnil := h []
  rw [at?_nil, at?_nil] at hnil
  exact Option.some.inj hnil

theorem file {bytes : List UInt8} (h : (Node.file bytes).Alike top') : top' = .file bytes := by
  have hkind := h.kind_eq
  cases top' with
  | file => cases hkind; rfl
  | link => cases hkind
  | directory => cases hkind

theorem link {target : Text} (h : (Node.link target).Alike top') : top' = .link target := by
  have hkind := h.kind_eq
  cases top' with
  | file => cases hkind
  | link => cases hkind; rfl
  | directory => cases hkind

theorem directory (h : (Node.directory entries).Alike top') : ∃ entries', top' = .directory entries' := by
  have hkind := h.kind_eq
  cases top' with
  | file => cases hkind
  | link => cases hkind
  | directory entries' => exact ⟨entries', rfl⟩

/-- Directories that are alike have entries of the same names, which are alike. -/
theorem get? (h : (Node.directory entries).Alike (.directory entries')) (hn : entries.get? name = some node) :
    ∃ node', entries'.get? name = some node' ∧ node.Alike node' := by
  have hat : (Node.directory entries).at? [name] = some node := by
    rw [at?_directory_cons, hn, Option.bind_some, at?_nil]
  obtain ⟨node', hat', hnode⟩ := h.at? hat
  rw [at?_directory_cons] at hat'
  obtain ⟨child, hchild, heq⟩ := Option.bind_eq_some_iff.1 hat'
  rw [at?_nil, Option.some.injEq] at heq
  exact ⟨node', heq ▸ hchild, hnode⟩

end Alike

/-- The entries of a directory may be listed in any order. -/
theorem alike_of_perm (hd : (entries.map Prod.fst).Nodup) (h : entries.Perm entries') :
    (Node.directory entries).Alike (.directory entries') := by
  have hd' : (entries'.map Prod.fst).Nodup := (h.map Prod.fst).nodup_iff.1 hd
  have hget : ∀ name, entries.get? name = entries'.get? name := by
    intro name
    apply Option.ext
    intro node
    rw [Entries.get?_eq_some_iff hd, Entries.get?_eq_some_iff hd', h.mem_iff]
  rintro (_ | ⟨name, r⟩)
  · rfl
  · rw [at?_directory_cons, at?_directory_cons, hget]

end Node

/-! ## Names in order -/

namespace Entries

/-- The entries in the order of their names. -/
def byName (entries : Entries) : Entries := entries.mergeSort fun a b => Text.inOrder a.1 b.1

theorem byName_perm (entries : Entries) : entries.byName.Perm entries := List.mergeSort_perm ..

theorem mem_byName {e : Name × Node} : e ∈ entries.byName ↔ e ∈ entries := entries.byName_perm.mem_iff

theorem byName_pairwise (hd : (entries.map Prod.fst).Nodup) :
    entries.byName.Pairwise fun a b => Text.Before a.1 b.1 := by
  have hsorted : entries.byName.Pairwise fun a b => Text.inOrder a.1 b.1 = true := by
    apply List.pairwise_mergeSort
    · intro a b c hab hbc
      exact Text.inOrder_trans hab hbc
    · intro a b
      exact Text.inOrder_total
  have hne : (entries.byName.map Prod.fst).Nodup := (entries.byName_perm.map Prod.fst).nodup_iff.2 hd
  have hboth := hsorted.and (List.pairwise_map.1 hne)
  exact hboth.imp fun h => Text.before_of_inOrder h.1 h.2

theorem byName_eq_self (h : entries.Pairwise fun a b => Text.inOrder a.1 b.1 = true) : entries.byName = entries :=
  List.mergeSort_of_pairwise h

/-- Some of the entries stand in the same order as among all. -/
theorem byName_filter (hd : (entries.map Prod.fst).Nodup) (p : Name × Node → Bool) :
    byName (entries.filter p) = entries.byName.filter p := by
  have hd' : ((entries.filter p).map Prod.fst).Nodup := hd.sublist (List.filter_sublist.map _)
  refine List.Perm.eq_of_pairwise (fun a b _ _ hab hba => ?_) (byName_pairwise hd')
    ((byName_pairwise hd).filter p) ?_
  · exact absurd hba (asymm_of Text.Before hab)
  · exact (byName_perm _).trans (entries.byName_perm.symm.filter p)

theorem mem_map_fst_of_alike {name : Name} (h : (Node.directory entries).Alike (.directory entries'))
    (hd : (entries.map Prod.fst).Nodup) (hn : name ∈ entries.map Prod.fst) : name ∈ entries'.map Prod.fst := by
  obtain ⟨⟨_, node⟩, he, rfl⟩ := List.mem_map.1 hn
  obtain ⟨node', hnode', _⟩ := h.get? ((get?_eq_some_iff hd).2 he)
  exact List.mem_map.2 ⟨_, mem_of_get? hnode', rfl⟩

/-- In the order of the names, directories that are alike have entries that are alike one by one. -/
theorem byName_alike (h : (Node.directory entries).Alike (.directory entries'))
    (hd : (entries.map Prod.fst).Nodup) (hd' : (entries'.map Prod.fst).Nodup) :
    List.Forall₂ (fun e e' => e.1 = e'.1 ∧ e.2.Alike e'.2) entries.byName entries'.byName := by
  -- Both lists of names are strictly in order and have the same members.
  have hnames : entries.byName.map Prod.fst = entries'.byName.map Prod.fst := by
    refine @List.Pairwise.eq_of_mem_iff _ Text.Before _ _ _ _ (List.pairwise_map.2 (byName_pairwise hd))
      (List.pairwise_map.2 (byName_pairwise hd')) fun name => ?_
    rw [(entries.byName_perm.map _).mem_iff, (entries'.byName_perm.map _).mem_iff]
    exact ⟨mem_map_fst_of_alike h hd, mem_map_fst_of_alike h.symm hd'⟩
  have hpairs : List.Forall₂ (fun e e' => e.1 = e'.1) entries.byName entries'.byName := by
    have hsame : List.Forall₂ (· = ·) (entries.byName.map Prod.fst) (entries'.byName.map Prod.fst) := by
      rw [hnames]
      exact List.forall₂_refl _
    exact List.forall₂_map_right_iff.1 (List.forall₂_map_left_iff.1 hsame)
  refine List.forall₂_iff_zip.2 ⟨hpairs.length_eq, fun {e e'} hmem => ?_⟩
  obtain ⟨name, node⟩ := e
  obtain ⟨name', node'⟩ := e'
  obtain rfl : name = name' := List.forall₂_zip hpairs hmem
  obtain ⟨he, he'⟩ := List.of_mem_zip hmem
  obtain ⟨other, hother, halike⟩ := h.get? ((get?_eq_some_iff hd).2 (mem_byName.1 he))
  rw [(get?_eq_some_iff hd').2 (mem_byName.1 he')] at hother
  cases hother
  exact ⟨rfl, halike⟩

end Entries

/-! ## Worlds -/

/-- The landing in a tree, with the node that another tree has there. -/
def Landing.inTree (top' : Node) : Landing → Landing
  | .reached location _ => .reached location (top'.at? location)
  | .atLink directory target rest => .atLink directory target rest
  | .refused cause => .refused cause

/-- The descent at an ordinary name goes by the kind of the node of that name. -/
theorem descend_ordinary_alike {aim : Aim} {rest : List Name} (h : top.Alike top')
    (ho : isOrdinary name = true) (hf : ¬ (aim = .file ∧ rest = [emptyName]))
    (ih : ∀ l, descend top' aim l rest = (descend top aim l rest).inTree top') :
    descend top' aim l (name :: rest) = (descend top aim l (name :: rest)).inTree top' := by
  rw [descend_ordinary ho hf, descend_ordinary ho hf]
  cases hnode : top.at? (l ++ [name]) with
  | none =>
      have hnode' : top'.at? (l ++ [name]) = none := by
        rw [← Option.map_eq_none_iff, ← h (l ++ [name]), hnode, Option.map_none]
      rw [hnode']
      cases rest with
      | nil => exact congrArg (Landing.reached _) hnode'.symm
      | cons x r => rfl
  | some node =>
      obtain ⟨node', hnode', halike⟩ := h.at? hnode
      rw [hnode']
      cases node with
      | file bytes =>
          rw [halike.file] at hnode' ⊢
          cases rest with
          | nil => exact congrArg (Landing.reached _) hnode'.symm
          | cons x r => rfl
      | link target =>
          rw [halike.link] at hnode' ⊢
          show (if _ then _ else _) = Landing.inTree top' (if _ then _ else _)
          split
          · exact congrArg (Landing.reached _) hnode'.symm
          · rfl
      | directory entries =>
          obtain ⟨entries', rfl⟩ := halike.directory
          exact ih _

/-- A descent goes by the kinds of the nodes on its way. -/
theorem descend_alike (h : top.Alike top') (aim : Aim) (l : Location) (names : List Name) :
    descend top' aim l names = (descend top aim l names).inTree top' := by
  induction names generalizing l with
  | nil => rfl
  | cons name rest ih =>
      by_cases hp : name = parentName
      · subst hp
        rw [descend_parent, descend_parent]
        exact ih _
      by_cases hs : name = selfName ∨ name = emptyName
      · rw [descend_self hs, descend_self hs]
        exact ih _
      by_cases hf : aim = .file ∧ rest = [emptyName]
      · have hrefused : ∀ t, descend t aim l (name :: rest) = .refused .isDirectory := fun t => by
          rw [descend, if_neg hp, if_neg (by simpa using hs), if_pos (by simpa using hf)]
        rw [hrefused, hrefused]
        rfl
      by_cases hlong : isLongName name = true
      · have hrefused : ∀ t, descend t aim l (name :: rest) = .refused .nameTooLong := fun t => by
          rw [descend, if_neg hp, if_neg (by simpa using hs), if_neg (by simpa using hf), if_pos hlong]
        rw [hrefused, hrefused]
        rfl
      obtain ⟨hs, he⟩ := not_or.1 hs
      have ho : isOrdinary name = true := isOrdinary_iff.2 ⟨hp, hs, he, by simpa using hlong⟩
      exact descend_ordinary_alike h ho hf ih

/-- Resolution finds the same locations in trees that are alike. -/
theorem resolve_alike (h : top.Alike top') (aim : Aim) (links : Nat) (l : Location) (names : List Name) :
    resolve top' aim links l names =
      (resolve top aim links l names).map fun place => (place.1, top'.at? place.1) := by
  induction links generalizing l names with
  | zero =>
      rw [resolve, resolve, descend_alike h]
      cases descend top aim l names <;> rfl
  | succ links ih =>
      rw [resolve, resolve, descend_alike h]
      cases descend top aim l names with
      | reached location node? => rfl
      | refused cause => rfl
      | atLink directory target rest => exact ih _ _

/-- The worlds differ in the order of entries only. -/
structure World.Alike (w w' : World) : Prop where
  top : w.top.Alike w'.top
  here : w.here = w'.here
  unlistable : w.unlistable = w'.unlistable

/-- What two looks find that are of one path in two worlds. -/
inductive SameLook : Except Fault (Option Node) → Except Fault (Option Node) → Prop
  | refused {fault : Fault} : SameLook (.error fault) (.error fault)
  | nothing : SameLook (.ok none) (.ok none)
  | found {node node' : Node} (alike : node.Alike node') : SameLook (.ok (some node)) (.ok (some node'))

/-- **A look finds nodes that are alike in worlds that are alike**, nothing in both, or is refused in both. -/
theorem World.Alike.sameLook (h : w.Alike w') (aim : Aim) (p : Path) :
    SameLook (w.probe aim p) (w'.probe aim p) := by
  unfold World.probe World.locate
  rw [← h.here]
  split_ifs with hnul hlong
  · exact .nothing
  · exact .refused
  · rw [resolve_alike h.top]
    cases hplace : resolve w.top aim linkLimit (p.anchor.location w.here) p.parts with
    | error cause =>
        show SameLook (if _ then _ else _) (if _ then _ else _)
        split
        · exact .nothing
        · exact .refused
    | ok place =>
        obtain ⟨m, node?⟩ := place
        obtain ⟨rfl, _⟩ := leads_of_resolve hplace
        show SameLook (.ok (w.top.at? m)) (.ok (w'.top.at? m))
        cases hm : w.top.at? m with
        | none =>
            have hm' : w'.top.at? m = none := by
              rw [← Option.map_eq_none_iff, ← h.top m, hm, Option.map_none]
            rw [hm']
            exact .nothing
        | some node =>
            obtain ⟨node', hm', halike⟩ := h.top.at? hm
            rw [hm']
            exact .found halike

end PolicyTable.FileSystem
