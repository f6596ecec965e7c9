import PolicyTable.Proofs.Policy.Collection

/-!
# `PolicyTable.Proofs.Policy.FirstStop` — which of several hindrances stops the walk

A tree may have more than one directory that cannot be listed, and more than one entry that cannot be looked at.
The walk comes to the entries of a directory in the order of their names, and to a directory before what is in
it. So it is stopped by a hindrance that no other one stands before, name by name.

## Contents
- **Places of stops.** `StopsAt` is a hindrance with its names; `exists_stopsAt_iff` forgets the names, and
  `stopsAt_iff` goes entry by entry.
- **First stops.** `StopsFirst` says that a walk stops at one that none stands before; `StopsFirst.listing` puts
  the entries together.

Main statement: `collect_stopsFirst`.
-/

namespace PolicyTable.Policy

open FileSystem

variable {w : World} {s : Selection} {path root : Path} {d : Location} {entries : Entries} {name : Name}
  {node : Node} {names rest : List Name} {stop : Stop}

/-! ## Places of stops -/

/-- What can stop the walk through the directory at a path, with the names from there to the place of it. -/
inductive StopsAt (w : World) (path : Path) (dir : Node) : List Name → Stop → Prop
  | unlistable {front : List Name} (entered : Entered dir front)
      (listing : (path.below front).text ∈ w.unlistable) :
      StopsAt w path dir front (.failed (.collecting (path.below front)
        (.refused { cause := .permissionDenied, path := path.below front })))
  | refused {front : List Name} {name : Name} {node : Node} {fault : Fault} (entered : Entered dir front)
      (there : dir.at? (front ++ [name]) = some node)
      (look : w.probe .node (path.below (front ++ [name])) = .error fault) :
      StopsAt w path dir (front ++ [name]) (.crashed (.refused fault))

/-- The same at and below an entry. -/
def StopsAtEntry (w : World) (path : Path) (e : Name × Node) (rest : List Name) (stop : Stop) : Prop :=
  (rest = [] ∧ ∃ fault, w.probe .node (path.child e.1) = .error fault ∧ stop = .crashed (.refused fault)) ∨
    (e.1 ≠ skippedName ∧ StopsAt w (path.child e.1) e.2 rest stop)

theorem exists_stopsAt_iff : (∃ names, StopsAt w path node names stop) ↔ Hinders w path node stop := by
  constructor
  · rintro ⟨_, ⟨entered, listing⟩ | ⟨entered, there, look⟩⟩
    · exact .unlistable entered listing
    · exact .refused entered there look
  · rintro (⟨entered, listing⟩ | ⟨entered, there, look⟩)
    · exact ⟨_, .unlistable entered listing⟩
    · exact ⟨_, .refused entered there look⟩

/-- The places of stops in a directory are the directory itself and those of its entries. -/
theorem stopsAt_iff (hd : (entries.map Prod.fst).Nodup) :
    StopsAt w path (.directory entries) names stop ↔
      (names = [] ∧ path.text ∈ w.unlistable ∧
        stop = .failed (.collecting path (.refused { cause := .permissionDenied, path }))) ∨
      ∃ e ∈ entries, ∃ rest, names = e.1 :: rest ∧ StopsAtEntry w path e rest stop := by
  constructor
  · rintro (@⟨front, hentered, hlisting⟩ | @⟨front, last, node, fault, hentered, hnode, hlook⟩)
    · cases names with
      | nil => exact .inl ⟨rfl, path.below_nil ▸ hlisting, by rw [Path.below_nil]⟩
      | cons x r =>
          obtain ⟨hx, child, hchild, hentered⟩ := entered_cons_iff.1 hentered
          rw [Path.below_cons] at hlisting ⊢
          exact .inr ⟨(x, child), (Entries.get?_eq_some_iff hd).1 hchild, r, rfl,
            .inr ⟨hx, .unlistable hentered hlisting⟩⟩
    · cases front with
      | nil =>
          obtain ⟨child, hchild, _⟩ := at?_cons_iff.1 hnode
          exact .inr ⟨(last, child), (Entries.get?_eq_some_iff hd).1 hchild, [], rfl,
            .inl ⟨rfl, fault, hlook, rfl⟩⟩
      | cons x r =>
          obtain ⟨hx, child, hchild, hentered⟩ := entered_cons_iff.1 hentered
          obtain ⟨child', hchild', hnode⟩ := at?_cons_iff.1 hnode
          obtain rfl : child = child' := Option.some.inj (hchild.symm.trans hchild')
          rw [List.cons_append, Path.below_cons] at hlook
          exact .inr ⟨(x, child), (Entries.get?_eq_some_iff hd).1 hchild, r ++ [last], rfl,
            .inr ⟨hx, .refused hentered hnode hlook⟩⟩
  · rintro (⟨rfl, hlisting, rfl⟩ | ⟨⟨x, child⟩, hmem, rest, rfl, ⟨rfl, fault, hlook, rfl⟩ | ⟨hx, hbelow⟩⟩)
    · have h := @StopsAt.unlistable w path (.directory entries) [] entered_nil
      rw [Path.below_nil] at h
      exact h hlisting
    · have hchild := (Entries.get?_eq_some_iff hd).2 hmem
      exact @StopsAt.refused w path _ [] x child fault entered_nil
        (at?_cons_iff.2 ⟨child, hchild, Node.at?_nil _⟩) hlook
    · have hchild := (Entries.get?_eq_some_iff hd).2 hmem
      rcases hbelow with @⟨front, hentered, hlisting⟩ | @⟨front, last, node, fault, hentered, hnode, hlook⟩
      · rw [← Path.below_cons] at hlisting ⊢
        exact .unlistable (entered_cons_iff.2 ⟨hx, child, hchild, hentered⟩) hlisting
      · rw [← Path.below_cons] at hlook
        exact @StopsAt.refused w path _ (x :: front) last node fault
          (entered_cons_iff.2 ⟨hx, child, hchild, hentered⟩) (at?_cons_iff.2 ⟨child, hchild, hnode⟩) hlook

/-! ## First stops -/

/-- The walk stops at one of the places that no other one stands before, and it stops if there is any. -/
def StopsFirst (S : List Name → Stop → Prop) : Except Stop (List Path) → Prop
  | .ok _ => ∀ names stop, ¬ S names stop
  | .error stop => ∃ names, S names stop ∧ ∀ names' stop', S names' stop' → ¬ NamesBefore names' names

namespace StopsFirst

variable {S T : List Name → Stop → Prop} {result : Except Stop (List Path)}

theorem congr (h : StopsFirst S result) (hST : ∀ names stop, S names stop ↔ T names stop) :
    StopsFirst T result := by
  cases result with
  | ok files => exact fun names stop hT => h names stop ((hST names stop).2 hT)
  | error stop =>
      obtain ⟨names, hS, hfirst⟩ := h
      exact ⟨names, (hST names stop).1 hS, fun names' stop' hT => hfirst names' stop' ((hST _ _).2 hT)⟩

/-- **The first stop of a directory is that of the first entry with one.** -/
theorem listing {S : Name × Node → List Name → Stop → Prop} (hd : (entries.map Prod.fst).Nodup)
    (h : ∀ e ∈ entries, StopsFirst (S e) (collectEntry w s path e)) :
    StopsFirst (fun names stop => ∃ e ∈ entries, ∃ rest, names = e.1 :: rest ∧ S e rest stop)
      (inNameOrder (collectEach w s path entries)) := by
  rw [listing_eq]
  cases hresult : entries.byName.mapM (collectEntry w s path) with
  | ok lists =>
      rintro names stop ⟨e, hmem, rest, rfl, hS⟩
      obtain ⟨files, _, he⟩ := exists_of_mapM_eq_ok hresult (Entries.mem_byName.2 hmem)
      have hnone := h e hmem
      rw [he] at hnone
      exact hnone rest stop hS
  | error stop =>
      obtain ⟨before, e, after, hsplit, hbefore, he⟩ := mapM_eq_error_iff.1 hresult
      have hmem : e ∈ entries := Entries.mem_byName.1 (hsplit ▸ List.mem_append_right _ List.mem_cons_self)
      have hfirst := h e hmem
      rw [he] at hfirst
      obtain ⟨rest, hS, hfirst⟩ := hfirst
      refine ⟨e.1 :: rest, ⟨e, hmem, rest, rfl, hS⟩, ?_⟩
      rintro _ stop' ⟨e', hmem', rest', rfl, hS'⟩ hlt
      have hsorted := Entries.byName_pairwise hd
      rw [hsplit] at hsorted
      have hin : e' ∈ before ++ e :: after := hsplit ▸ Entries.mem_byName.2 hmem'
      rcases List.mem_append.1 hin with hin | hin
      · -- The entries before give their files, so nothing stops the walk there.
        obtain ⟨files, hfiles⟩ := hbefore e' hin
        have hnone := h e' hmem'
        rw [hfiles] at hnone
        exact hnone rest' stop' hS'
      · rcases List.mem_cons.1 hin with rfl | hin
        · rcases namesBefore_cons_iff.1 hlt with hlt | ⟨_, hlt⟩
          · exact irrefl_of Text.Before _ hlt
          · exact hfirst rest' stop' hS' hlt
        · have hlater := (List.pairwise_cons.1 (List.pairwise_append.1 hsorted).2.1).1 e' hin
          rcases namesBefore_cons_iff.1 hlt with hlt | ⟨heq, _⟩
          · exact asymm_of Text.Before hlater hlt
          · exact irrefl_of Text.Before _ (heq ▸ hlater)

end StopsFirst

/-! ## Walk -/

/-- Nothing is below an entry that is no directory. -/
theorem stopsAtEntry_iff_of_isDirectory_eq_false (h : node.isDirectory = false) :
    StopsAtEntry w path (name, node) rest stop ↔
      rest = [] ∧ ∃ fault, w.probe .node (path.child name) = .error fault ∧ stop = .crashed (.refused fault) := by
  refine or_iff_left ?_
  rintro ⟨_, hbelow⟩
  obtain ⟨entries, rfl⟩ := (exists_stopsAt_iff.1 ⟨_, hbelow⟩).exists_entries
  cases h

/-- An entry that cannot be looked at stops the walk before anything below it does. -/
theorem stopsFirst_of_refused {fault : Fault} (hlook : w.probe .node (path.child name) = .error fault) :
    StopsFirst (StopsAtEntry w path (name, node)) (.error (.crashed (.refused fault))) :=
  ⟨[], .inl ⟨rfl, fault, hlook, rfl⟩, fun names' _ _ => not_namesBefore_nil names'⟩

/-- An entry that can be looked at and is no directory does not stop the walk. -/
theorem stopsFirst_of_isDirectory_eq_false {node? : Option Node} {files : List Path}
    (h : node.isDirectory = false) (hlook : w.probe .node (path.child name) = .ok node?) :
    StopsFirst (StopsAtEntry w path (name, node)) (.ok files) := by
  intro rest stop hstop
  obtain ⟨_, fault, hfault, _⟩ := (stopsAtEntry_iff_of_isDirectory_eq_false h).1 hstop
  rw [hlook] at hfault
  cases hfault

/-- **An entry stops the walk at its first place**, if a directory does. -/
theorem collectEntry_stopsFirst (h : w.Reaches path d) (hname : IsEntryName name)
    (hnode : w.top.at? (d ++ [name]) = some node)
    (hdir : ∀ entries, node = .directory entries → w.Reaches (path.child name) (d ++ [name]) →
      StopsFirst (StopsAt w (path.child name) node)
        (listed w (path.child name) (collectEach w s (path.child name) entries))) :
    StopsFirst (StopsAtEntry w path (name, node)) (collectEntry w s path (name, node)) := by
  cases node with
  | file bytes =>
      have hlook := h.probe_child hname hnode rfl
      rw [collectEntry, isOverlong]
      by_cases hlong : ((path.child name).isLong || isLongName name) = true
      · rw [if_pos hlong] at hlook ⊢
        exact stopsFirst_of_refused hlook
      · rw [if_neg hlong] at hlook ⊢
        exact stopsFirst_of_isDirectory_eq_false rfl hlook
  | link target =>
      rw [collectEntry]
      cases hlook : w.probe .node (path.child name) with
      | error fault => exact stopsFirst_of_refused hlook
      | ok node? =>
          rcases node? with _ | (_ | _ | _)
          all_goals exact stopsFirst_of_isDirectory_eq_false rfl hlook
  | directory entries =>
      have hlook := h.probe_child hname hnode rfl
      rw [collectEntry, isOverlong]
      split_ifs at hlook ⊢ with hlong hskip
      · exact stopsFirst_of_refused hlook
      · rintro rest stop (⟨_, fault, hfault, _⟩ | ⟨hne, _⟩)
        · rw [hlook] at hfault
          cases hfault
        · exact hne hskip
      · have hlong' : isLongName name = false := by simp_all
        have hreaches := h.child (hname.isOrdinary hlong') hname.no_nul ⟨entries, hnode⟩
        refine (hdir entries rfl hreaches).congr fun rest stop => ⟨fun hbelow => .inr ⟨hskip, hbelow⟩, ?_⟩
        rintro (⟨_, fault, hfault, _⟩ | ⟨_, hbelow⟩)
        · rw [hlook] at hfault
          cases hfault
        · exact hbelow

/-- **A directory stops the walk at its first place.** -/
theorem listed_stopsFirst (w : World) (s : Selection) (node : Node) (path : Path) (d : Location)
    (entries : Entries) (heq : node = .directory entries) (h : w.Reaches path d)
    (hnode : w.top.at? d = some node) (hw : node.WellFormed) :
    StopsFirst (StopsAt w path node) (listed w path (collectEach w s path entries)) := by
  induction node using Node.induction generalizing path d entries with
  | file bytes => cases heq
  | link target => cases heq
  | directory sub ih =>
      cases heq
      cases hw with
      | directory hd hnames hnodes =>
          rw [listed]
          split_ifs with hlisting
          · have hlisting' : path.text ∈ w.unlistable := by simpa using hlisting
            exact ⟨[], (stopsAt_iff hd).2 (.inl ⟨rfl, hlisting', rfl⟩), fun names' _ _ =>
              not_namesBefore_nil names'⟩
          · have hentries : ∀ e ∈ sub, StopsFirst (StopsAtEntry w path e) (collectEntry w s path e) := by
              rintro ⟨name, child⟩ he
              have hchild : w.top.at? (d ++ [name]) = some child := by
                rw [Node.at?_append, hnode, Option.bind_some, Node.at?_directory_cons,
                  (Entries.get?_eq_some_iff hd).2 he, Option.bind_some, Node.at?_nil]
              exact collectEntry_stopsFirst h (hnames _ he) hchild fun _ hsub hreaches =>
                ih _ he _ _ _ hsub hreaches hchild (hnodes _ he)
            refine (StopsFirst.listing hd hentries).congr fun names stop => ?_
            rw [stopsAt_iff hd]
            refine (or_iff_right ?_).symm
            rintro ⟨_, hlisting', _⟩
            exact hlisting (by simpa using hlisting')

/-- **The walk is stopped by a hindrance that no other one stands before**, and it is stopped if there is
    any. -/
theorem collect_stopsFirst (hw : w.top.WellFormed) (hroot : w.probe .node root = .ok (some (.directory entries))) :
    StopsFirst (StopsAt w root (.directory entries)) (collect w s root) := by
  obtain ⟨d, hreaches, hd⟩ := World.exists_reaches hroot
  rw [collect, hroot]
  exact listed_stopsFirst w s _ root d entries rfl hreaches hd (hw.at? hd)

end PolicyTable.Policy
