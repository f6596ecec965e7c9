import PolicyTable.Proofs.Policy.Listing

/-!
# `PolicyTable.Proofs.Policy.Collection` — which policy files the walk finds, and what stops it

A policy file is told by its names below the root alone: the names before the last one are those of
directories that the walk goes into, and the last one is the selected name of a file or of a link to a file. The
walk finds these files, each once, in the order of their names. Two things can stop it: a directory that
cannot be listed, which it reports, and an entry that cannot be looked at, which it does not expect. An entry is
one of those if its path is too long, or if it is a link and the way behind it has a name that is too long.

## Contents
- **Policy files.** `Entered`, `IsFile` and `IsPolicyFile`, and the same entry by entry (`isPolicyFile_iff`).
- **Hindrances.** `Hinders`, and the same entry by entry (`hinders_iff`).
- **Walk.** One entry (`collectEntry_answers`), one directory (`listed_answers`) and the whole
  (`collect_answers`).
- **Order of the listing.** `collect_alike`: another order of the entries makes no difference.

Main statement: `collect_listable`.
-/

namespace PolicyTable.Policy

open FileSystem
open FileSystem.Node (HasDirectory)

variable {w w' : World} {s : Selection} {path root : Path} {d : Location} {entries entries' : Entries}
  {name : Name} {node node' : Node} {names front rest : List Name} {stop : Stop}

/-! ## Policy files -/

/-- The names lead from a directory through directories, into none of which the walk does not go. -/
def Entered (dir : Node) (names : List Name) : Prop := dir.HasDirectory names ∧ skippedName ∉ names

/-- The node at a path is a file, or a link that leads to one. -/
inductive IsFile (w : World) (path : Path) : Node → Prop
  | file {bytes : List UInt8} : IsFile w path (.file bytes)
  | link {target : Text} {bytes : List UInt8} (leads : w.probe .node path = .ok (some (.file bytes))) :
      IsFile w path (.link target)

/-- The names lead from the directory at a path to a policy file. -/
def IsPolicyFile (w : World) (s : Selection) (path : Path) (dir : Node) (names : List Name) : Prop :=
  ∃ front name node, names = front ++ [name] ∧ Entered dir front ∧ dir.at? names = some node ∧
    IsFile w (path.below names) node ∧ s.selects name = true

/-- The same for names that begin with those of an entry. -/
def IsPolicyFileAt (w : World) (s : Selection) (path : Path) (e : Name × Node) (rest : List Name) : Prop :=
  (rest = [] ∧ IsFile w (path.child e.1) e.2 ∧ s.selects e.1 = true) ∨
    (e.1 ≠ skippedName ∧ IsPolicyFile w s (path.child e.1) e.2 rest)

theorem at?_cons_iff :
    (Node.directory entries).at? (name :: rest) = some node ↔
      ∃ child, entries.get? name = some child ∧ child.at? rest = some node := by
  rw [Node.at?_directory_cons, Option.bind_eq_some_iff]

theorem entered_nil : Entered (.directory entries) [] := ⟨⟨entries, rfl⟩, by simp⟩

theorem entered_cons_iff :
    Entered (.directory entries) (name :: rest) ↔
      name ≠ skippedName ∧ ∃ child, entries.get? name = some child ∧ Entered child rest := by
  simp only [Entered, HasDirectory, at?_cons_iff, List.mem_cons, not_or]
  constructor
  · rintro ⟨⟨sub, child, hchild, hsub⟩, hname, hrest⟩
    exact ⟨Ne.symm hname, child, hchild, ⟨sub, hsub⟩, hrest⟩
  · rintro ⟨hname, child, hchild, ⟨sub, hsub⟩, hrest⟩
    exact ⟨⟨sub, child, hchild, hsub⟩, Ne.symm hname, hrest⟩

theorem Entered.exists_entries (h : Entered node names) : ∃ entries, node = .directory entries := by
  obtain ⟨⟨sub, hsub⟩, _⟩ := h
  cases node with
  | directory entries => exact ⟨entries, rfl⟩
  | file bytes => cases names <;> cases hsub
  | link target => cases names <;> cases hsub

theorem IsPolicyFile.exists_entries (h : IsPolicyFile w s path node names) :
    ∃ entries, node = .directory entries := by
  obtain ⟨front, _, _, _, hentered, _⟩ := h
  exact hentered.exists_entries

/-- The policy files of a directory are those of its entries. -/
theorem isPolicyFile_iff (hd : (entries.map Prod.fst).Nodup) :
    IsPolicyFile w s path (.directory entries) names ↔
      ∃ e ∈ entries, ∃ rest, names = e.1 :: rest ∧ IsPolicyFileAt w s path e rest := by
  constructor
  · rintro ⟨front, last, node, rfl, hentered, hnode, hfile, hselects⟩
    cases front with
    | nil =>
        obtain ⟨child, hchild, hnode⟩ := at?_cons_iff.1 hnode
        rw [Node.at?_nil, Option.some.injEq] at hnode
        subst hnode
        exact ⟨(last, child), (Entries.get?_eq_some_iff hd).1 hchild, [], rfl, .inl ⟨rfl, hfile, hselects⟩⟩
    | cons x r =>
        obtain ⟨hx, child, hchild, hentered⟩ := entered_cons_iff.1 hentered
        obtain ⟨child', hchild', hnode⟩ := at?_cons_iff.1 hnode
        obtain rfl : child = child' := Option.some.inj (hchild.symm.trans hchild')
        rw [List.cons_append, Path.below_cons] at hfile
        exact ⟨(x, child), (Entries.get?_eq_some_iff hd).1 hchild, r ++ [last], rfl,
          .inr ⟨hx, r, last, node, rfl, hentered, hnode, hfile, hselects⟩⟩
  · rintro ⟨⟨x, child⟩, hmem, rest, rfl, hat⟩
    have hchild := (Entries.get?_eq_some_iff hd).2 hmem
    rcases hat with ⟨rfl, hfile, hselects⟩ | ⟨hx, front, last, node, rfl, hentered, hnode, hfile, hselects⟩
    · exact ⟨[], x, child, rfl, entered_nil, at?_cons_iff.2 ⟨child, hchild, Node.at?_nil _⟩, hfile, hselects⟩
    · rw [← Path.below_cons] at hfile
      exact ⟨x :: front, last, node, rfl, entered_cons_iff.2 ⟨hx, child, hchild, hentered⟩,
        at?_cons_iff.2 ⟨child, hchild, hnode⟩, hfile, hselects⟩

/-! ## Hindrances -/

/-- What can stop the walk through the directory at a path: a directory that cannot be listed, or an entry of one
    that cannot be looked at. -/
inductive Hinders (w : World) (path : Path) (dir : Node) : Stop → Prop
  | unlistable {front : List Name} (entered : Entered dir front)
      (listing : (path.below front).text ∈ w.unlistable) :
      Hinders w path dir (.failed (.collecting (path.below front)
        (.refused { cause := .permissionDenied, path := path.below front })))
  | refused {front : List Name} {name : Name} {node : Node} {fault : Fault} (entered : Entered dir front)
      (there : dir.at? (front ++ [name]) = some node)
      (look : w.probe .node (path.below (front ++ [name])) = .error fault) :
      Hinders w path dir (.crashed (.refused fault))

/-- The same at and below an entry. -/
def HindersAt (w : World) (path : Path) (e : Name × Node) (stop : Stop) : Prop :=
  (∃ fault, w.probe .node (path.child e.1) = .error fault ∧ stop = .crashed (.refused fault)) ∨
    (e.1 ≠ skippedName ∧ Hinders w (path.child e.1) e.2 stop)

theorem Hinders.exists_entries (h : Hinders w path node stop) : ∃ entries, node = .directory entries := by
  cases h with
  | unlistable entered => exact entered.exists_entries
  | refused entered => exact entered.exists_entries

/-- The walk through a directory is stopped by the directory itself or by an entry. -/
theorem hinders_iff (hd : (entries.map Prod.fst).Nodup) :
    Hinders w path (.directory entries) stop ↔
      (path.text ∈ w.unlistable ∧
        stop = .failed (.collecting path (.refused { cause := .permissionDenied, path }))) ∨
      ∃ e ∈ entries, HindersAt w path e stop := by
  constructor
  · rintro (@⟨front, hentered, hlisting⟩ | @⟨front, last, node, fault, hentered, hnode, hlook⟩)
    · cases front with
      | nil => exact .inl ⟨path.below_nil ▸ hlisting, by rw [Path.below_nil]⟩
      | cons x r =>
          obtain ⟨hx, child, hchild, hentered⟩ := entered_cons_iff.1 hentered
          rw [Path.below_cons] at hlisting ⊢
          exact .inr ⟨(x, child), (Entries.get?_eq_some_iff hd).1 hchild, .inr ⟨hx, .unlistable hentered hlisting⟩⟩
    · cases front with
      | nil =>
          obtain ⟨child, hchild, _⟩ := at?_cons_iff.1 hnode
          exact .inr ⟨(last, child), (Entries.get?_eq_some_iff hd).1 hchild, .inl ⟨fault, hlook, rfl⟩⟩
      | cons x r =>
          obtain ⟨hx, child, hchild, hentered⟩ := entered_cons_iff.1 hentered
          obtain ⟨child', hchild', hnode⟩ := at?_cons_iff.1 hnode
          obtain rfl : child = child' := Option.some.inj (hchild.symm.trans hchild')
          rw [List.cons_append, Path.below_cons] at hlook
          exact .inr ⟨(x, child), (Entries.get?_eq_some_iff hd).1 hchild,
            .inr ⟨hx, .refused hentered hnode hlook⟩⟩
  · rintro (⟨hlisting, rfl⟩ | ⟨⟨x, child⟩, hmem, ⟨fault, hlook, rfl⟩ | ⟨hx, hbelow⟩⟩)
    · have h := @Hinders.unlistable w path (.directory entries) [] entered_nil
      rw [Path.below_nil] at h
      exact h hlisting
    · have hchild := (Entries.get?_eq_some_iff hd).2 hmem
      exact @Hinders.refused w path _ [] x child fault entered_nil
        (at?_cons_iff.2 ⟨child, hchild, Node.at?_nil _⟩) hlook
    · have hchild := (Entries.get?_eq_some_iff hd).2 hmem
      rcases hbelow with @⟨front, hentered, hlisting⟩ | @⟨front, last, node, fault, hentered, hnode, hlook⟩
      · rw [← Path.below_cons] at hlisting ⊢
        exact .unlistable (entered_cons_iff.2 ⟨hx, child, hchild, hentered⟩) hlisting
      · rw [← Path.below_cons] at hlook
        exact @Hinders.refused w path _ (x :: front) last node fault
          (entered_cons_iff.2 ⟨hx, child, hchild, hentered⟩) (at?_cons_iff.2 ⟨child, hchild, hnode⟩) hlook

/-! ## Walk -/

/-- Nothing is below an entry that is no directory. -/
theorem hindersAt_iff_of_isDirectory_eq_false (h : node.isDirectory = false) :
    HindersAt w path (name, node) stop ↔
      ∃ fault, w.probe .node (path.child name) = .error fault ∧ stop = .crashed (.refused fault) := by
  refine or_iff_left ?_
  rintro ⟨_, hbelow⟩
  obtain ⟨entries, rfl⟩ := hbelow.exists_entries
  cases h

theorem isPolicyFileAt_iff_of_isDirectory_eq_false (h : node.isDirectory = false) :
    IsPolicyFileAt w s path (name, node) rest ↔
      rest = [] ∧ IsFile w (path.child name) node ∧ s.selects name = true := by
  refine or_iff_left ?_
  rintro ⟨_, hbelow⟩
  obtain ⟨entries, rfl⟩ := hbelow.exists_entries
  cases h

/-- What the walk gives for an entry that it can look at and that is no directory. -/
theorem answers_of_isDirectory_eq_false {node? : Option Node} (h : node.isDirectory = false)
    (hlook : w.probe .node (path.child name) = .ok node?) {files : List Path}
    (hfiles : ListsBelow (path.child name)
      (fun rest => rest = [] ∧ IsFile w (path.child name) node ∧ s.selects name = true) files) :
    Answers (path.child name) (IsPolicyFileAt w s path (name, node)) (HindersAt w path (name, node))
      (.ok files) := by
  refine ⟨hfiles.congr fun rest => (isPolicyFileAt_iff_of_isDirectory_eq_false h).symm, fun stop hstop => ?_⟩
  obtain ⟨fault, hfault, _⟩ := (hindersAt_iff_of_isDirectory_eq_false h).1 hstop
  rw [hlook] at hfault
  cases hfault

/-- The path of a file is given if its name is selected. -/
theorem listsBelow_selected (hfile : IsFile w path node) :
    ListsBelow path (fun rest => rest = [] ∧ IsFile w path node ∧ s.selects name = true)
      (if s.selects name then [path] else []) := by
  cases hselects : s.selects name with
  | true => exact .self fun rest => and_iff_left ⟨hfile, rfl⟩
  | false => exact .none fun rest h => Bool.false_ne_true h.2.2

/-- **An entry gives the policy files at and below it**, if a directory does. -/
theorem collectEntry_answers (h : w.Reaches path d) (hname : IsEntryName name)
    (hnode : w.top.at? (d ++ [name]) = some node)
    (hdir : ∀ entries, node = .directory entries → w.Reaches (path.child name) (d ++ [name]) →
      Answers (path.child name) (IsPolicyFile w s (path.child name) node) (Hinders w (path.child name) node)
        (listed w (path.child name) (collectEach w s (path.child name) entries))) :
    Answers (path.child name) (IsPolicyFileAt w s path (name, node)) (HindersAt w path (name, node))
      (collectEntry w s path (name, node)) := by
  cases node with
  | file bytes =>
      have hlook := h.probe_child hname hnode rfl
      rw [collectEntry, isOverlong]
      by_cases hlong : ((path.child name).isLong || isLongName name) = true
      · rw [if_pos hlong] at hlook ⊢
        exact .inl ⟨_, hlook, rfl⟩
      · rw [if_neg hlong] at hlook ⊢
        exact answers_of_isDirectory_eq_false rfl hlook (listsBelow_selected .file)
  | link target =>
      rw [collectEntry]
      cases hlook : w.probe .node (path.child name) with
      | error fault => exact .inl ⟨fault, hlook, rfl⟩
      | ok node? =>
          have hnone : (∀ bytes, node? ≠ some (.file bytes)) → ListsBelow (path.child name)
              (fun rest => rest = [] ∧ IsFile w (path.child name) (.link target) ∧ s.selects name = true) [] := by
            rintro hnot
            refine .none fun rest hrest => ?_
            obtain ⟨_, hfile, _⟩ := hrest
            cases hfile with
            | link leads =>
                rw [hlook] at leads
                exact hnot _ (Except.ok.inj leads)
          rcases node? with _ | (bytes | target' | entries)
          · exact answers_of_isDirectory_eq_false rfl hlook (hnone (by simp))
          · exact answers_of_isDirectory_eq_false rfl hlook (listsBelow_selected (.link hlook))
          · exact answers_of_isDirectory_eq_false rfl hlook (hnone (by simp))
          · exact answers_of_isDirectory_eq_false rfl hlook (hnone (by simp))
  | directory entries =>
      have hlook := h.probe_child hname hnode rfl
      have hnofile : ¬ IsFile w (path.child name) (.directory entries) := fun hfile => by cases hfile
      rw [collectEntry, isOverlong]
      split_ifs at hlook ⊢ with hlong hskip
      · exact .inl ⟨_, hlook, rfl⟩
      · -- The walk stays out of it, and so do both properties.
        refine ⟨.none fun rest hat => ?_, fun stop hstop => ?_⟩
        · rcases hat with ⟨_, hfile, _⟩ | ⟨hne, _⟩
          · exact hnofile hfile
          · exact hne hskip
        · rcases hstop with ⟨fault, hfault, _⟩ | ⟨hne, _⟩
          · rw [hlook] at hfault
            cases hfault
          · exact hne hskip
      · have hlong' : isLongName name = false := by simp_all
        have hreaches := h.child (hname.isOrdinary hlong') hname.no_nul ⟨entries, hnode⟩
        refine (hdir entries rfl hreaches).congr (fun rest => ?_) fun stop => ?_
        · refine ⟨fun hbelow => .inr ⟨hskip, hbelow⟩, fun hat => ?_⟩
          rcases hat with ⟨_, hfile, _⟩ | ⟨_, hbelow⟩
          · exact absurd hfile hnofile
          · exact hbelow
        · refine ⟨fun hbelow => .inr ⟨hskip, hbelow⟩, fun hat => ?_⟩
          rcases hat with ⟨fault, hfault, _⟩ | ⟨_, hbelow⟩
          · rw [hlook] at hfault
            cases hfault
          · exact hbelow

/-- **A directory gives the policy files below it.** -/
theorem listed_answers (w : World) (s : Selection) (node : Node) (path : Path) (d : Location) (entries : Entries)
    (heq : node = .directory entries) (h : w.Reaches path d) (hnode : w.top.at? d = some node)
    (hw : node.WellFormed) :
    Answers path (IsPolicyFile w s path node) (Hinders w path node)
      (listed w path (collectEach w s path entries)) := by
  -- The induction is on the tree; that the path leads to the place of the node is carried along.
  induction node using Node.induction generalizing path d entries with
  | file bytes => cases heq
  | link target => cases heq
  | directory sub ih =>
      cases heq
      cases hw with
      | directory hd hnames hnodes =>
          rw [listed]
          split_ifs with hlisting
          · have hlisting' : path.text ∈ w.unlistable := by simpa using hlisting
            exact (hinders_iff hd).2 (.inl ⟨hlisting', rfl⟩)
          · have hentries : ∀ e ∈ sub, Answers (path.child e.1) (IsPolicyFileAt w s path e)
                (HindersAt w path e) (collectEntry w s path e) := by
              rintro ⟨name, child⟩ he
              have hchild : w.top.at? (d ++ [name]) = some child := by
                rw [Node.at?_append, hnode, Option.bind_some, Node.at?_directory_cons,
                  (Entries.get?_eq_some_iff hd).2 he, Option.bind_some, Node.at?_nil]
              exact collectEntry_answers h (hnames _ he) hchild fun _ hsub hreaches =>
                ih _ he _ _ _ hsub hreaches hchild (hnodes _ he)
            refine (Answers.listing hd hentries).congr (fun names => (isPolicyFile_iff hd).symm) fun stop => ?_
            rw [hinders_iff hd]
            refine (or_iff_right ?_).symm
            rintro ⟨hlisting', _⟩
            exact hlisting (by simpa using hlisting')

/-- **The walk from a root gives the policy files below it.** -/
theorem collect_answers (hw : w.top.WellFormed) (hroot : w.probe .node root = .ok (some (.directory entries))) :
    Answers root (IsPolicyFile w s root (.directory entries)) (Hinders w root (.directory entries))
      (collect w s root) := by
  obtain ⟨d, hreaches, hd⟩ := World.exists_reaches hroot
  rw [collect, hroot]
  exact listed_answers w s _ root d entries rfl hreaches hd (hw.at? hd)

/-- What is collected is below a root that is a directory. -/
theorem exists_entries_of_collect {files : List Path} (h : collect w s root = .ok files) :
    ∃ entries, w.probe .node root = .ok (some (.directory entries)) := by
  rw [collect] at h
  split at h
  · cases h
  · cases h
  · rename_i entries hroot
    exact ⟨entries, hroot⟩
  · cases h

/-- The path of a file that is collected can be opened. -/
theorem hasNul_of_mem_collect {files : List Path} {file : Path} (hw : w.top.WellFormed)
    (h : collect w s root = .ok files) (hfile : file ∈ files) : file.hasNul = false := by
  obtain ⟨entries, hroot⟩ := exists_entries_of_collect h
  obtain ⟨d, hreaches, hd⟩ := World.exists_reaches hroot
  have hA := @collect_answers w s root entries hw hroot
  rw [h] at hA
  obtain ⟨⟨found, rfl, _, hfound⟩, _⟩ := hA
  obtain ⟨names, hnames, rfl⟩ := List.mem_map.1 hfile
  obtain ⟨_, _, node, _, _, hnode, _⟩ := (hfound names).1 hnames
  rw [Path.hasNul_eq_false_iff]
  intro part hpart
  rcases List.mem_append.1 hpart with hpart | hpart
  · exact hreaches.no_nul part hpart
  · exact ((hw.at? hd).isEntryName hnode hpart).no_nul

/-! ## Order of the listing -/

/-- A root whose entries are listed in the order of their names is walked in that order. -/
theorem collect_eq_of_sorted (hroot : w.probe .node root = .ok (some (.directory entries)))
    (hlist : root.text ∉ w.unlistable) (hsorted : entries.Pairwise fun a b => Text.inOrder a.1 b.1 = true) :
    collect w s root = (entries.mapM (collectEntry w s root)).map List.flatten := by
  have hlisted : ¬ w.unlistable.contains root.text = true := by simpa using hlist
  rw [collect, hroot]
  dsimp only
  rw [listed, if_neg hlisted, listing_eq, Entries.byName_eq_self hsorted]

/-- Directories that are alike give the same if their entries do. -/
theorem listed_alike (h : w.Alike w') (hw : (Node.directory entries).WellFormed)
    (hw' : (Node.directory entries').WellFormed) (halike : (Node.directory entries).Alike (.directory entries'))
    (hentries : ∀ e ∈ entries, ∀ e' ∈ entries', e.1 = e'.1 → e.2.Alike e'.2 →
      collectEntry w s path e = collectEntry w' s path e') :
    listed w path (collectEach w s path entries) = listed w' path (collectEach w' s path entries') := by
  cases hw with
  | directory hd _ _ =>
      cases hw' with
      | directory hd' _ _ =>
          have hpairs := Entries.byName_alike halike hd hd'
          have hsame : List.Forall₂ (fun e e' => collectEntry w s path e = collectEntry w' s path e')
              entries.byName entries'.byName := by
            refine List.forall₂_iff_zip.2 ⟨hpairs.length_eq, fun {e e'} hmem => ?_⟩
            obtain ⟨hname, hnode⟩ := List.forall₂_zip hpairs hmem
            obtain ⟨he, he'⟩ := List.of_mem_zip hmem
            exact hentries e (Entries.mem_byName.1 he) e' (Entries.mem_byName.1 he') hname hnode
          rw [listed, listed, h.unlistable, listing_eq, listing_eq, mapM_congr hsame]

theorem collectEntry_alike (h : w.Alike w') (s : Selection) (node node' : Node) (path : Path) (name : Name)
    (hw : node.WellFormed) (hw' : node'.WellFormed) (halike : node.Alike node') :
    collectEntry w s path (name, node) = collectEntry w' s path (name, node') := by
  induction node using Node.induction generalizing node' path name with
  | file bytes =>
      rw [halike.file, collectEntry, collectEntry]
  | link target =>
      rw [halike.link, collectEntry, collectEntry]
      have hlook := h.sameLook .node (path.child name)
      generalize w.probe .node (path.child name) = look at hlook ⊢
      generalize w'.probe .node (path.child name) = look' at hlook ⊢
      cases hlook with
      | refused => rfl
      | nothing => rfl
      | @found found found' halike' =>
          cases found with
          | file bytes => rw [halike'.file]
          | link target => rw [halike'.link]
          | directory sub =>
              obtain ⟨sub', rfl⟩ := halike'.directory
              rfl
  | directory sub ih =>
      -- The name decides alike in both, so that what is below is all that matters.
      obtain ⟨sub', rfl⟩ := halike.directory
      have hbelow := @listed_alike w w' s (path.child name) sub sub' h hw hw' halike ?_
      · rw [collectEntry, collectEntry]
        simp only [hbelow]
      · rintro ⟨x, child⟩ he ⟨x', child'⟩ he' rfl hchild
        cases hw with
        | directory _ _ hnodes =>
            cases hw' with
            | directory _ _ hnodes' => exact ih _ he _ _ _ (hnodes _ he) (hnodes' _ he') hchild

/-- **Worlds that differ in the order of entries have the same policy files.** -/
theorem collect_alike (h : w.Alike w') (hw : w.top.WellFormed) (hw' : w'.top.WellFormed) (s : Selection)
    (root : Path) : collect w s root = collect w' s root := by
  have hlook := h.sameLook .node root
  rw [collect, collect]
  generalize hroot : w.probe .node root = look at hlook ⊢
  generalize hroot' : w'.probe .node root = look' at hlook ⊢
  cases hlook with
  | refused => rfl
  | nothing => rfl
  | @found node node' halike =>
      cases node with
      | file bytes => rw [halike.file]
      | link target => rw [halike.link]
      | directory entries =>
          obtain ⟨entries', rfl⟩ := halike.directory
          obtain ⟨d, _, hd⟩ := World.exists_reaches hroot
          obtain ⟨d', _, hd'⟩ := World.exists_reaches hroot'
          have hwd := hw.at? hd
          have hwd' := hw'.at? hd'
          refine listed_alike h hwd hwd' halike ?_
          rintro ⟨x, child⟩ he ⟨x', child'⟩ he' rfl hchild
          cases hwd with
          | directory _ _ hnodes =>
              cases hwd' with
              | directory _ _ hnodes' => exact collectEntry_alike h s _ _ _ _ (hnodes _ he) (hnodes' _ he') hchild

/-! ## Main statement -/

/-- Every directory that the walk goes into can be listed. -/
def Listable (w : World) (root : Path) (dir : Node) : Prop :=
  ∀ names, Entered dir names → (root.below names).text ∉ w.unlistable

/-- Every entry that the walk comes to can be looked at. -/
def Viewable (w : World) (root : Path) (dir : Node) : Prop :=
  ∀ front name node, Entered dir front → dir.at? (front ++ [name]) = some node →
    ∃ node?, w.probe .node (root.below (front ++ [name])) = .ok node?

/-- **The policy files of a directory.** Where all directories on the walk can be listed, the walk from a root
    gives the policy files below it, each once and ordered name by name, if it can look at every entry; it
    crashes if it cannot look at one. The order in which the directories are listed makes no difference. -/
theorem collect_listable (hw : w.top.WellFormed) (hroot : w.probe .node root = .ok (some node))
    (hdir : node.isDirectory = true) (hlist : Listable w root node) :
    (Viewable w root node → ∃ files, collect w s root = .ok files ∧
      ListsBelow root (IsPolicyFile w s root node) files ∧ files.Nodup) ∧
    (¬ Viewable w root node → ∃ front name fault, Entered node front ∧ (node.at? (front ++ [name])).isSome ∧
      w.probe .node (root.below (front ++ [name])) = .error fault ∧
      collect w s root = .error (.crashed (.refused fault))) ∧
    ∀ w', w.Alike w' → w'.top.WellFormed → collect w' s root = collect w s root := by
  cases node with
  | file bytes => cases hdir
  | link target => cases hdir
  | directory entries =>
      have hA := @collect_answers w s root entries hw hroot
      refine ⟨fun hview => ?_, fun hview => ?_, fun w' h hw' => (collect_alike h hw hw' s root).symm⟩
      · cases hresult : collect w s root with
        | ok files =>
            rw [hresult] at hA
            exact ⟨files, rfl, hA.1, hA.1.nodup⟩
        | error stop =>
            rw [hresult] at hA
            cases hA with
            | unlistable entered listing => exact absurd listing (hlist _ entered)
            | refused entered there look =>
                obtain ⟨node?, hlook⟩ := hview _ _ _ entered there
                rw [hlook] at look
                cases look
      · cases hresult : collect w s root with
        | ok files =>
            rw [hresult] at hA
            refine absurd (fun front name node entered there => ?_) hview
            cases look : w.probe .node (root.below (front ++ [name])) with
            | ok node? => exact ⟨node?, rfl⟩
            | error fault => exact absurd (.refused entered there look) (hA.2 (.crashed (.refused fault)))
        | error stop =>
            rw [hresult] at hA
            cases hA with
            | unlistable entered listing => exact absurd listing (hlist _ entered)
            | @refused front name node fault entered there look =>
                exact ⟨front, name, fault, entered, by rw [there]; rfl, look, rfl⟩

/-- Directories and files side by side, a link to a file and a link to nothing. -/
def sampleEntries : Entries :=
  [(".git".toList, .directory [("x.rego".toList, .file [])]),
    ("a".toList, .directory [("z.rego".toList, .file [])]),
    ("a.rego".toList, .link "b.rego".toList),
    ("b.rego".toList, .file []),
    ("gone.rego".toList, .link "nowhere".toList)]

def sampleWorld : World where
  top := .directory sampleEntries
  here := []

/-- The same, listed the other way round. -/
def reversedWorld : World where
  top := .directory sampleEntries.reverse
  here := []

theorem wellFormed_sample : (Node.directory sampleEntries).WellFormed := by
  refine .directory (by decide) (by decide) ?_
  simp only [sampleEntries, List.forall_mem_cons, List.not_mem_nil, false_imp_iff, implies_true, and_true]
  exact ⟨.flat (by decide) (by decide) (by decide), .flat (by decide) (by decide) (by decide), .link, .file, .link⟩

theorem wellFormed_reversed : (Node.directory sampleEntries.reverse).WellFormed := by
  cases wellFormed_sample with
  | directory hd hnames hnodes =>
      refine .directory (by decide) (fun e he => ?_) fun e he => ?_
      · exact hnames e (List.mem_reverse.1 he)
      · exact hnodes e (List.mem_reverse.1 he)

theorem alike_reversed : sampleWorld.Alike reversedWorld :=
  ⟨Node.alike_of_perm (by decide) (List.reverse_perm _).symm, rfl, rfl⟩

/-- A file in a directory stands before a file whose name goes on behind that of the directory, which it would
    not in the order of the texts. -/
def sampleFiles : List Path := [.ofText "a/z.rego".toList, .ofText "a.rego".toList, .ofText "b.rego".toList]

theorem collect_listable_sample :
    Viewable sampleWorld (.ofText ".".toList) sampleWorld.top ∧
      collect sampleWorld Compiler.plain.policyFiles (.ofText ".".toList) = .ok sampleFiles ∧
      ListsBelow (.ofText ".".toList)
        (IsPolicyFile sampleWorld Compiler.plain.policyFiles (.ofText ".".toList) sampleWorld.top) sampleFiles ∧
      collect reversedWorld Compiler.plain.policyFiles (.ofText ".".toList) = .ok sampleFiles := by
  have hcollect : collect sampleWorld Compiler.plain.policyFiles (.ofText ".".toList) = .ok sampleFiles := by
    rw [@collect_eq_of_sorted _ _ _ sampleEntries rfl (by decide) (by decide)]
    decide +kernel
  have hlist : Listable sampleWorld (.ofText ".".toList) sampleWorld.top := fun _ _ hlisting => by cases hlisting
  obtain ⟨hfound, hcrash, hsame⟩ :=
    @collect_listable sampleWorld Compiler.plain.policyFiles _ _ wellFormed_sample rfl rfl hlist
  have hview : Viewable sampleWorld (.ofText ".".toList) sampleWorld.top := by
    by_contra hview
    obtain ⟨_, _, _, _, _, _, herror⟩ := hcrash hview
    rw [hcollect] at herror
    cases herror
  obtain ⟨files, hfiles, hlists, _⟩ := hfound hview
  obtain rfl : files = sampleFiles := Except.ok.inj (hfiles.symm.trans hcollect)
  exact ⟨hview, hcollect, hlists, (hsame _ alike_reversed wellFormed_reversed).trans hcollect⟩

/-- A policy file beside a link whose target is a name that is too long. -/
def overlongEntries : Entries :=
  [("a.rego".toList, .file []), ("b.rego".toList, .link (List.replicate 256 'x'))]

def overlongWorld : World where
  top := .directory overlongEntries
  here := []

/-- There the directory can be listed, but the walk crashes at the link and gives no policy file. -/
theorem collect_overlong :
    overlongWorld.top.WellFormed ∧
      overlongWorld.probe .node (.ofText ".".toList) = .ok (some overlongWorld.top) ∧
      Listable overlongWorld (.ofText ".".toList) overlongWorld.top ∧
      IsPolicyFile overlongWorld Compiler.plain.policyFiles (.ofText ".".toList) overlongWorld.top ["a.rego".toList] ∧
      collect overlongWorld Compiler.plain.policyFiles (.ofText ".".toList) =
        .error (.crashed (.refused { cause := .nameTooLong, path := .ofText "b.rego".toList })) := by
  refine ⟨.flat (by decide) (by decide) (by decide), rfl, fun _ _ hlisting => ?_, ?_, ?_⟩
  · cases hlisting
  · exact ⟨[], "a.rego".toList, .file [], rfl, entered_nil, rfl, .file, by decide +kernel⟩
  · rw [@collect_eq_of_sorted _ _ _ overlongEntries rfl (by decide) (by decide)]
    decide +kernel

end PolicyTable.Policy
