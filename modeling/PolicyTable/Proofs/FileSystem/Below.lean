import PolicyTable.Proofs.FileSystem.Reading
import PolicyTable.Proofs.FileSystem.WellFormed

/-!
# `PolicyTable.Proofs.FileSystem.Below` — what a path finds below a directory

A path that leads to a directory can be lengthened by names of entries. As long as these are directories, the
longer path leads to the place that the names lead to in the tree; it follows the same links as before. What
it finds there is what the tree has there, unless the path or its last name is too long to be looked at.

## Contents
- **Paths.** `Path.below`, which makes no path shorter (`Path.isLong_below`), and `Path.hasNul` name by name.
- **Directories.** `World.Reaches`, a path leads to a directory; `Reaches.child` and `Reaches.below` lengthen it, and
  without links so does `Reaches.of_finds`.
- **Entries.** `Reaches.probe_child`, what a look at an entry that is no link finds.
-/

namespace PolicyTable.FileSystem

variable {w : World} {p : Path} {d : Location} {name : Name} {node : Node} {top : Node} {links : Nat}

/-! ## Paths -/

namespace Path

/-- The path with more names behind it. -/
def below (p : Path) (names : List Name) : Path := ⟨p.anchor, p.parts ++ names⟩

@[simp] theorem below_nil (p : Path) : p.below [] = p := by
  rw [below, List.append_nil]

theorem below_cons (p : Path) (name : Name) (names : List Name) :
    p.below (name :: names) = (p.child name).below names := by
  rw [below, below, child, List.append_assoc, List.singleton_append]

theorem below_concat (p : Path) (names : List Name) (name : Name) :
    p.below (names ++ [name]) = (p.below names).child name := by
  rw [below, below, child, List.append_assoc]

/-- A name behind a path with names stands behind a slash. -/
theorem text_child (hne : p.parts ≠ []) : (p.child name).text = p.text ++ ['/'] ++ name := by
  obtain ⟨anchor, parts⟩ := p
  obtain ⟨x, r, rfl⟩ := List.exists_cons_of_ne_nil hne
  cases anchor
  all_goals
    simp only [child, text, List.cons_append]
    rw [← List.cons_append, Text.intercalate_concat (by simp), List.append_assoc, List.append_assoc, List.append_assoc]

/-- More names do not make a path shorter. -/
theorem isLong_below {names more : List Name} (hne : names ≠ []) (h : (p.below (names ++ more)).isLong = false) :
    (p.below names).isLong = false := by
  induction more generalizing names with
  | nil => rwa [List.append_nil] at h
  | cons x r ih =>
      have hchild : (p.below (names ++ [x])).isLong = false := ih (by simp) (by rwa [List.append_assoc])
      rw [below_concat, isLong, text_child (by simp [below, hne]), Text.Utf8.encode_append, Text.Utf8.encode_append,
        List.length_append, List.length_append, decide_eq_false_iff_not] at hchild
      rw [isLong, decide_eq_false_iff_not]
      omega

/-- There is no NUL in a path if there is none in its names. -/
theorem hasNul_eq_false_iff : p.hasNul = false ↔ ∀ part ∈ p.parts, '\x00' ∉ part := by
  have hanchor : '\x00' ∉ p.anchor.text := by
    cases p.anchor <;> decide
  have htext : '\x00' ∈ p.text ↔ '\x00' ∈ List.intercalate ['/'] p.parts := by
    obtain ⟨anchor, parts⟩ := p
    unfold text
    split
    · simp_all
    · rw [List.mem_append]
      exact or_iff_right hanchor
  have hcontains : p.hasNul = false ↔ '\x00' ∉ p.text := by simp [hasNul]
  rw [hcontains, htext]
  constructor
  · intro h part hpart hnul
    exact h (Text.mem_intercalate hpart hnul)
  · exact Text.not_mem_intercalate (by decide)

end Path

/-! ## Directories -/

/-- The path leads to the directory at a location, over no more links than allowed. -/
structure World.Reaches (w : World) (p : Path) (d : Location) : Prop where
  no_nul : ∀ part ∈ p.parts, '\x00' ∉ part
  walks : ∃ n, n ≤ linkLimit ∧ Walks w.top (p.anchor.location w.here) p.parts n d []

namespace World

/-- A directory that is looked at is at a location. -/
theorem exists_reaches {entries : Entries} (h : w.probe .node p = .ok (some (.directory entries))) :
    ∃ d, w.Reaches p d ∧ w.top.at? d = some (.directory entries) := by
  obtain ⟨hnul, _, d, ⟨n, hn, e, left, hw, he⟩, hd⟩ := probe_eq_some_iff.1 h
  cases he with
  | here => exact ⟨d, ⟨Path.hasNul_eq_false_iff.1 hnul, n, hn, hw⟩, hd⟩
  | entry _ hdir _ => exact absurd ⟨entries, hd⟩ hdir

namespace Reaches

/-- A path can be lengthened by the name of a directory. -/
theorem child (h : w.Reaches p d) (ho : isOrdinary name = true) (hnul : '\x00' ∉ name)
    (hd : w.top.HasDirectory (d ++ [name])) : w.Reaches (p.child name) (d ++ [name]) := by
  obtain ⟨hno, n, hn, hw⟩ := h
  refine ⟨?_, n, hn, ?_⟩
  · intro part hpart
    rcases List.mem_append.1 hpart with hpart | hpart
    · exact hno part hpart
    · rwa [List.mem_singleton.1 hpart]
  · have hhop : Hop w.top d [name] 0 (d ++ [name]) [] := .directory ho hd
    exact (hw.append [name]).trans hhop.walks

/-- A path can be lengthened by the names of directories. -/
theorem below {names : List Name} (h : w.Reaches p d) (hd : w.top.HasDirectory (d ++ names))
    (hnames : ∀ name ∈ names, isOrdinary name = true ∧ '\x00' ∉ name) : w.Reaches (p.below names) (d ++ names) := by
  induction names using List.reverseRecOn with
  | nil => rwa [Path.below_nil, List.append_nil]
  | append_singleton front last ih =>
      rw [← List.append_assoc] at hd ⊢
      rw [Path.below_concat]
      obtain ⟨ho, hnul⟩ := hnames last (by simp)
      exact (ih hd.of_concat fun name hname => hnames name (List.mem_append_left _ hname)).child ho hnul hd

theorem finds (h : w.Reaches p d) : w.Finds p d := by
  obtain ⟨n, hn, hw⟩ := h.walks
  exact ⟨n, hn, hw.leads⟩

/-- A look at the path finds what is at the location. -/
theorem at?_of_probe (h : w.Reaches p d) (hprobe : w.probe .node p = .ok (some node)) :
    w.top.at? d = some node := by
  obtain ⟨_, _, m, hfinds, hm⟩ := probe_eq_some_iff.1 hprobe
  rwa [hfinds.unique h.finds] at hm

/-- A path that can be looked at in one world can be looked at in another one, if it leads anywhere there. -/
theorem probe_of_probe {w' : World} {node' : Node} (h : w'.Reaches p d) (hprobe : w.probe .node p = .ok (some node))
    (hd : w'.top.at? d = some node') : w'.probe .node p = .ok (some node') := by
  obtain ⟨hnul, hlong, _⟩ := probe_eq_some_iff.1 hprobe
  exact probe_eq_some_iff.2 ⟨hnul, hlong, d, h.finds, hd⟩

/-- In a tree without links, names of entries behind the path lead where they say, and each is looked up. -/
theorem of_finds {names : List Name} {m : Location} (h : w.Reaches p d)
    (hfinds : w.Finds (p.below names) m) (hlinks : ∀ l, ¬ w.top.HasLink l)
    (hnames : ∀ name ∈ names, IsEntryName name) : m = d ++ names ∧ ∀ name ∈ names, isOrdinary name = true := by
  obtain ⟨_, _, hleads⟩ := hfinds
  obtain ⟨_, _, e, _, hfirst, hrest⟩ := hleads.split
  obtain ⟨_, _, hwalk⟩ := h.walks
  obtain ⟨_, rfl⟩ := hfirst.unique hwalk.leads (by decide)
  exact hrest.of_linkless (by decide) hlinks hnames

theorem names (h : w.Reaches p d) (name : Name) : w.Names (p.child name) d name := by
  obtain ⟨n, hn, hw⟩ := h.walks
  exact ⟨p.parts, n, rfl, hn, hw⟩

theorem hasNul_child (h : w.Reaches p d) (hnul : '\x00' ∉ name) : (p.child name).hasNul = false := by
  rw [Path.hasNul_eq_false_iff]
  intro part hpart
  rcases List.mem_append.1 hpart with hpart | hpart
  · exact h.no_nul part hpart
  · rwa [List.mem_singleton.1 hpart]

end Reaches

end World

/-! ## Entries -/

/-- The last name leads to the node of that name, if it is no link. -/
theorem resolve_node (ho : isOrdinary name = true) (hnode : top.at? (d ++ [name]) = some node)
    (hlink : node.isLink = false) : resolve top .node links d [name] = .ok (d ++ [name], some node) := by
  have hdescend : descend top .node d [name] = .reached (d ++ [name]) (some node) := by
    rw [descend_ordinary ho (by simp), hnode]
    cases node with
    | file bytes => rfl
    | link target => cases hlink
    | directory entries => exact congrArg _ hnode
  cases links with
  | zero => rw [resolve, hdescend]; rfl
  | succ links => rw [resolve, hdescend]; rfl

/-- A name that is too long is not looked up. -/
theorem resolve_longName (hname : IsEntryName name) (hlong : isLongName name = true) :
    resolve top .node links d [name] = .error .nameTooLong := by
  have hdescend : descend top .node d [name] = .refused .nameTooLong := by
    rw [descend, if_neg hname.ne_parent, if_neg (by simp [hname.ne_self, hname.ne_empty]),
      if_neg (by simp), if_pos hlong]
  cases links with
  | zero => rw [resolve, hdescend]; rfl
  | succ links => rw [resolve, hdescend]; rfl

/-- **A look at an entry finds what the tree has there**, unless it is refused for its length. -/
theorem World.Reaches.probe_child (h : w.Reaches p d) (hname : IsEntryName name)
    (hnode : w.top.at? (d ++ [name]) = some node) (hlink : node.isLink = false) :
    w.probe .node (p.child name) =
      if (p.child name).isLong || isLongName name then
        .error { cause := .nameTooLong, path := p.child name }
      else .ok (some node) := by
  have hnul : ¬ (p.child name).hasNul = true := by simp [h.hasNul_child hname.no_nul]
  rw [World.probe, if_neg hnul]
  cases hlong : (p.child name).isLong with
  | true =>
      rw [World.locate, if_pos hlong]
      rfl
  | false =>
      obtain ⟨links, hlocate⟩ := (h.names name).locate_eq hlong hname.ne_empty
      rw [hlocate]
      cases hlen : isLongName name with
      | true =>
          rw [resolve_longName hname hlen]
          rfl
      | false =>
          rw [resolve_node (hname.isOrdinary hlen) hnode hlink]
          rfl

end PolicyTable.FileSystem
