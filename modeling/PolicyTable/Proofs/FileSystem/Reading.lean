import PolicyTable.Proofs.FileSystem.Access
import PolicyTable.Proofs.FileSystem.Change

/-!
# `PolicyTable.Proofs.FileSystem.Reading` — what can be read after a change

What is read through a path is the file at the end of its way. So it is read again in every world in which the
way goes on as before and the file has the same bytes, whatever else is different there.

## Contents
- **Ways of paths.** `World.leads_of_locate`, and `World.Finds` for ways to nodes, with `World.probe_eq_some_iff` and
  `World.read_eq_ok_iff`.
- **Other worlds.** `World.Finds.to_file`, `World.Finds.keeps`, and `World.read_of_within` for a world with more in it.
- **Without links.** `Leads.of_linkless`: names lead where they say.
-/

namespace PolicyTable.FileSystem

open Node (HasDirectory HasLink Keeps Within)

variable {w w' : World} {p : Path} {top : Node} {node : Node} {aim : Aim} {d m m' : Location} {names : List Name}
  {bytes : List UInt8} {n : Nat}

namespace World

/-! ## Ways of paths -/

/-- The path leads to a location, over no more links than allowed. -/
def Finds (w : World) (p : Path) (m : Location) : Prop :=
  ∃ n, n ≤ linkLimit ∧ Leads w.top .node (p.anchor.location w.here) p.parts n m

theorem Finds.unique (h : w.Finds p m) (h' : w.Finds p m') : m = m' := by
  obtain ⟨_, _, h⟩ := h
  obtain ⟨_, _, h'⟩ := h'
  exact (h.unique h' (by decide)).2

theorem Finds.locate_eq (h : w.Finds p m) (hlong : p.isLong = false) :
    w.locate .node p = .ok (m, w.top.at? m) := by
  obtain ⟨n, hn, hleads⟩ := h
  rw [locate, if_neg (by simp [hlong]), hleads.resolve hn]

/-- What is located is at the end of a way. -/
theorem leads_of_locate {node? : Option Node} (h : w.locate aim p = .ok (m, node?)) :
    p.isLong = false ∧ node? = w.top.at? m ∧
      ∃ n, n ≤ linkLimit ∧ Leads w.top aim (p.anchor.location w.here) p.parts n m := by
  unfold locate at h
  split at h
  · cases h
  · rename_i hlong
    obtain ⟨hm, hleads⟩ := leads_of_resolve h
    exact ⟨by simpa using hlong, hm, hleads⟩

theorem locate_of_probe (h : w.probe aim p = .ok (some node)) :
    p.hasNul = false ∧ ∃ m, w.locate aim p = .ok (m, some node) := by
  unfold probe at h
  split at h
  · cases h
  · rename_i hnul
    split at h
    · rename_i m node? hplace
      cases h
      exact ⟨by simpa using hnul, m, hplace⟩
    · split at h <;> cases h

/-- **A look finds what stands at the end of the way.** -/
theorem probe_eq_some_iff :
    w.probe .node p = .ok (some node) ↔
      p.hasNul = false ∧ p.isLong = false ∧ ∃ m, w.Finds p m ∧ w.top.at? m = some node := by
  constructor
  · intro h
    obtain ⟨hnul, m, hplace⟩ := locate_of_probe h
    obtain ⟨hlong, hm, hleads⟩ := leads_of_locate hplace
    exact ⟨hnul, hlong, m, hleads, hm.symm⟩
  · rintro ⟨hnul, hlong, m, hfinds, hm⟩
    rw [probe, if_neg (by simp [hnul]), hfinds.locate_eq hlong, hm]

theorem read_eq_ok_iff : w.read p = .ok bytes ↔ w.probe .node p = .ok (some (.file bytes)) := by
  unfold read probe
  split
  · simp
  · rcases w.locate .node p with cause | ⟨m, _ | (_ | _ | _)⟩
    · by_cases hcause : meansNothing cause <;> simp [hcause]
    all_goals simp

/-! ## Other worlds -/

/-- A way is kept if the tree is kept and there is a file at its end, perhaps a new one. -/
theorem Finds.to_file (h : w.Finds p m) (hhere : w'.here = w.here) (hk : Keeps w.top w'.top)
    (hm : w'.top.at? m = some (.file bytes)) : w'.Finds p m := by
  obtain ⟨n, hn, d, left, hw, he⟩ := h
  refine ⟨n, hn, d, left, ?_, ?_⟩
  · rw [hhere]
    exact hw.keeps hk
  · cases he with
    | here => exact .here
    | @entry name ho _ _ =>
        refine .entry ho ?_ fun _ => ?_
        · rintro ⟨entries, hdir⟩
          rw [hm] at hdir
          cases hdir
        · rintro ⟨target, hlink⟩
          rw [hm] at hlink
          cases hlink

/-- A way to a file is kept if the tree is kept, since there still is a file. -/
theorem Finds.keeps (h : w.Finds p m) (hhere : w'.here = w.here) (hk : Keeps w.top w'.top)
    (hm : w.top.at? m = some (.file bytes)) : w'.Finds p m := by
  obtain ⟨bytes', hm'⟩ := hk.at?_file hm
  exact h.to_file hhere hk hm'

/-- What is read is read again if the tree is kept and the file has the same bytes. -/
theorem read_keeps (h : w.read p = .ok bytes) (hhere : w'.here = w.here) (hk : Keeps w.top w'.top)
    (hsame : ∀ m, w.Finds p m → w.top.at? m = some (.file bytes) → w'.top.at? m = some (.file bytes)) :
    w'.read p = .ok bytes := by
  rw [read_eq_ok_iff, probe_eq_some_iff] at h ⊢
  obtain ⟨hnul, hlong, m, hfinds, hm⟩ := h
  exact ⟨hnul, hlong, m, hfinds.keeps hhere hk hm, hsame m hfinds hm⟩

/-- **What is read is read again in a world with more in it.** -/
theorem read_of_within (h : w.read p = .ok bytes) (hhere : w'.here = w.here) (hin : Within w.top w'.top) :
    w'.read p = .ok bytes :=
  read_keeps h hhere hin.keeps fun _ _ hm => hin.at?_file hm

end World

/-! ## Without links -/

/-- In a tree without links, names lead where they say, and each of them is looked up. -/
theorem Leads.of_linkless (h : Leads top aim d names n m) (haim : aim ≠ .entry) (hlinks : ∀ l, ¬ top.HasLink l)
    (hnames : ∀ name ∈ names, IsEntryName name) : m = d ++ names ∧ ∀ name ∈ names, isOrdinary name = true := by
  induction names generalizing d n with
  | nil =>
      rw [h.eq_of_nil, List.append_nil]
      exact ⟨rfl, List.forall_mem_nil _⟩
  | cons name r ih =>
      obtain ⟨hname, hr⟩ := List.forall_mem_cons.1 hnames
      have hpart : isPart name = true := by
        by_contra hpart
        rcases isPart_eq_false (Bool.eq_false_iff.2 hpart) with rfl | rfl
        · exact hname.ne_self rfl
        · exact hname.ne_empty rfl
      obtain ⟨ho, ⟨rfl, hm, _, _⟩ | ⟨_, hrest⟩ | ⟨target, _, hlink, _, _⟩⟩ := h.cases_part haim hpart hname.ne_parent
      · exact ⟨hm, by simpa using ho⟩
      · obtain ⟨hm, hall⟩ := ih hrest hr
        rw [hm, List.append_assoc, List.singleton_append]
        exact ⟨rfl, List.forall_mem_cons.2 ⟨ho, hall⟩⟩
      · exact absurd ⟨target, hlink⟩ (hlinks _)

end PolicyTable.FileSystem
