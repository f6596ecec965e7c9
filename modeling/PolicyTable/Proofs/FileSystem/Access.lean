import PolicyTable.FileSystem.Access
import PolicyTable.Proofs.FileSystem.Walk
import PolicyTable.Proofs.Text.Pieces

/-!
# `PolicyTable.Proofs.FileSystem.Access` — what writing and renaming do at the end of a way

The operations on files are told here by the last name of a path and the place that the names before it lead
to (`World.Names`). Two paths that differ in the last name alone lead to entries of one place, also after a
file has been put somewhere in the tree.

## Contents
- **Last names.** How a way takes the last name of a path.
- **Paths.** `World.Names`, and where the entry of such a path is (`World.Names.locate_entry`).
- **Writing.** `World.Names.store_spec`: a stored file keeps the tree, and there is something under its name.
- **Renaming.** What happens without a source.
- **Permission.** `World.Opens`, and what a write does (`World.write_cases`). A renaming or an unlinking succeeds if
  it is not refused and the tree admits it.
-/

namespace PolicyTable.FileSystem

open Node (HasDirectory HasLink Keeps)

variable {top : Node} {aim : Aim} {l m d : Location} {names rest : List Name} {name : Name} {n : Nat}

/-! ## Last names -/

/-- The name of a missing entry leads to where the entry would be. -/
theorem Leads.eq_of_missing (h : Leads top aim d [name] n m) (haim : aim ≠ .entry)
    (hpart : isPart name = true) (hp : name ≠ parentName) (hnone : top.at? (d ++ [name]) = none) :
    m = d ++ [name] := by
  obtain ⟨_, ⟨_, hm, _, _⟩ | ⟨⟨entries, hd⟩, _⟩ | ⟨target, _, hl, _, _⟩⟩ := h.cases_part haim hpart hp
  · exact hm
  · rw [hnone] at hd
    cases hd
  · rw [hnone] at hl
    cases hl

/-- A way over links that starts at a directory does not end at a link. -/
theorem Leads.not_hasLink (h : Leads top aim l names n m) (haim : aim ≠ .entry)
    (hl : top.HasDirectory l) : ¬ top.HasLink m := by
  obtain ⟨e, left, hw, he⟩ := h
  cases he with
  | here => exact (hw.hasDirectory hl).not_hasLink
  | entry _ _ hlink => exact hlink haim

/-! ## Paths -/

/-- A text put behind the last name of a path stands at the end of the text of the path. -/
theorem Path.text_concat_append (anchor : Anchor) (front : List Name) (last more : Name) :
    (Path.mk anchor (front ++ [last ++ more])).text =
      (Path.mk anchor (front ++ [last])).text ++ more := by
  have htext : ∀ x, (Path.mk anchor (front ++ [x])).text =
      anchor.text ++ List.intercalate ['/'] (front ++ [x]) := by
    intro x
    obtain ⟨y, ys, hy⟩ := List.exists_cons_of_ne_nil (List.concat_ne_nil x front)
    rw [hy]
    cases anchor <;> rfl
  obtain ⟨lead, hlead⟩ := Text.exists_intercalate_concat ['/'] front
  rw [htext, htext, hlead, hlead]
  simp only [List.append_assoc]

namespace World

variable {w w' : World} {p : Path}

/-- The path names an entry of a place: the names before its last one lead to the place. -/
def Names (w : World) (p : Path) (d : Location) (name : Name) : Prop :=
  ∃ front n, p.parts = front ++ [name] ∧ n ≤ linkLimit ∧
    Walks w.top (p.anchor.location w.here) front n d []

/-- A tree that is kept keeps the places that paths name. -/
theorem Names.keeps (h : w.Names p d name) (hhere : w'.here = w.here) (hk : Keeps w.top w'.top) :
    w'.Names p d name := by
  obtain ⟨front, n, hparts, hn, hw⟩ := h
  refine ⟨front, n, hparts, hn, ?_⟩
  rw [hhere]
  exact hw.keeps hk

/-- Such a path is resolved from the place, with the links that are left. -/
theorem Names.locate_eq (h : w.Names p d name) (hlong : p.isLong = false) (hne : name ≠ emptyName) :
    ∃ links, ∀ aim, w.locate aim p = resolve w.top aim links d [name] := by
  obtain ⟨front, n, hparts, hn, hw⟩ := h
  -- The names before the last one take `n` of the links that are allowed.
  refine ⟨linkLimit - n, fun aim => ?_⟩
  have hresolve : resolve w.top aim (linkLimit - n + n) _ (front ++ [name]) =
      resolve w.top aim (linkLimit - n) d ([] ++ [name]) := hw.resolve_concat hne
  rw [Nat.sub_add_cancel hn] at hresolve
  rw [locate, hlong, hparts]
  exact hresolve

/-- **The entry that a path names is the entry of that name in the place.** -/
theorem Names.locate_entry (h : w.Names p d name) (hlong : p.isLong = false)
    (ho : isOrdinary name = true) :
    w.locate .entry p = .ok (d ++ [name], w.top.at? (d ++ [name])) := by
  obtain ⟨links, hlocate⟩ := h.locate_eq hlong (isOrdinary_iff.1 ho).2.2.1
  rw [hlocate, resolve_entry ho]

/-! ## Writing -/

/-- What a successful store does: it puts the file where resolution finds no directory. -/
theorem eq_of_store {bytes : List UInt8} (h : w.store p bytes = .ok w') :
    p.isLong = false ∧ ∃ m node?, w.locate .file p = .ok (m, node?) ∧
      (∀ entries, node? ≠ some (.directory entries)) ∧
        w' = { w with top := w.top.put m (.file bytes) } := by
  have hlong : p.isLong = false := by
    by_contra hne
    have htrue : p.isLong = true := by simpa using hne
    simp only [store, locate, htrue, if_true] at h
    split at h <;> cases h
  refine ⟨hlong, ?_⟩
  unfold store at h
  split at h
  · cases h
  · cases hplace : w.locate .file p with
    | error cause =>
        rw [hplace] at h
        cases h
    | ok place =>
        obtain ⟨m, node?⟩ := place
        rw [hplace] at h
        cases node? with
        | none =>
            cases h
            exact ⟨m, none, rfl, by simp, rfl⟩
        | some node =>
            cases node with
            | file old =>
                cases h
                exact ⟨m, _, rfl, by simp, rfl⟩
            | link target =>
                cases h
                exact ⟨m, _, rfl, by simp, rfl⟩
            | directory entries => cases h

/-- The way of a file to write ends where a file may be put, unless that is a directory. -/
theorem Names.leads_of_locate {m : Location} {node? : Option Node} (hnames : w.Names p d name)
    (hlong : p.isLong = false) (hpart : isPart name = true) (hplace : w.locate .file p = .ok (m, node?))
    (hnode : ∀ entries, node? ≠ some (.directory entries)) :
    node? = w.top.at? m ∧ (∃ n, Leads w.top .file d [name] n m) ∧ (w.top.HasDirectory d → w.top.Free m) := by
  have hne : name ≠ emptyName := by
    rintro rfl
    exact absurd hpart (by decide)
  obtain ⟨links, hlocate⟩ := hnames.locate_eq hlong hne
  rw [hlocate] at hplace
  obtain ⟨rfl, n, _, hleads⟩ := leads_of_resolve hplace
  -- A way over links does not end at a link, and a directory has been refused.
  refine ⟨rfl, ⟨n, hleads⟩, fun hd => Node.free_of_not ?_ (hleads.not_hasLink (by decide) hd)⟩
  rintro ⟨entries, hm⟩
  exact hnode entries hm

/-- **A stored file keeps the tree, and its path names an entry that is there.** Where there is no directory
    to put it in, nothing happens at all. -/
theorem Names.store_spec {bytes : List UInt8} (hnames : w.Names p d name)
    (hpart : isPart name = true) (hp : name ≠ parentName) (h : w.store p bytes = .ok w') :
    isOrdinary name = true ∧ w'.here = w.here ∧
      (¬ w.top.HasDirectory d ∧ w' = w ∨
        w.top.HasDirectory d ∧ Keeps w.top w'.top ∧ ∃ node, w'.top.at? (d ++ [name]) = some node) := by
  obtain ⟨hlong, m, node?, hplace, hnode, rfl⟩ := eq_of_store h
  obtain ⟨rfl, ⟨n, hleads⟩, hfree⟩ := hnames.leads_of_locate hlong hpart hplace hnode
  refine ⟨(hleads.cases_part (by decide) hpart hp).1, rfl, ?_⟩
  by_cases hd : w.top.HasDirectory d
  · right
    have hkeeps : Keeps w.top (w.top.put m (.file bytes)) := Node.keeps_put (hfree hd)
    refine ⟨hd, hkeeps, ?_⟩
    cases hold : w.top.at? (d ++ [name]) with
    | none =>
        rw [hleads.eq_of_missing (by decide) hpart hp hold]
        exact ⟨_, Node.at?_put_concat hd⟩
    | some old =>
        -- What was there is kept, also if it is a link and the file has gone elsewhere.
        exact hkeeps.at?_some hold
  · left
    have hnone := Node.at?_concat_of_not_hasDirectory (x := name) hd
    rw [hleads.eq_of_missing (by decide) hpart hp hnone,
      Node.put_concat_of_not_hasDirectory hd]
    exact ⟨hd, rfl⟩

/-! ## Renaming -/

variable {source target : Path}

/-- Without a source nothing is renamed. -/
theorem rename_missing {old : Location} (hsource : w.locate .entry source = .ok (old, none)) :
    w.rename source target = .error { cause := .notFound, path := source, target? := some target } := by
  simp only [rename, hsource]

theorem unlink_missing {old : Location} (hp : w.locate .entry p = .ok (old, none)) :
    w.unlink p = .error { cause := .notFound, path := p } := by
  simp only [unlink, hp]

/-! ## Permission -/

section Permission

variable {text : Text.CodePoints} {bytes : List UInt8}

/-- The system opens a file at the path if the tree admits it: the path has bytes, and opening is not refused. -/
structure Opens (w : World) (p : Path) : Prop where
  encodable : Text.Gap.find? w.lacks Char.toNat p.text = none
  hasNul_eq : p.hasNul = false
  admitted : w.refuses (.opening p) = none

/-- A text is written in full if it has bytes and writing them does not break off. -/
theorem content_eq_ok_iff :
    w.content p text = (bytes, .ok ()) ↔ text.encode = .ok bytes ∧ w.breaksOff p bytes = none := by
  constructor
  · intro h
    unfold content at h
    split at h
    · cases h
    · rename_i all hencode
      split at h
      · cases h
      · rename_i hbreaks
        cases h
        exact ⟨hencode, hbreaks⟩
  · rintro ⟨hencode, hbreaks⟩
    simp only [content, hencode, hbreaks]

/-- A file that is opened gets what has been written of the text. -/
theorem Opens.write_eq (h : w.Opens p) (hstore : w.store p (w.content p text).1 = .ok w') :
    w.write p text = (w', (w.content p text).2) := by
  simp only [write, h.encodable, h.hasNul_eq, h.admitted, hstore, Bool.false_eq_true, if_false]

/-- A text is written in part if it has no bytes, and then not at all, or if writing its bytes breaks off. -/
theorem content_eq_error {fault : WriteFault} (h : w.content p text = (bytes, .error fault)) :
    (∃ gap, text.encode = .error gap ∧ bytes = [] ∧ fault = .unencodable gap) ∨ ∃ cause, fault = .brokenOff cause := by
  unfold content at h
  split at h
  · rename_i gap hencode
    cases h
    exact .inl ⟨gap, hencode, rfl, rfl⟩
  · split at h
    · cases h
      exact .inr ⟨_, rfl⟩
    · cases h

/-- **A write stops before it has changed anything, or the file has been opened.** -/
theorem write_cases (w : World) (p : Path) (text : Text.CodePoints) :
    (∃ gap, Text.Gap.find? w.lacks Char.toNat p.text = some gap ∧ w.write p text = (w, .error (.unencodable gap))) ∨
      (Text.Gap.find? w.lacks Char.toNat p.text = none ∧ p.hasNul = true ∧
        w.write p text = (w, .error (.unopened .nulInPath))) ∨
      (∃ fault, w.write p text = (w, .error (.unopened (.refused fault)))) ∨
      w.Opens p ∧ ∃ w', w.store p (w.content p text).1 = .ok w' := by
  unfold write
  cases hgap : Text.Gap.find? w.lacks Char.toNat p.text with
  | some gap => exact .inl ⟨gap, rfl, rfl⟩
  | none =>
      cases hnul : p.hasNul with
      | true => exact .inr (.inl ⟨rfl, rfl, rfl⟩)
      | false =>
          right; right
          cases hrefused : w.refuses (.opening p) with
          | some cause => exact .inl ⟨_, rfl⟩
          | none =>
              cases hstore : w.store p (w.content p text).1 with
              | ok w' => exact .inr ⟨⟨hgap, hnul, hrefused⟩, w', rfl⟩
              | error fault =>
                  cases fault with
                  | refused fault => exact .inl ⟨fault, rfl⟩
                  | nulInPath =>
                      rw [store, if_neg (by simp [hnul])] at hstore
                      split at hstore <;> cases hstore

/-- **A write that succeeds has stored all of the text.** -/
theorem write_eq_ok_iff :
    w.write p text = (w', .ok ()) ↔
      w.Opens p ∧ ∃ bytes, w.content p text = (bytes, .ok ()) ∧ w.store p bytes = .ok w' := by
  constructor
  · intro h
    rcases w.write_cases p text with ⟨_, _, hstopped⟩ | ⟨_, _, hstopped⟩ | ⟨_, hstopped⟩ | ⟨hopens, w₁, hstore⟩
    · rw [hstopped] at h
      cases h
    · rw [hstopped] at h
      cases h
    · rw [hstopped] at h
      cases h
    · rw [hopens.write_eq hstore] at h
      obtain ⟨rfl, hall⟩ := Prod.mk.inj h
      exact ⟨hopens, _, Prod.ext rfl hall, hstore⟩
  · rintro ⟨hopens, bytes, hcontent, hstore⟩
    rw [hopens.write_eq (by rwa [hcontent]), hcontent]

theorem replace_eq_ok_iff :
    w.replace source target = .ok w' ↔
      w.refuses (.renaming source target) = none ∧ w.rename source target = .ok w' := by
  unfold replace
  cases w.refuses (.renaming source target) <;> simp

theorem discard_eq_ok_iff :
    w.discard p = .ok w' ↔ w.refuses (.unlinking p) = none ∧ w.unlink p = .ok w' := by
  unfold discard
  cases w.refuses (.unlinking p) <;> simp

end Permission

end World

end PolicyTable.FileSystem
