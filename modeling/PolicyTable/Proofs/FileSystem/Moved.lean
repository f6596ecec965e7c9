import PolicyTable.Proofs.FileSystem.Reading

/-!
# `PolicyTable.Proofs.FileSystem.Moved` — ways after an entry has been moved

A file is stored through an entry, perhaps over links, and the entry is then moved to another one of its directory.
The stored file is found through the moved entry again, since a way that starts at an entry does not come back to it.
There is one exception: the entry is a link, and its way goes through the other entry. After the move that entry is
the link itself, and its way has no end.

Through the rest of the tree, ways go on as before. So a file that is read afterwards is the stored one, or it was
read before and is not that of the other entry.

## Contents
- **Parts of ways.** `Leads.of_walks` and `Leads.of_aim`; a way through an entry follows all of its links
  (`Leads.le_of_first`) and ends where it ends (`Leads.eq_of_first`).
- **Moves.** `Moved`: two trees, one of which comes from the other in this manner.
- **Ways forth.** `Moved.leads_or_touches`: a way goes on as before until it comes to the other entry.
  `Moved.leads_of_file`, about ways to that.
- **The moved entry.** It leads to the stored file, or its way has no end (`Moved.target_cases`).
- **Ways back.** `Moved.of_leads`, about the files that are found afterwards.
-/

namespace PolicyTable.FileSystem

open Node (HasDirectory HasLink)

variable {top top' : Node} {aim aim' : Aim} {l m d s e : Location} {names left rest : List Name} {x y : Name}
  {bytes old : List UInt8} {k n links : Nat}

/-! ## Parts of ways -/

/-- The rest of a way behind some of its steps is a way. -/
theorem Leads.of_walks (h : Leads top aim l names n m) (hwalk : Walks top l names k d left) (haim : aim ≠ .entry) :
    ∃ n', n = n' + k ∧ Leads top aim d left n' m := by
  induction hwalk generalizing n with
  | refl => exact ⟨n, rfl, h⟩
  | head hop _ ih =>
      obtain ⟨n₁, rfl, hrest⟩ := h.of_hop hop haim
      obtain ⟨n₂, rfl, hlast⟩ := ih hrest
      exact ⟨n₂, by omega, hlast⟩

/-- What is looked for over links makes no difference to the way. -/
theorem Leads.of_aim (h : Leads top aim l names n m) (haim : aim ≠ .entry) : Leads top aim' l names n m := by
  obtain ⟨e, left, hwalk, hends⟩ := h
  refine ⟨e, left, hwalk, ?_⟩
  cases hends with
  | here => exact .here
  | entry ho hd hl => exact .entry ho hd fun _ => hl haim

/-- A way that begins with an entry follows all the links of the way of the entry. -/
theorem Leads.le_of_first (hentry : Leads top aim d [x] links s) (haim : aim ≠ .entry)
    (h : Leads top aim d (x :: rest) n m) : links ≤ n := by
  rw [← List.singleton_append] at h
  obtain ⟨n₁, n₂, e, rfl, hfirst, -⟩ := h.split
  obtain ⟨rfl, -⟩ := hentry.unique hfirst haim
  exact Nat.le_add_left ..

/-- It ends where the way of the entry ends, unless that is a directory. -/
theorem Leads.eq_of_first (hentry : Leads top aim d [x] links s) (haim : aim ≠ .entry)
    (h : Leads top aim d (x :: rest) n m) (hs : ¬ top.HasDirectory s) (hd : top.HasDirectory d) : m = s := by
  rcases eq_or_ne rest [] with rfl | hrest
  · exact (h.unique hentry haim).2
  · rw [← List.singleton_append] at h
    obtain ⟨n₁, n₂, e, rfl, hwalk, -⟩ := h.of_append hrest
    -- names come after the entry, so that there is a directory
    obtain ⟨-, rfl⟩ := hentry.unique hwalk.leads haim
    exact absurd (hwalk.hasDirectory hd) hs

/-! ## Moves -/

/-- From the first tree to the second one, some bytes have been stored through the entry `x` of a directory, over so
    many links at so far a location, and then the entry has been moved to the entry `y`. None of the three places was
    a directory. -/
structure Moved (top top' : Node) (d : Location) (x y : Name) (links : Nat) (s : Location)
    (bytes : List UInt8) : Prop where
  hasDirectory : top.HasDirectory d
  isOrdinary_source : isOrdinary x = true
  isOrdinary_target : isOrdinary y = true
  leads : Leads top .node d [x] links s
  source : ¬ top.HasDirectory (d ++ [x])
  stored : ¬ top.HasDirectory s
  target : ¬ top.HasDirectory (d ++ [y])
  elsewhere : ∀ l, l ≠ d ++ [x] → l ≠ d ++ [y] → l ≠ s → top'.kindAt? l = top.kindAt? l
  gone : top'.at? (d ++ [x]) = none
  file : s ≠ d ++ [x] → s ≠ d ++ [y] → top'.at? s = some (.file bytes)
  moved : s = d ++ [x] ∧ top'.at? (d ++ [y]) = some (.file bytes) ∨
    ∃ t, top.at? (d ++ [x]) = some (.link t) ∧ top'.at? (d ++ [y]) = some (.link t)

namespace Moved

variable (h : Moved top top' d x y links s bytes)

include h

theorem not_hasLink_stored : ¬ top.HasLink s := h.leads.not_hasLink (by decide) h.hasDirectory

/-- Nothing else becomes a directory, and no directory becomes anything else. -/
theorem hasDirectory_iff : top'.HasDirectory l ↔ top.HasDirectory l := by
  have hx : ¬ top'.HasDirectory (d ++ [x]) := by
    rintro ⟨entries, hl⟩
    rw [h.gone] at hl
    cases hl
  have hy : ¬ top'.HasDirectory (d ++ [y]) := by
    rintro ⟨entries, hl⟩
    rcases h.moved with ⟨-, hfile⟩ | ⟨t, -, hlink⟩
    · rw [hfile] at hl
      cases hl
    · rw [hlink] at hl
      cases hl
  by_cases hlx : l = d ++ [x]
  · exact hlx ▸ iff_of_false hx h.source
  by_cases hly : l = d ++ [y]
  · exact hly ▸ iff_of_false hy h.target
  by_cases hls : l = s
  · refine hls ▸ iff_of_false ?_ h.stored
    rintro ⟨entries, hl⟩
    rw [h.file (hls ▸ hlx) (hls ▸ hly)] at hl
    cases hl
  rw [← Node.kindAt?_eq_directory_iff, ← Node.kindAt?_eq_directory_iff, h.elsewhere l hlx hly hls]

/-- A link that is neither of the two entries stays. -/
theorem at?_link {t : Text} (hlx : l ≠ d ++ [x]) (hly : l ≠ d ++ [y]) (hl : top.at? l = some (.link t)) :
    top'.at? l = some (.link t) := by
  have hls : l ≠ s := fun heq => h.not_hasLink_stored (heq ▸ ⟨t, hl⟩)
  rw [← Node.kindAt?_eq_link_iff] at hl ⊢
  rw [h.elsewhere l hlx hly hls, hl]

/-- No other link is new. -/
theorem at?_of_link {t : Text} (hly : l ≠ d ++ [y]) (hl : top'.at? l = some (.link t)) :
    top.at? l = some (.link t) := by
  have hlx : l ≠ d ++ [x] := by
    rintro rfl
    rw [h.gone] at hl
    cases hl
  have hls : l ≠ s := by
    rintro rfl
    rw [h.file hlx hly] at hl
    cases hl
  rw [← Node.kindAt?_eq_link_iff] at hl ⊢
  rw [← h.elsewhere l hlx hly hls, hl]

/-- A file that is found is the stored one, or it was there. -/
theorem at?_file (hl : top'.at? l = some (.file old)) :
    old = bytes ∨ top.at? l = some (.file old) ∧ l ≠ d ++ [y] := by
  by_cases hly : l = d ++ [y]
  · subst hly
    rcases h.moved with ⟨-, hfile⟩ | ⟨t, -, hlink⟩
    · rw [hfile] at hl
      cases hl
      exact .inl rfl
    · rw [hlink] at hl
      cases hl
  have hlx : l ≠ d ++ [x] := by
    rintro rfl
    rw [h.gone] at hl
    cases hl
  by_cases hls : l = s
  · subst hls
    rw [h.file hlx hly] at hl
    cases hl
    exact .inl rfl
  · refine .inr ⟨?_, hly⟩
    rw [← Node.kindAt?_eq_file_iff] at hl ⊢
    rw [← h.elsewhere l hlx hly hls, hl]

/-! ## Ways forth -/

/-- **A way goes on as before until it comes to the other entry**, if it is shorter than that of the moved entry or
    leads elsewhere. It comes to the other entry only at its end or if that was a link. -/
theorem leads_or_touches (hway : Leads top .node l names n m) (hshort : n < links ∨ m ≠ s) :
    Leads top' .node l names n m ∨
      ∃ n' rest, n' ≤ n ∧ Walks top' l names n' d (y :: rest) ∧
        (top.HasLink (d ++ [y]) ∨ m = d ++ [y] ∧ rest = []) := by
  obtain ⟨e, left, hwalk, hends⟩ := hway
  induction hwalk with
  | @refl l names =>
      cases hends with
      | here => exact .inl ⟨_, _, .refl, .here⟩
      | @entry name ho hd hl =>
          by_cases hy : l ++ [name] = d ++ [y]
          · obtain ⟨rfl, hname⟩ := List.append_inj' hy rfl
            obtain rfl : name = y := by simpa using hname
            exact .inr ⟨0, [], Nat.le_refl 0, .refl, .inr ⟨rfl, rfl⟩⟩
          · refine .inl ⟨_, _, .refl, .entry ho (fun hd' => hd (h.hasDirectory_iff.1 hd')) fun haim => ?_⟩
            rintro ⟨t, ht⟩
            exact hl haim ⟨t, h.at?_of_link hy ht⟩
  | @head l m' _ names names' left k n hop hwalk ih =>
      have hrest := ih (hshort.imp_left (Nat.lt_of_le_of_lt (Nat.le_add_right ..))) hends
      -- the step is taken in the new tree as well, unless it follows one of the two entries
      have hstep (hop' : Hop top' l names k m' names') : Leads top' .node l names (n + k) m ∨
          ∃ n' rest, n' ≤ n + k ∧ Walks top' l names n' d (y :: rest) ∧
            (top.HasLink (d ++ [y]) ∨ m = d ++ [y] ∧ rest = []) := by
        rcases hrest with hrest | ⟨n', rest, hn, hrest, hlink⟩
        · exact .inl (hrest.head hop')
        · exact .inr ⟨n' + k, rest, Nat.add_le_add_right hn k, .head hop' hrest, hlink⟩
      cases hop with
      | parent => exact hstep .parent
      | self hn => exact hstep (.self hn)
      | directory ho hd => exact hstep (.directory ho (h.hasDirectory_iff.2 hd))
      | @link name t rest ho hlink =>
          by_cases hy : l ++ [name] = d ++ [y]
          · obtain ⟨rfl, hname⟩ := List.append_inj' hy rfl
            obtain rfl : name = y := by simpa using hname
            exact .inr ⟨0, rest, Nat.zero_le _, .refl, .inl ⟨t, hlink⟩⟩
          · refine hstep (.link ho (h.at?_link (fun hx => ?_) hy hlink))
            obtain ⟨rfl, hname⟩ := List.append_inj' hx rfl
            obtain rfl : name = x := by simpa using hname
            have hthrough : Leads top .node l (name :: rest) (n + 1) m := ⟨_, _, .head (.link ho hlink) hwalk, hends⟩
            rcases hshort with hshort | hm
            · exact absurd (h.leads.le_of_first (by decide) hthrough) (Nat.not_le.2 hshort)
            · exact hm (h.leads.eq_of_first (by decide) hthrough h.stored h.hasDirectory)

/-- A way to another place than the other entry goes on as before if that is no link. -/
theorem leads_of_not_hasLink (hlink : ¬ top.HasLink (d ++ [y])) (hway : Leads top .node l names n m)
    (hshort : n < links ∨ m ≠ s) (hm : m ≠ d ++ [y]) : Leads top' .node l names n m := by
  refine (h.leads_or_touches hway hshort).resolve_right ?_
  rintro ⟨_, _, _, _, hentry | ⟨hentry, _⟩⟩
  · exact hlink hentry
  · exact hm hentry

/-- A way to the other entry leads to the stored file, if that has been moved there. -/
theorem leads_of_file (hlink : ¬ top.HasLink (d ++ [y])) (hway : Leads top .node l names n (d ++ [y]))
    (hs : s ≠ d ++ [y]) (hfile : top'.at? (d ++ [y]) = some (.file bytes)) :
    ∃ n', n' ≤ n ∧ Leads top' .node l names n' (d ++ [y]) := by
  rcases h.leads_or_touches hway (.inr hs.symm) with hway' | ⟨n', rest, hn, hwalk, hentry | ⟨-, rfl⟩⟩
  · exact ⟨n, Nat.le_refl n, hway'⟩
  · exact absurd hentry hlink
  · refine ⟨n', hn, _, _, hwalk, .entry h.isOrdinary_target (fun hd => h.target (h.hasDirectory_iff.1 hd)) fun _ => ?_⟩
    rintro ⟨t, ht⟩
    rw [hfile] at ht
    cases ht

/-! ## The moved entry -/

/-- A way that comes back to its entry has no end. -/
theorem circular_of_walks {t : Text} (hy : top'.at? (d ++ [y]) = some (.link t))
    (hwalk : Walks top' ((Anchor.ofText t).location d) (targetParts t) k d (y :: rest)) :
    ¬ Leads top' .node d [y] n m := by
  intro hleads
  have hhop : Hop top' d [y] 1 ((Anchor.ofText t).location d) (targetParts t ++ []) := .link h.isOrdinary_target hy
  rw [List.append_nil] at hhop
  obtain ⟨n₁, rfl, hafter⟩ := hleads.of_hop hhop (by decide)
  obtain ⟨n₂, rfl, hback⟩ := hafter.of_walks hwalk (by decide)
  have hle := hleads.le_of_first (by decide) hback
  omega

/-- **The moved entry leads to the stored file**, or its way has no end. The latter is so only if the file has been
    stored at the other entry, or if that was a link. -/
theorem target_cases :
    (s ≠ d ++ [y] ∧ ∃ n m, n ≤ links ∧ Leads top' .node d [y] n m ∧ top'.at? m = some (.file bytes)) ∨
      (top.HasLink (d ++ [y]) ∨ s = d ++ [y]) ∧ ∀ n m, ¬ Leads top' .node d [y] n m := by
  rcases h.moved with ⟨hs, hfile⟩ | ⟨t, hx, hy⟩
  · refine .inl ⟨fun heq => ?_, 0, d ++ [y], Nat.zero_le _, ⟨d, [y], .refl, .entry h.isOrdinary_target ?_ fun _ => ?_⟩,
      hfile⟩
    · rw [← heq, hs, h.gone] at hfile
      cases hfile
    · exact fun hd => h.target (h.hasDirectory_iff.1 hd)
    · rintro ⟨t, hlink⟩
      rw [hfile] at hlink
      cases hlink
  · obtain ⟨n, hlinks, hway⟩ := h.leads.of_hop (.link h.isOrdinary_source hx) (by decide)
    rw [List.append_nil] at hway
    rcases h.leads_or_touches hway (.inl (by omega)) with hway' | ⟨n', rest, -, hwalk, htouches⟩
    · have hstart : top'.HasDirectory ((Anchor.ofText t).location d) := by
        have hd := h.hasDirectory_iff.2 h.hasDirectory
        rcases (Anchor.ofText t).location_cases d with hl | hl
        · rwa [hl]
        · rw [hl]
          exact hd.nil
      have hsy : s ≠ d ++ [y] := fun heq => hway'.not_hasLink (by decide) hstart (heq ▸ ⟨t, hy⟩)
      have hsx : s ≠ d ++ [x] := fun heq => h.not_hasLink_stored (heq ▸ ⟨t, hx⟩)
      have hhop : Hop top' d [y] 1 ((Anchor.ofText t).location d) (targetParts t ++ []) := .link h.isOrdinary_target hy
      rw [List.append_nil] at hhop
      exact .inl ⟨hsy, n + 1, s, hlinks.ge, hway'.head hhop, h.file hsx hsy⟩
    · exact .inr ⟨htouches.imp_right And.left, fun _ _ => h.circular_of_walks hy hwalk⟩

/-! ## Ways back -/

/-- **A file that is found afterwards is the stored one, or it was found before** and is not that of the other
    entry. -/
theorem of_leads (hway : Leads top' .node l names n m) (hm : top'.at? m = some (.file old)) :
    old = bytes ∨ Leads top .node l names n m ∧ top.at? m = some (.file old) ∧ m ≠ d ++ [y] := by
  refine or_iff_not_imp_left.2 fun hold => ?_
  obtain ⟨hm', hmy⟩ := (h.at?_file hm).resolve_left hold
  refine ⟨?_, hm', hmy⟩
  obtain ⟨e, left, hwalk, hends⟩ := hway
  induction hwalk with
  | refl =>
      refine ⟨_, _, .refl, ?_⟩
      cases hends with
      | here => exact .here
      | @entry name ho _ _ =>
          refine .entry ho ?_ fun _ => ?_
          · rintro ⟨entries, hd⟩
            rw [hm'] at hd
            cases hd
          · rintro ⟨t, ht⟩
            rw [hm'] at ht
            cases ht
  | @head l m' _ names names' left k n hop hwalk ih =>
      refine (ih hends).head ?_
      cases hop with
      | parent => exact .parent
      | self hn => exact .self hn
      | directory ho hd => exact .directory ho (h.hasDirectory_iff.1 hd)
      | @link name t rest ho hlink =>
          refine .link ho (h.at?_of_link (fun hy => ?_) hlink)
          obtain ⟨rfl, hname⟩ := List.append_inj' hy rfl
          obtain rfl : name = y := by simpa using hname
          -- a way through the moved entry ends at the stored file, or nowhere
          have hthrough : Leads top' .node l (name :: rest) (n + 1) m := ⟨_, _, .head (.link ho hlink) hwalk, hends⟩
          rcases h.target_cases with ⟨-, n', m', -, hleads, hfile⟩ | ⟨-, hnone⟩
          · have hnodir : ¬ top'.HasDirectory m' := by
              rintro ⟨entries, hd⟩
              rw [hfile] at hd
              cases hd
            have heq := hleads.eq_of_first (by decide) hthrough hnodir (h.hasDirectory_iff.2 h.hasDirectory)
            rw [heq, hfile] at hm
            cases hm
            exact hold rfl
          · rw [← List.singleton_append] at hthrough
            obtain ⟨_, _, _, -, hfirst, -⟩ := hthrough.split
            exact hnone _ _ hfirst

end Moved

end PolicyTable.FileSystem
