import PolicyTable.FileSystem.RealPath
import PolicyTable.Proofs.FileSystem.Walk

/-!
# `PolicyTable.Proofs.FileSystem.RealPath` — the path without links is where the way leads

The search for a path without links and the resolution of a path are two programs: the search goes by the texts of
paths, expands a link in full before it goes on, keeps the links that it is expanding and gives up when it meets one
of them again. Along a way that resolution can go to its end, the search comes to the same location, provided that it
sees every link.

The search cannot meet a link again there. Each link on the way has a *cost*, the links that its target
leads on over; what is left of the way inside the target costs at most that, and a link that is met costs
less than what is left. Links of different costs are different. The costs of links that are expanded one inside the
other get less, so the limit on them is not reached either.

## Contents
- **Paths.** `Path.IsPlain` paths lead where their texts say, also one level up.
- **Pieces.** The names of a way that count, and the pieces of a target that count.
- **One level.** `settlePieces_eq`: the search follows a way if links are expanded rightly.
- **All levels.** `Cost`, the invariant `OnTheWay`, and `settle_eq`.
- **Result.** `World.Sees` says that no link is overlooked; then `World.eq_of_realPath`.
-/

namespace PolicyTable.FileSystem

variable {top : Node} {aim : Aim} {l m d : Location} {names left pre rest : List Name}
  {pieces : List Text} {name piece : Name} {n k c c' bound : Nat} {w : World} {p q directory : Path}

/-! ## Paths -/

theorem lexical_of_not_mem (h : parentName ∉ names) : lexical l names = l ++ names := by
  induction names generalizing l with
  | nil => simp [lexical]
  | cons x r ih =>
      rw [List.mem_cons, not_or] at h
      have hrest := ih (l := l ++ [x]) h.2
      rw [lexical] at hrest ⊢
      rw [List.foldl_cons, if_neg (Ne.symm h.1), hrest, List.append_assoc, List.singleton_append]

theorem lexical_concat (l : Location) (names : List Name) (x : Name) :
    lexical l (names ++ [x]) = if x = parentName then (lexical l names).dropLast else lexical l names ++ [x] := by
  rw [lexical, lexical, List.foldl_append, List.foldl_cons, List.foldl_nil]

/-- A path that a search may come to: double dots are left in a relative path only. -/
def Path.IsPlain (p : Path) : Prop := p.anchor = .relative ∨ p.anchor = .root ∧ parentName ∉ p.parts

theorem Path.isPlain_start (a : Anchor) (h : p.IsPlain) : (a.start p).IsPlain := by
  cases a with
  | relative => exact h
  | root => exact .inr ⟨rfl, List.not_mem_nil⟩
  | doubleRoot => exact .inr ⟨rfl, List.not_mem_nil⟩

theorem Path.IsPlain.child (h : p.IsPlain) (hname : name ≠ parentName) : (p.child name).IsPlain := by
  rcases h with hrel | ⟨hroot, hparts⟩
  · exact .inl hrel
  · refine .inr ⟨hroot, ?_⟩
    simp [Path.child, hparts, Ne.symm hname]

theorem Path.IsPlain.above (h : p.IsPlain) : p.above.IsPlain := by
  obtain ⟨anchor, parts⟩ := p
  rcases h with rfl | ⟨rfl, hparts⟩
  · rw [Path.above]
    dsimp only
    split
    · exact .inl rfl
    · exact .inl rfl
  · exact .inr ⟨rfl, fun hmem => hparts ((List.dropLast_sublist _).subset hmem)⟩

theorem World.locationOf_start (w : World) (a : Anchor) (p : Path) :
    w.locationOf (a.start p) = a.location (w.locationOf p) := by
  cases a <;> rfl

theorem World.locationOf_child (w : World) (p : Path) (hname : name ≠ parentName) :
    w.locationOf (p.child name) = w.locationOf p ++ [name] := by
  rw [locationOf, Path.child, lexical_concat, if_neg hname]
  rfl

/-- One level up from a path is one level up in the tree. -/
theorem World.locationOf_above (w : World) (h : p.IsPlain) : w.locationOf p.above = (w.locationOf p).dropLast := by
  obtain ⟨anchor, parts⟩ := p
  rcases List.eq_nil_or_concat parts with rfl | ⟨front, last, rfl⟩
  · rcases h with rfl | ⟨rfl, _⟩
    · rfl
    · rfl
  rw [List.concat_eq_append] at h ⊢
  have hdrop : last ≠ parentName →
      (w.locationOf ⟨anchor, front ++ [last]⟩).dropLast = w.locationOf ⟨anchor, front⟩ := by
    intro hlast
    rw [locationOf, lexical_concat, if_neg hlast, List.dropLast_concat]
    rfl
  rcases h with rfl | ⟨rfl, hparts⟩
  · by_cases hlast : last = parentName
    · -- There is no name to take away, so that the path goes up by double dots.
      subst hlast
      have habove : Path.above ⟨.relative, front ++ [parentName]⟩ =
          ⟨.relative, front ++ [parentName] ++ [parentName]⟩ := by
        simp [Path.above, Path.child]
      rw [habove, locationOf, lexical_concat, if_pos rfl]
      rfl
    · have habove : Path.above ⟨.relative, front ++ [last]⟩ = ⟨.relative, front⟩ := by
        simp [Path.above, hlast]
      rw [habove, hdrop hlast]
  · have hlast : last ≠ parentName := fun heq => hparts (by simp [heq])
    have habove : Path.above ⟨.root, front ++ [last]⟩ = ⟨.root, front⟩ := by simp [Path.above]
    rw [habove, hdrop hlast]

/-- As an absolute path, a plain one is its location. -/
theorem World.absolute_eq (h : p.IsPlain) : w.absolute p = ⟨.root, w.locationOf p⟩ := by
  obtain ⟨anchor, parts⟩ := p
  rcases h with rfl | ⟨rfl, hparts⟩
  · rfl
  · rw [locationOf, lexical_of_not_mem hparts]
    rfl

/-! ## Pieces -/

/-- Names that stand for the directory itself may be left out. -/
theorem Leads.of_not_isPart (h : Leads top .node l (pre ++ names) n m)
    (hpre : ∀ x ∈ pre, ¬ isPart x = true) : Leads top .node l names n m := by
  induction pre with
  | nil => exact h
  | cons x r ih =>
      have hx : isPart x = false := by simpa using hpre x (List.mem_cons_self ..)
      obtain ⟨n', rfl, h'⟩ := h.of_hop (.self (isPart_eq_false hx)) (by decide)
      exact ih h' fun y hy => hpre y (List.mem_cons_of_mem _ hy)

/-- The names of a target that count are the pieces of its text that count. -/
theorem filter_targetParts (target : Text) :
    (targetParts target).filter isPart = (Text.split '/' target).filter isPart := by
  have hself : isPart selfName = false := by decide
  have hempty : isPart emptyName = false := by decide
  unfold targetParts
  simp only [List.filter_append, List.filter_filter, Bool.and_self]
  split
  · simp
  · split
    · simp [hself]
    · simp [hempty]

/-! ## One level -/

/-- Every link is seen. -/
def seesAll : Path → Bool := fun _ => true

/-- The search has come to a location. -/
def Settled.LeadsTo (w : World) (found : Settled) (m : Location) : Prop :=
  ∃ q : Path, found = .real q ∧ q.IsPlain ∧ w.locationOf q = m

section

variable {expand : Path → Path → Text → Settled} {links : List Path}

theorem settlePieces_of_not_hasLink (hpart : isPart piece = true) (hp : piece ≠ parentName)
    (hl : ¬ w.top.HasLink (w.locationOf p ++ [piece])) :
    settlePieces w seesAll expand links p (piece :: pieces) =
      settlePieces w seesAll expand links (p.child piece) pieces := by
  have hnone : w.linkAt? seesAll (p.child piece) = none := by
    rw [World.linkAt?, w.locationOf_child p hp]
    cases hat : w.top.at? (w.locationOf p ++ [piece]) with
    | none => rfl
    | some node =>
        cases node with
        | link target => exact absurd ⟨target, hat⟩ hl
        | file bytes => rfl
        | directory entries => rfl
  rw [settlePieces, if_neg (by simp [hpart]), if_neg hp]
  simp only [hnone]

theorem settlePieces_link {target : Text} (hpart : isPart piece = true) (hp : piece ≠ parentName)
    (hl : w.top.at? (w.locationOf p ++ [piece]) = some (.link target)) (hnew : p.child piece ∉ links)
    (hq : expand (p.child piece) p target = .real q) :
    settlePieces w seesAll expand links p (piece :: pieces) = settlePieces w seesAll expand links q pieces := by
  have hlink : w.linkAt? seesAll (p.child piece) = some target := by
    rw [World.linkAt?, w.locationOf_child p hp, hl]
    rfl
  have hcontains : links.contains (p.child piece) = false := by simpa using hnew
  rw [settlePieces, if_neg (by simp [hpart]), if_neg hp]
  simp only [hlink, hcontains, hq, Bool.false_eq_true, if_false]

/-- **The search follows a way**, provided that every link which costs less than the way is new and is
    expanded to where its target leads. -/
theorem settlePieces_eq
    (hexpand : ∀ directory name target k m, directory.IsPlain → name ≠ parentName → k < bound →
      w.top.at? (w.locationOf directory ++ [name]) = some (.link target) →
      Leads w.top .node ((Anchor.ofText target).location (w.locationOf directory)) (targetParts target) k m →
        directory.child name ∉ links ∧ (expand (directory.child name) directory target).LeadsTo w m)
    (hn : n ≤ bound) (hplain : p.IsPlain) (hnames : names.filter isPart = pieces.filter isPart)
    (h : Leads w.top .node (w.locationOf p) names n m) :
    (settlePieces w seesAll expand links p pieces).LeadsTo w m := by
  induction pieces generalizing p names n with
  | nil =>
      have hnone : ∀ x ∈ names, ¬ isPart x = true := by simpa using hnames
      have hend : Leads w.top .node (w.locationOf p) [] n m :=
        Leads.of_not_isPart (by rwa [List.append_nil]) hnone
      exact ⟨p, rfl, hplain, hend.eq_of_nil.symm⟩
  | cons piece rest ih =>
      by_cases hpart : isPart piece = true
      · rw [List.filter_cons_of_pos hpart] at hnames
        obtain ⟨pre, behind, rfl, hpre, -, hbehind⟩ := List.filter_eq_cons_iff.1 hnames
        -- The names before the piece change nothing, so the way can be taken up at the piece.
        have h := h.of_not_isPart hpre
        by_cases hp : piece = parentName
        · subst hp
          obtain ⟨n', rfl, h'⟩ := h.of_hop .parent (by decide)
          rw [settlePieces, if_neg (by simp [hpart]), if_pos rfl]
          rw [← w.locationOf_above hplain] at h'
          exact ih hn hplain.above hbehind h'
        rcases h.cases_part (by decide) hpart hp with
          ⟨_, ⟨rfl, rfl, _, hl⟩ | ⟨hd, h'⟩ | ⟨target, n', hl, rfl, h'⟩⟩
        · rw [settlePieces_of_not_hasLink hpart hp hl]
          refine ih (Nat.zero_le bound) (hplain.child hp) hbehind ?_
          rw [w.locationOf_child p hp]
          exact Walks.refl.leads
        · rw [settlePieces_of_not_hasLink hpart hp hd.not_hasLink]
          rw [← w.locationOf_child p hp] at h'
          exact ih hn (hplain.child hp) hbehind h'
        · -- The way splits where the target ends: its cost and the rest make up what is left.
          obtain ⟨n₁, n₂, d, rfl, h1, h2⟩ := h'.split
          obtain ⟨hnew, q, hq, hqplain, rfl⟩ := hexpand p piece target n₁ d hplain hp (by omega) hl h1
          rw [settlePieces_link hpart hp hl hnew hq]
          exact ih (by omega) hqplain hbehind h2
      · rw [List.filter_cons_of_neg hpart] at hnames
        rw [settlePieces, if_pos (by simpa using hpart)]
        exact ih hn hplain hnames h

end

/-! ## All levels -/

/-- The cost of a link: its target leads on over so many links. -/
def Cost (w : World) (entry : Path) (c : Nat) : Prop :=
  ∃ directory name target m, entry = directory.child name ∧
    w.top.at? (w.locationOf directory ++ [name]) = some (.link target) ∧
    Leads w.top .node ((Anchor.ofText target).location (w.locationOf directory)) (targetParts target) c m

theorem Cost.unique {entry : Path} (h : Cost w entry c) (h' : Cost w entry c') : c = c' := by
  obtain ⟨⟨anchor, front⟩, name, target, m, rfl, hl, hleads⟩ := h
  obtain ⟨⟨anchor', front'⟩, name', target', m', heq, hl', hleads'⟩ := h'
  obtain ⟨rfl, hparts⟩ := Path.mk.inj heq
  obtain ⟨rfl, hname⟩ := List.append_inj' hparts rfl
  cases hname
  rw [hl, Option.some.injEq, Node.link.injEq] at hl'
  subst hl'
  exact (hleads.unique hleads' (by decide)).1

/-- **The invariant of the search.** Each link that is being expanded costs at least as much as what is left of the
    way. -/
def OnTheWay (w : World) (links : List Path) (n : Nat) : Prop := ∀ entry ∈ links, ∃ c, n ≤ c ∧ Cost w entry c

/-- A link that costs less than what is left of the way is not being expanded yet. -/
theorem OnTheWay.not_mem {links : List Path} {entry : Path} (h : OnTheWay w links n)
    (hc : Cost w entry c) (hlt : c < n) : entry ∉ links := by
  intro hmem
  obtain ⟨c', hle, hc'⟩ := h entry hmem
  have heq := hc.unique hc'
  omega

/-- A link is put on the way while its target is expanded. -/
theorem OnTheWay.cons {links : List Path} {entry : Path} (h : OnTheWay w links n)
    (hc : Cost w entry c) (hlt : c < n) : OnTheWay w (entry :: links) c := by
  intro other hother
  rcases List.mem_cons.1 hother with rfl | hother
  · exact ⟨c, Nat.le_refl c, hc⟩
  · obtain ⟨c', hle, hc'⟩ := h other hother
    exact ⟨c', by omega, hc'⟩

/-- **The search goes to the end of a way.** -/
theorem settle_eq {depth : Nat} {links : List Path} (hdepth : n ≤ depth) (hway : OnTheWay w links n)
    (hplain : p.IsPlain) (hnames : names.filter isPart = pieces.filter isPart)
    (h : Leads w.top .node (w.locationOf p) names n m) : (settle w seesAll depth links p pieces).LeadsTo w m := by
  induction depth generalizing links n p names pieces m with
  | zero =>
      refine settlePieces_eq ?_ (Nat.le_refl n) hplain hnames h
      intro _ _ _ k _ _ _ hk
      omega
  | succ depth ih =>
      refine settlePieces_eq ?_ (Nat.le_refl n) hplain hnames h
      intro directory name target k m hdirectory _ hk hl htarget
      have hc : Cost w (directory.child name) k := ⟨directory, name, target, m, rfl, hl, htarget⟩
      refine ⟨hway.not_mem hc hk, ih (by omega) (hway.cons hc hk) (Path.isPlain_start _ hdirectory)
        (filter_targetParts target) ?_⟩
      rwa [w.locationOf_start]

/-! ## Result -/

namespace World

/-- No link is overlooked in the search for a path: it ends as if every link were seen. -/
def Sees (w : World) (p : Path) : Prop := w.settled p = w.settledSeeing seesAll p

/-- **The search ends where the way leads.** -/
theorem settled_eq (hsees : w.Sees p) (hn : n ≤ linkLimit)
    (h : Leads w.top .node (p.anchor.location w.here) p.parts n m) : (w.settled p).LeadsTo w m := by
  have hlimit : linkLimit ≤ expansionLimit := by decide
  rw [hsees]
  have hstart : OnTheWay w [] n := fun entry hentry => by cases hentry
  refine settle_eq (Nat.le_trans hn hlimit) hstart (Path.isPlain_start _ (.inl rfl)) rfl ?_
  rw [w.locationOf_start]
  exact h

/-- **The path without links is where the way leads.** -/
theorem eq_of_realPath {target : Path} (hsees : w.Sees p) (hn : n ≤ linkLimit)
    (h : Leads w.top .node (p.anchor.location w.here) p.parts n m) (hreal : w.realPath p = .ok target) :
    target = ⟨.root, m⟩ := by
  obtain ⟨q, hq, hplain, rfl⟩ := settled_eq hsees hn h
  rw [realPath, hq] at hreal
  dsimp only at hreal
  split at hreal
  · cases hreal
  · rw [← absolute_eq hplain]
    exact (Except.ok.inj hreal).symm

end World

end PolicyTable.FileSystem
