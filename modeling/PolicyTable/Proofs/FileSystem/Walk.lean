import PolicyTable.FileSystem.World
import PolicyTable.Proofs.FileSystem.Tree

/-!
# `PolicyTable.Proofs.FileSystem.Walk` — resolution, one name at a time

Resolution recurses on names inside links, and counts the links down. Here the same way is taken in steps:
a `Hop` takes one name off the names ahead, and a link puts the names of its target in front of the rest.
The index counts the links that are followed, so that it is read off the way and no bound is needed.

## Contents
- **Steps.** `Hop`, which is deterministic (`Hop.unique`) and never looks at the names behind the first.
- **Ways.** `Walks` goes on hop by hop, `Ends` says where it stops, `Leads` is a whole way.
- **Invariants.** What holds along a way: directories stay directories, names stay ordinary, and a tree
  that is kept keeps its ways.
- **Soundness.** What resolution finds is at the end of a way (`leads_of_resolve`).
- **Completeness.** Resolution goes along a way to a directory and on from there (`Walks.resolve_append`), and
  finds the node that a way leads to (`Leads.resolve`).
-/

namespace PolicyTable.FileSystem

open Node (HasDirectory HasLink Keeps)

variable {top top' : Node} {aim : Aim} {l l' m m' d d' : Location} {names names' left left' : List Name}
  {a b : List Name} {name last : Name} {n n' k k' links : Nat}

/-! ## Steps -/

theorem isOrdinary_iff : isOrdinary name = true ↔
    name ≠ parentName ∧ name ≠ selfName ∧ name ≠ emptyName ∧ isLongName name = false := by
  simp [isOrdinary, and_assoc]

/-- One step of a way: a location with names ahead, the number of links that the step follows, and the next
    location with the names that are then ahead. -/
inductive Hop (top : Node) : Location → List Name → Nat → Location → List Name → Prop
  | parent {l : Location} {rest : List Name} :
      Hop top l (parentName :: rest) 0 l.dropLast rest
  | self {l : Location} {name : Name} {rest : List Name} (hn : name = selfName ∨ name = emptyName) :
      Hop top l (name :: rest) 0 l rest
  | directory {l : Location} {name : Name} {rest : List Name} (ho : isOrdinary name = true)
      (hd : top.HasDirectory (l ++ [name])) :
      Hop top l (name :: rest) 0 (l ++ [name]) rest
  | link {l : Location} {name : Name} {target : Text} {rest : List Name} (ho : isOrdinary name = true)
      (hl : top.at? (l ++ [name]) = some (.link target)) :
      Hop top l (name :: rest) 1 ((Anchor.ofText target).location l) (targetParts target ++ rest)

theorem isPart_eq_false (h : isPart name = false) : name = selfName ∨ name = emptyName := by
  by_cases he : name = []
  · exact .inr he
  · left
    have hdot : name = ['.'] := by simpa [isPart, he] using h
    exact hdot

theorem isOrdinary_ne_self (ho : isOrdinary name = true) : ¬ (name = selfName ∨ name = emptyName) := by
  obtain ⟨_, hs, he, _⟩ := isOrdinary_iff.1 ho
  exact not_or.2 ⟨hs, he⟩

theorem not_isOrdinary_parentName : ¬ isOrdinary parentName = true := by decide

/-- **A step is determined by where it starts.** -/
theorem Hop.unique (h : Hop top l names k m left) (h' : Hop top l names k' m' left') :
    k = k' ∧ m = m' ∧ left = left' := by
  cases h with
  | parent =>
      cases h' with
      | parent => exact ⟨rfl, rfl, rfl⟩
      | self hn => exact absurd hn (by decide)
      | directory ho => exact absurd ho not_isOrdinary_parentName
      | link ho => exact absurd ho not_isOrdinary_parentName
  | self hn =>
      cases h' with
      | parent => exact absurd hn (by decide)
      | self => exact ⟨rfl, rfl, rfl⟩
      | directory ho => exact absurd hn (isOrdinary_ne_self ho)
      | link ho => exact absurd hn (isOrdinary_ne_self ho)
  | directory ho hd =>
      cases h' with
      | parent => exact absurd ho not_isOrdinary_parentName
      | self hn => exact absurd hn (isOrdinary_ne_self ho)
      | directory => exact ⟨rfl, rfl, rfl⟩
      | link _ hl => exact absurd ⟨_, hl⟩ hd.not_hasLink
  | link ho hl =>
      cases h' with
      | parent => exact absurd ho not_isOrdinary_parentName
      | self hn => exact absurd hn (isOrdinary_ne_self ho)
      | directory _ hd => exact absurd ⟨_, hl⟩ hd.not_hasLink
      | link _ hl' =>
          rw [hl, Option.some.injEq, Node.link.injEq] at hl'
          subst hl'
          exact ⟨rfl, rfl, rfl⟩

/-- More names may stand behind those ahead. -/
theorem Hop.append (h : Hop top l names k m left) (b : List Name) :
    Hop top l (names ++ b) k m (left ++ b) := by
  cases h with
  | parent => exact .parent
  | self hn => exact .self hn
  | directory ho hd => exact .directory ho hd
  | link ho hl =>
      rw [List.append_assoc]
      exact .link ho hl

/-- The names behind the first may be taken away again. -/
theorem Hop.of_append (h : Hop top l (a ++ b) k m left) (ha : a ≠ []) :
    ∃ a', left = a' ++ b ∧ Hop top l a k m a' := by
  obtain ⟨x, r, rfl⟩ := List.exists_cons_of_ne_nil ha
  rw [List.cons_append] at h
  cases h with
  | parent => exact ⟨r, rfl, .parent⟩
  | self hn => exact ⟨r, rfl, .self hn⟩
  | directory ho hd => exact ⟨r, rfl, .directory ho hd⟩
  | link ho hl => exact ⟨_, (List.append_assoc ..).symm, .link ho hl⟩

/-! ## Ways -/

/-- Hops one after the other; the number counts the links that they follow. -/
inductive Walks (top : Node) : Location → List Name → Nat → Location → List Name → Prop
  | refl {l : Location} {names : List Name} : Walks top l names 0 l names
  | head {l m d : Location} {names names' left : List Name} {k n : Nat} :
      Hop top l names k m names' → Walks top m names' n d left → Walks top l names (n + k) d left

theorem Hop.walks (h : Hop top l names k m left) : Walks top l names k m left := by
  simpa using Walks.head h .refl

theorem Walks.trans (h : Walks top l names n m names') (h' : Walks top m names' k d left) :
    Walks top l names (n + k) d left := by
  induction h with
  | refl => simpa using h'
  | @head _ _ _ _ _ _ k₁ n₁ hop _ ih =>
      have hw := Walks.head hop (ih h')
      rwa [Nat.add_right_comm] at hw

theorem Walks.append (h : Walks top l names n d left) (b : List Name) :
    Walks top l (names ++ b) n d (left ++ b) := by
  induction h with
  | refl => exact .refl
  | head hop _ ih => exact .head (hop.append b) ih

/-- Where a way stops: no name is ahead, or a last one that is an entry where the way does not go on. -/
inductive Ends (top : Node) (aim : Aim) : Location → List Name → Location → Prop
  | here {l : Location} : Ends top aim l [] l
  | entry {l : Location} {name : Name} (ho : isOrdinary name = true)
      (hd : ¬ top.HasDirectory (l ++ [name])) (hl : aim ≠ .entry → ¬ top.HasLink (l ++ [name])) :
      Ends top aim l [name] (l ++ [name])

/-- A whole way: from a location along names, over `n` links, to a location. -/
def Leads (top : Node) (aim : Aim) (l : Location) (names : List Name) (n : Nat) (m : Location) : Prop :=
  ∃ d left, Walks top l names n d left ∧ Ends top aim d left m

theorem Walks.leads (h : Walks top l names n d []) : Leads top aim l names n d := ⟨d, [], h, .here⟩

theorem Leads.head (hop : Hop top l names k m names') (h : Leads top aim m names' n d) :
    Leads top aim l names (n + k) d := by
  obtain ⟨e, left, hw, he⟩ := h
  exact ⟨e, left, .head hop hw, he⟩

/-- Where a way over links stops, there is no further step. -/
theorem Ends.not_hop (h : Ends top aim l names m) (haim : aim ≠ .entry) :
    ¬ Hop top l names k d left := by
  intro hop
  cases h with
  | here => cases hop
  | entry ho hd hl =>
      cases hop with
      | parent => exact not_isOrdinary_parentName ho
      | self hn => exact isOrdinary_ne_self ho hn
      | directory _ hd' => exact hd hd'
      | link _ hl' => exact hl haim ⟨_, hl'⟩

theorem Ends.unique (h : Ends top aim l names m) (h' : Ends top aim l names m') : m = m' := by
  cases h <;> cases h' <;> rfl

/-- The rest of a way behind a step is a way. -/
theorem Leads.of_hop (h : Leads top aim l names n m) (hop : Hop top l names k m' left')
    (haim : aim ≠ .entry) : ∃ n', n = n' + k ∧ Leads top aim m' left' n' m := by
  obtain ⟨e, last, hw, he⟩ := h
  cases hw with
  | refl => exact absurd hop (he.not_hop haim)
  | @head _ _ _ _ _ _ _ n' hop' hw =>
      obtain ⟨rfl, rfl, rfl⟩ := hop.unique hop'
      exact ⟨n', rfl, e, last, hw, he⟩

theorem Leads.eq_of_nil (h : Leads top aim l [] n m) : m = l := by
  obtain ⟨d, left, hw, he⟩ := h
  cases hw with
  | refl =>
      cases he
      rfl
  | head hop _ => cases hop

/-- **The end of a way and its links are determined by where it starts.** -/
theorem Leads.unique (h : Leads top aim l names n m) (h' : Leads top aim l names n' m')
    (haim : aim ≠ .entry) : n = n' ∧ m = m' := by
  obtain ⟨d, left, hw, he⟩ := h
  induction hw generalizing n' with
  | refl =>
      obtain ⟨d', left', hw', he'⟩ := h'
      cases hw' with
      | refl => exact ⟨rfl, he.unique he'⟩
      | head hop _ => exact absurd hop (he.not_hop haim)
  | head hop _ ih =>
      obtain ⟨k', rfl, hrest⟩ := h'.of_hop hop haim
      obtain ⟨rfl, hm⟩ := ih hrest he
      exact ⟨rfl, hm⟩

/-- Two ways on which no names are left end in one place. -/
theorem Walks.eq_of_nil (h : Walks top l names n d []) (h' : Walks top l names n' d' []) : d = d' := by
  have hleads : Leads top .node l names n d := h.leads
  exact (hleads.unique h'.leads (by decide)).2

/-- **A way along more names goes along the first of them, to a place to go on from.** -/
theorem Leads.of_append (h : Leads top aim l (a ++ b) n m) (hb : b ≠ []) :
    ∃ n₁ n₂ d, n = n₂ + n₁ ∧ Walks top l a n₁ d [] ∧ Leads top aim d b n₂ m := by
  obtain ⟨e, left, hw, he⟩ := h
  generalize hab : a ++ b = names at hw
  induction hw generalizing a with
  | @refl l names =>
      subst hab
      rcases a with _ | ⟨x, r⟩
      · exact ⟨0, 0, l, rfl, .refl, l, b, .refl, he⟩
      · -- A way stops with at most one name ahead, and there is one of `a` and one of `b`.
        generalize hleft : x :: r ++ b = left at he
        cases he with
        | here => cases hleft
        | entry => simp [hb] at hleft
  | @head l m' _ names names' left k n hop hw ih =>
      subst hab
      rcases eq_or_ne a [] with rfl | ha
      · exact ⟨0, n + k, l, rfl, .refl, _, left, .head hop hw, he⟩
      · obtain ⟨a', rfl, hop'⟩ := hop.of_append ha
        obtain ⟨n₁, n₂, d, rfl, h1, h2⟩ := ih he rfl
        exact ⟨n₁ + k, n₂, d, Nat.add_assoc .., .head hop' h1, h2⟩

/-- **At a name that counts, a way stops, goes into a directory or follows a link.** -/
theorem Leads.cases_part {rest : List Name} (h : Leads top aim l (name :: rest) n m)
    (haim : aim ≠ .entry) (hpart : isPart name = true) (hp : name ≠ parentName) :
    isOrdinary name = true ∧
      ((rest = [] ∧ m = l ++ [name] ∧ ¬ top.HasDirectory (l ++ [name]) ∧
          ¬ top.HasLink (l ++ [name])) ∨
        (top.HasDirectory (l ++ [name]) ∧ Leads top aim (l ++ [name]) rest n m) ∨
        ∃ target n', top.at? (l ++ [name]) = some (.link target) ∧ n = n' + 1 ∧
          Leads top aim ((Anchor.ofText target).location l) (targetParts target ++ rest) n' m) := by
  obtain ⟨d, left, hw, he⟩ := h
  cases hw with
  | refl =>
      cases he with
      | entry ho hd hl => exact ⟨ho, .inl ⟨rfl, rfl, hd, hl haim⟩⟩
  | head hop hw =>
      cases hop with
      | parent => exact absurd rfl hp
      | self hs =>
          rcases hs with rfl | rfl
          · exact absurd hpart (by decide)
          · exact absurd hpart (by decide)
      | directory ho hd => exact ⟨ho, .inr (.inl ⟨hd, d, left, hw, he⟩)⟩
      | @link _ target _ ho hl => exact ⟨ho, .inr (.inr ⟨target, _, hl, rfl, d, left, hw, he⟩)⟩

/-- A first name that does not stand for a directory by itself is looked up. -/
theorem Leads.ordinary_first {rest : List Name} (h : Leads top aim l (name :: rest) n m)
    (hname : ¬ (name = parentName ∨ name = selfName ∨ name = emptyName)) : isOrdinary name = true := by
  obtain ⟨hp, hs⟩ := not_or.1 hname
  obtain ⟨d, left, hw, he⟩ := h
  cases hw with
  | refl =>
      cases he with
      | entry ho => exact ho
  | head hop _ =>
      cases hop with
      | parent => exact absurd rfl hp
      | self hn => exact absurd hn hs
      | directory ho => exact ho
      | link ho => exact ho

/-- A way along names goes along any first part of them. -/
theorem Leads.split (h : Leads top aim l (a ++ b) n m) :
    ∃ n₁ n₂ d, n = n₂ + n₁ ∧ Leads top aim l a n₁ d ∧ Leads top aim d b n₂ m := by
  rcases eq_or_ne b [] with rfl | hb
  · rw [List.append_nil] at h
    exact ⟨n, 0, m, (Nat.zero_add n).symm, h, Walks.refl.leads⟩
  · obtain ⟨n₁, n₂, d, hn, h1, h2⟩ := h.of_append hb
    exact ⟨n₁, n₂, d, hn, h1.leads, h2⟩

/-! ## Invariants -/

/-- A target starts at the directory that it stands in, or at the top. -/
theorem Anchor.location_cases (anchor : Anchor) (l : Location) :
    anchor.location l = l ∨ anchor.location l = [] := by
  cases anchor with
  | relative => exact .inl rfl
  | root => exact .inr rfl
  | doubleRoot => exact .inr rfl

/-- A path starts at ordinary names. -/
theorem World.location_ordinary (w : World) (anchor : Anchor) : ∀ x ∈ anchor.location w.here, isOrdinary x = true := by
  rcases anchor.location_cases w.here with hl | hl
  · rw [hl]
    exact List.all_eq_true.1 w.here_ordinary
  · simp [hl]

theorem Hop.hasDirectory (h : Hop top l names k m left) (hl : top.HasDirectory l) :
    top.HasDirectory m := by
  cases h with
  | parent => exact hl.dropLast
  | self => exact hl
  | directory _ hd => exact hd
  | link =>
      rcases (Anchor.ofText _).location_cases l with h | h
      · rwa [h]
      · rw [h]
        exact hl.nil

/-- A way from a directory is at a directory at each step. -/
theorem Walks.hasDirectory (h : Walks top l names n d left) (hl : top.HasDirectory l) :
    top.HasDirectory d := by
  induction h with
  | refl => exact hl
  | head hop _ ih => exact ih (hop.hasDirectory hl)

theorem ordinary_concat (hl : ∀ x ∈ l, isOrdinary x = true) (ho : isOrdinary name = true) :
    ∀ x ∈ l ++ [name], isOrdinary x = true := by
  intro x hx
  rcases List.mem_append.1 hx with hx | hx
  · exact hl x hx
  · rwa [List.mem_singleton.1 hx]

theorem Hop.ordinary (h : Hop top l names k m left) (hl : ∀ x ∈ l, isOrdinary x = true) :
    ∀ x ∈ m, isOrdinary x = true := by
  cases h with
  | parent => exact fun x hx => hl x (List.dropLast_subset _ hx)
  | self => exact hl
  | directory ho => exact ordinary_concat hl ho
  | link =>
      rcases (Anchor.ofText _).location_cases l with h | h
      · rwa [h]
      · simp [h]

theorem Walks.ordinary (h : Walks top l names n d left) (hl : ∀ x ∈ l, isOrdinary x = true) :
    ∀ x ∈ d, isOrdinary x = true := by
  induction h with
  | refl => exact hl
  | head hop _ ih => exact ih (hop.ordinary hl)

/-- A way that starts at ordinary names ends at ordinary names. -/
theorem Leads.ordinary (h : Leads top aim l names n m) (hl : ∀ x ∈ l, isOrdinary x = true) :
    ∀ x ∈ m, isOrdinary x = true := by
  obtain ⟨d, left, hw, he⟩ := h
  cases he with
  | here => exact hw.ordinary hl
  | entry ho => exact ordinary_concat (hw.ordinary hl) ho

theorem Hop.keeps (h : Hop top l names k m left) (hk : Keeps top top') :
    Hop top' l names k m left := by
  cases h with
  | parent => exact .parent
  | self hn => exact .self hn
  | directory ho hd => exact .directory ho (hk.hasDirectory hd)
  | link ho hl => exact .link ho (hk.at?_link hl)

/-- A tree that is kept keeps its ways. -/
theorem Walks.keeps (h : Walks top l names n d left) (hk : Keeps top top') :
    Walks top' l names n d left := by
  induction h with
  | refl => exact .refl
  | head hop _ ih => exact .head (hop.keeps hk) ih

/-- Ordinary names lead from the top to the directory that they name, over no link. -/
theorem walks_location (hd : top.HasDirectory d) (ho : ∀ x ∈ d, isOrdinary x = true) :
    Walks top [] d 0 d [] := by
  induction d using List.reverseRecOn with
  | nil => exact .refl
  | append_singleton front last ih =>
      have hfront := ih hd.of_concat fun x hx => ho x (List.mem_append_left _ hx)
      have hlast : Hop top front [last] 0 (front ++ [last]) [] := .directory (ho last (by simp)) hd
      exact (hfront.append [last]).trans hlast.walks

/-! ## Soundness -/

/-- What a descent answers where it stops. -/
inductive Lands (top : Node) (aim : Aim) : Location → List Name → Landing → Prop
  | reached {d m : Location} {left : List Name} (he : Ends top aim d left m) :
      Lands top aim d left (.reached m (top.at? m))
  | atLink {d : Location} {name : Name} {target : Text} {rest : List Name}
      (ho : isOrdinary name = true) (hl : top.at? (d ++ [name]) = some (.link target)) :
      Lands top aim d (name :: rest) (.atLink d target rest)
  | refused {d : Location} {left : List Name} {cause : Cause} : Lands top aim d left (.refused cause)

theorem Lands.entry {node? : Option Node} (ho : isOrdinary name = true)
    (hnode : top.at? (l ++ [name]) = node?) (hd : ∀ entries, node? ≠ some (.directory entries))
    (hl : aim ≠ .entry → ∀ target, node? ≠ some (.link target)) :
    Lands top aim l [name] (.reached (l ++ [name]) node?) := by
  subst hnode
  refine .reached (.entry ho ?_ ?_)
  · rintro ⟨entries, he⟩
    exact hd entries he
  · rintro haim ⟨target, ht⟩
    exact hl haim target ht

theorem descend_parent {rest : List Name} :
    descend top aim l (parentName :: rest) = descend top aim l.dropLast rest := by
  rw [descend, if_pos rfl]

theorem descend_self {rest : List Name} (hn : name = selfName ∨ name = emptyName) :
    descend top aim l (name :: rest) = descend top aim l rest := by
  have hp : name ≠ parentName := by
    rintro rfl
    exact absurd hn (by decide)
  rw [descend, if_neg hp, if_pos (by simpa using hn)]

/-- The descent at an ordinary name goes by the node of that name. -/
theorem descend_ordinary {rest : List Name} (ho : isOrdinary name = true)
    (hf : ¬ (aim = .file ∧ rest = [emptyName])) :
    descend top aim l (name :: rest) =
      match top.at? (l ++ [name]) with
      | some (.directory _) => descend top aim (l ++ [name]) rest
      | some (.link target) =>
        if rest.isEmpty && aim = .entry then .reached (l ++ [name]) (some (.link target))
        else .atLink l target rest
      | some (.file bytes) =>
        if rest.isEmpty then .reached (l ++ [name]) (some (.file bytes)) else .refused .notDirectory
      | none => if rest.isEmpty then .reached (l ++ [name]) none else .refused .notFound := by
  obtain ⟨hp, hs, he, hlong⟩ := isOrdinary_iff.1 ho
  rw [descend, if_neg hp, if_neg (by simp [hs, he]), if_neg (by simpa using hf)]
  exact if_neg (by simp [hlong])

theorem descend_lands_of_ordinary {rest : List Name} (ho : isOrdinary name = true)
    (ih : ∃ d left, Walks top (l ++ [name]) rest 0 d left ∧
      Lands top aim d left (descend top aim (l ++ [name]) rest)) :
    ∃ d left, Walks top l (name :: rest) 0 d left ∧
      Lands top aim d left (descend top aim l (name :: rest)) := by
  by_cases hf : aim = .file ∧ rest = [emptyName]
  · obtain ⟨hp, hs, he, _⟩ := isOrdinary_iff.1 ho
    rw [descend, if_neg hp, if_neg (by simp [hs, he]), if_pos (by simpa using hf)]
    exact ⟨l, _, .refl, .refused⟩
  · rw [descend_ordinary ho hf]
    cases hnode : top.at? (l ++ [name]) with
    | none =>
        refine ⟨l, _, .refl, ?_⟩
        cases rest with
        | nil => exact .entry ho hnode (by simp) (by simp)
        | cons x r => exact .refused
    | some node =>
        cases node with
        | file bytes =>
            refine ⟨l, _, .refl, ?_⟩
            cases rest with
            | nil => exact .entry ho hnode (by simp) (by simp)
            | cons x r => exact .refused
        | link target =>
            refine ⟨l, _, .refl, ?_⟩
            by_cases hend : rest = [] ∧ aim = .entry
            · obtain ⟨rfl, haim⟩ := hend
              simp only [List.isEmpty_nil, haim, decide_true, Bool.and_self, if_true]
              exact .entry ho hnode (by simp) (by simp)
            · have hgo : ¬ (rest.isEmpty && decide (aim = .entry)) = true := by simpa using hend
              simp only [hgo]
              exact .atLink ho hnode
        | directory entries =>
            obtain ⟨d, left, hw, hl⟩ := ih
            exact ⟨d, left, .head (.directory ho ⟨entries, hnode⟩) hw, hl⟩

/-- **A descent goes along a way over no links and answers what it meets.** -/
theorem descend_lands (top : Node) (aim : Aim) (l : Location) (names : List Name) :
    ∃ d left, Walks top l names 0 d left ∧ Lands top aim d left (descend top aim l names) := by
  induction names generalizing l with
  | nil => exact ⟨l, [], .refl, .reached .here⟩
  | cons name rest ih =>
      by_cases hp : name = parentName
      · subst hp
        obtain ⟨d, left, hw, hl⟩ := ih l.dropLast
        exact ⟨d, left, .head .parent hw, by rwa [descend_parent]⟩
      by_cases hs : name = selfName ∨ name = emptyName
      · obtain ⟨d, left, hw, hl⟩ := ih l
        exact ⟨d, left, .head (.self hs) hw, by rwa [descend_self hs]⟩
      -- What is left is the name of an entry, unless it is too long for one.
      by_cases hlong : isLongName name = true
      · refine ⟨l, _, .refl, ?_⟩
        rw [descend, if_neg hp, if_neg (by simpa using hs), if_pos hlong]
        split <;> exact .refused
      obtain ⟨hs, he⟩ := not_or.1 hs
      have ho : isOrdinary name = true :=
        isOrdinary_iff.2 ⟨hp, hs, he, by simpa using hlong⟩
      exact descend_lands_of_ordinary ho (ih (l ++ [name]))

/-- **What resolution finds is at the end of a way over no more links than allowed.** -/
theorem leads_of_resolve {node? : Option Node} (h : resolve top aim links l names = .ok (m, node?)) :
    node? = top.at? m ∧ ∃ n, n ≤ links ∧ Leads top aim l names n m := by
  induction links generalizing l names with
  | zero =>
      obtain ⟨d, left, hw, hl⟩ := descend_lands top aim l names
      rw [resolve] at h
      generalize descend top aim l names = landing at hl h
      cases hl with
      | reached he =>
          cases h
          exact ⟨rfl, 0, Nat.le_refl 0, d, left, hw, he⟩
      | atLink => cases h
      | refused => cases h
  | succ links ih =>
      obtain ⟨d, left, hw, hl⟩ := descend_lands top aim l names
      rw [resolve] at h
      generalize descend top aim l names = landing at hl h
      cases hl with
      | reached he =>
          cases h
          exact ⟨rfl, 0, Nat.zero_le _, d, left, hw, he⟩
      | atLink ho hlink =>
          -- The way goes down to the link, over it, and on with one link less.
          obtain ⟨hnode, n, hn, hleads⟩ := ih h
          obtain ⟨e, left', hw', he⟩ := hleads.head (.link ho hlink)
          have hway := hw.trans hw'
          rw [Nat.zero_add] at hway
          exact ⟨hnode, n + 1, Nat.succ_le_succ hn, e, left', hway, he⟩
      | refused => cases h

/-! ## Completeness -/

/-- The names behind the first do not hold resolution up: it stops at a link only if that is the entry to find, and
    at a slash only if it stands behind the name of a file to write. -/
def GoesOn (aim : Aim) (b : List Name) : Prop :=
  (aim = .entry → b ≠ []) ∧ ∀ rest : List Name, ¬ (aim = .file ∧ rest ++ b = [emptyName])

theorem goesOn_node : GoesOn .node b := by
  refine ⟨fun haim => ?_, ?_⟩
  · cases haim
  · rintro _ ⟨haim, _⟩
    cases haim

theorem goesOn_concat (hlast : last ≠ emptyName) : GoesOn aim [last] := by
  refine ⟨fun _ => by simp, ?_⟩
  rintro rest ⟨_, hr⟩
  rcases rest with _ | ⟨x, r⟩
  · exact hlast (by simpa using hr)
  · simp at hr

/-- A name is in the way only of the last name of an entry and of a slash behind a file to write. -/
theorem goesOn_of_ne_file (haim : aim ≠ .file) (hb : b ≠ []) : GoesOn aim b :=
  ⟨fun _ => hb, fun _ h => haim h.1⟩

theorem resolve_congr (h : descend top aim l names = descend top aim l' names') :
    resolve top aim links l names = resolve top aim links l' names' := by
  cases links with
  | zero => rw [resolve, resolve, h]
  | succ links => rw [resolve, resolve, h]

/-- Resolution takes a step where it is not held up. -/
theorem Hop.resolve_append (h : Hop top l names k m left) (hb : GoesOn aim b) :
    resolve top aim (links + k) l (names ++ b) = resolve top aim links m (left ++ b) := by
  cases h with
  | parent => exact resolve_congr descend_parent
  | self hn => exact resolve_congr (descend_self hn)
  | directory ho hd =>
      obtain ⟨entries, hd⟩ := hd
      refine resolve_congr ?_
      rw [List.cons_append, descend_ordinary ho (hb.2 _), hd]
  | @link _ _ rest ho hl =>
      have hgo : ¬ ((rest ++ b).isEmpty && decide (aim = .entry)) = true := by
        rw [Bool.and_eq_true, List.isEmpty_iff, decide_eq_true_iff]
        rintro ⟨hempty, haim⟩
        exact hb.1 haim (List.append_eq_nil_iff.1 hempty).2
      rw [resolve, List.cons_append, descend_ordinary ho (hb.2 _), hl]
      simp only [hgo, Bool.false_eq_true, if_false, Landing.place, List.append_assoc]

/-- **Resolution goes along a way, and on from its end with the links that are left.** -/
theorem Walks.resolve_append (h : Walks top l names n d left) (hb : GoesOn aim b) :
    resolve top aim (links + n) l (names ++ b) = resolve top aim links d (left ++ b) := by
  induction h with
  | refl => rfl
  | head hop _ ih =>
      rw [← Nat.add_assoc, hop.resolve_append hb]
      exact ih

/-- The same where another name than the empty one stands at the end. -/
theorem Walks.resolve_concat (h : Walks top l names n d left) (hlast : last ≠ emptyName) :
    resolve top aim (links + n) l (names ++ [last]) = resolve top aim links d (left ++ [last]) :=
  h.resolve_append (goesOn_concat hlast)

/-- Where a way to a node stops, resolution stops as well. -/
theorem Ends.resolve (h : Ends top .node l names m) : resolve top .node links l names = .ok (m, top.at? m) := by
  have hd : descend top .node l names = .reached m (top.at? m) := by
    cases h with
    | here => rfl
    | @entry name ho hd hl =>
        rw [descend_ordinary ho (by simp)]
        cases hnode : top.at? (l ++ [name]) with
        | none => rfl
        | some node =>
            cases node with
            | file bytes => rfl
            | link target => exact absurd ⟨target, hnode⟩ (hl (by decide))
            | directory entries => exact absurd ⟨entries, hnode⟩ hd
  cases links with
  | zero => rw [FileSystem.resolve, hd]; rfl
  | succ links => rw [FileSystem.resolve, hd]; rfl

/-- **Resolution finds what a way to a node leads to**, if it may follow as many links. -/
theorem Leads.resolve (h : Leads top .node l names n m) (hn : n ≤ links) :
    resolve top .node links l names = .ok (m, top.at? m) := by
  obtain ⟨d, left, hw, he⟩ := h
  have hway : FileSystem.resolve top .node (links - n + n) l (names ++ []) = _ :=
    hw.resolve_append goesOn_node
  rw [Nat.sub_add_cancel hn, List.append_nil, List.append_nil] at hway
  rw [hway]
  exact he.resolve

/-- The entry of an ordinary name is found as it is. -/
theorem resolve_entry (ho : isOrdinary name = true) :
    resolve top .entry links d [name] = .ok (d ++ [name], top.at? (d ++ [name])) := by
  have hd : descend top .entry d [name] = .reached (d ++ [name]) (top.at? (d ++ [name])) := by
    rw [descend_ordinary ho (by simp)]
    cases hnode : top.at? (d ++ [name]) with
    | none => rfl
    | some node =>
        cases node with
        | file bytes => rfl
        | link target => rfl
        | directory entries => exact congrArg _ hnode
  cases links with
  | zero => rw [resolve, hd]; rfl
  | succ links => rw [resolve, hd]; rfl

theorem resolve_nil : resolve top aim links l [] = .ok (l, top.at? l) := by
  cases links <;> rfl

/-- A name that is not looked up leads to one place, whatever is looked for. -/
theorem resolve_of_parent_or_self (hname : name = parentName ∨ name = selfName ∨ name = emptyName) :
    ∃ d, ∀ aim, resolve top aim links l [name] = .ok (d, top.at? d) := by
  rcases hname with rfl | hname
  · refine ⟨l.dropLast, fun aim => ?_⟩
    rw [resolve_congr descend_parent, resolve_nil]
  · refine ⟨l, fun aim => ?_⟩
    rw [resolve_congr (descend_self hname), resolve_nil]

/-- The missing entry of an ordinary name is found as missing, whatever is looked for. -/
theorem resolve_missing (ho : isOrdinary name = true) (hnone : top.at? (d ++ [name]) = none) :
    resolve top aim links d [name] = .ok (d ++ [name], none) := by
  have hd : descend top aim d [name] = .reached (d ++ [name]) none := by
    rw [descend_ordinary ho (by simp), hnone]
    rfl
  cases links with
  | zero => rw [resolve, hd]; rfl
  | succ links => rw [resolve, hd]; rfl

end PolicyTable.FileSystem
