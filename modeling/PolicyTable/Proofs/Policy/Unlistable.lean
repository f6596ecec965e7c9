import PolicyTable.Proofs.Policy.FirstStop

/-!
# `PolicyTable.Proofs.Policy.Unlistable` — when the walk reports that it cannot collect

A walk ends with a report if its root is missing or no directory, or at a directory that cannot be listed. Of
several such directories it reports the first one in the order of the walk, provided that it can look at all that
stands up to there: an entry that refuses the look stops it before, with no report. Directories that the walk does
not come to make no difference, whether or not they can be listed.

## Contents
- **First ones.** `UnlistableAt`, `FirstUnlistable` and `ViewableUpTo`; `stopsAt_failed_iff`.
- **Order of look and listing.** `probe_of_listed_eq_error`: a directory is looked at before it is listed.
- **Reports.** `collect_eq_report_iff` for a root that is a directory.
- **Other directories.** `listed_setUnlistable`: only the directories of the walk count.

Main statement: `collect_reports`.
-/

namespace PolicyTable.Policy

open FileSystem

variable {w : World} {s : Selection} {path root : Path} {d : Location} {entries : Entries} {name : Name}
  {node dir : Node} {names : List Name} {failure : Failure} {unlistable' : List Text}

/-! ## First ones -/

/-- The names lead to a directory of the walk that cannot be listed. -/
def UnlistableAt (w : World) (root : Path) (dir : Node) (names : List Name) : Prop :=
  Entered dir names ∧ (root.below names).text ∈ w.unlistable

/-- That directory comes before all others of this kind. -/
def FirstUnlistable (w : World) (root : Path) (dir : Node) (names : List Name) : Prop :=
  UnlistableAt w root dir names ∧
    ∀ names', UnlistableAt w root dir names' → names' = names ∨ NamesBefore names names'

/-- Every entry up to and including the one with the names can be looked at. -/
def ViewableUpTo (w : World) (root : Path) (dir : Node) (names : List Name) : Prop :=
  ∀ front name node, Entered dir front → dir.at? (front ++ [name]) = some node →
    front ++ [name] = names ∨ NamesBefore (front ++ [name]) names →
      ∃ node?, w.probe .node (root.below (front ++ [name])) = .ok node?

/-- The report about a directory that cannot be listed. -/
def unlistableReport (path : Path) : Failure := .collecting path (.refused { cause := .permissionDenied, path })

theorem unlistableReport_below_inj {a b : List Name} :
    unlistableReport (path.below a) = unlistableReport (path.below b) ↔ a = b := by
  constructor
  · intro heq
    injection heq with hpath
    exact List.append_cancel_left (congrArg Path.parts hpath)
  · rintro rfl
    rfl

/-- What stops the walk with a report is a directory that cannot be listed. -/
theorem stopsAt_failed_iff :
    StopsAt w path dir names (.failed failure) ↔
      UnlistableAt w path dir names ∧ failure = unlistableReport (path.below names) := by
  constructor
  · intro h
    cases h with
    | unlistable hentered hlisting => exact ⟨⟨hentered, hlisting⟩, rfl⟩
  · rintro ⟨⟨hentered, hlisting⟩, rfl⟩
    exact .unlistable hentered hlisting

/-! ## Order of look and listing -/

/-- Only a directory that can be looked at, and is not left out, gives a report. -/
theorem collectEntry_eq_failed (h : collectEntry w s path (name, node) = .error (.failed failure)) :
    ∃ entries, node = .directory entries ∧ isOverlong (path.child name) name = false ∧
      listed w (path.child name) (collectEach w s (path.child name) entries) = .error (.failed failure) := by
  cases node with
  | file bytes =>
      rw [collectEntry] at h
      split_ifs at h
      all_goals cases h
  | link target =>
      rw [collectEntry] at h
      split at h <;> cases h
  | directory entries =>
      rw [collectEntry] at h
      split_ifs at h with hlong hskip
      · cases h
      · exact ⟨entries, rfl, by simpa using hlong, h⟩

/-- **A directory below the root is looked at before it is listed**, and reported only if that went well. -/
theorem probe_of_listed_eq_error (w : World) (s : Selection) (node : Node) (path : Path) (d : Location)
    (entries : Entries) (names : List Name) (heq : node = .directory entries) (h : w.Reaches path d)
    (hnode : w.top.at? d = some node) (hw : node.WellFormed) (hne : names ≠ [])
    (hreport : listed w path (collectEach w s path entries) = .error (.failed (unlistableReport (path.below names)))) :
    ∃ node?, w.probe .node (path.below names) = .ok node? := by
  induction node using Node.induction generalizing path d entries names with
  | file bytes => cases heq
  | link target => cases heq
  | directory sub ih =>
      cases heq
      cases hw with
      | directory hd hnames hnodes =>
          rw [listed] at hreport
          split_ifs at hreport with hlisting
          · have hself : unlistableReport (path.below []) = unlistableReport (path.below names) := by
              rw [Path.below_nil]
              injection hreport with hstop
              injection hstop
            exact absurd (unlistableReport_below_inj.1 hself).symm hne
          · rw [listing_eq, map_eq_error_iff] at hreport
            obtain ⟨before, ⟨x, child⟩, after, hsplit, -, he⟩ := mapM_eq_error_iff.1 hreport
            have hmem : (x, child) ∈ sub := Entries.mem_byName.1 (hsplit ▸ List.mem_append_right _ List.mem_cons_self)
            have hchild : w.top.at? (d ++ [x]) = some child := by
              rw [Node.at?_append, hnode, Option.bind_some, Node.at?_directory_cons,
                (Entries.get?_eq_some_iff hd).2 hmem, Option.bind_some, Node.at?_nil]
            obtain ⟨entries, rfl, hlong, hbelow⟩ := collectEntry_eq_failed he
            have hlook := h.probe_child (hnames _ hmem) hchild rfl
            rw [isOverlong] at hlong
            rw [if_neg (by simp [hlong])] at hlook
            have hreaches := h.child ((hnames _ hmem).isOrdinary (by simp_all)) (hnames _ hmem).no_nul ⟨_, hchild⟩
            -- the report is about a directory at or below this entry, so the names begin with its name
            have hstops := listed_stopsFirst w s _ _ _ entries rfl hreaches hchild (hnodes _ hmem)
            rw [hbelow] at hstops
            obtain ⟨rest, hstops, -⟩ := hstops
            obtain ⟨-, hfailure⟩ := stopsAt_failed_iff.1 hstops
            rw [← Path.below_cons] at hfailure
            obtain rfl := unlistableReport_below_inj.1 hfailure
            by_cases hrest : rest = []
            · subst hrest
              rw [Path.below_cons, Path.below_nil]
              exact ⟨_, hlook⟩
            · rw [Path.below_cons] at hbelow ⊢
              exact ih _ hmem _ _ _ rest rfl hreaches hchild (hnodes _ hmem) hrest hbelow

/-! ## Reports -/

/-- **The walk through a directory ends with a report** just if there is a first directory that cannot be listed
    and all entries up to there can be looked at; then the report is about that directory. -/
theorem collect_eq_report_iff (hw : w.top.WellFormed)
    (hroot : w.probe .node root = .ok (some (.directory entries))) :
    collect w s root = .error (.failed failure) ↔
      ∃ names, FirstUnlistable w root (.directory entries) names ∧ ViewableUpTo w root (.directory entries) names ∧
        failure = unlistableReport (root.below names) := by
  have hfirst := @collect_stopsFirst w s root entries hw hroot
  constructor
  · intro hreport
    rw [hreport] at hfirst
    obtain ⟨names, hstops, hfirst⟩ := hfirst
    obtain ⟨hunlistable, rfl⟩ := stopsAt_failed_iff.1 hstops
    refine ⟨names, ⟨hunlistable, fun names' hunlistable' => ?_⟩, fun front name node hentered hnode hbefore => ?_, rfl⟩
    · have hnot := hfirst names' _ (stopsAt_failed_iff.2 ⟨hunlistable', rfl⟩)
      rcases trichotomous_of NamesBefore names' names with hlt | heq | hgt
      · exact absurd hlt hnot
      · exact .inl heq
      · exact .inr hgt
    · cases hlook : w.probe .node (root.below (front ++ [name])) with
      | ok node? => exact ⟨node?, rfl⟩
      | error fault =>
          rcases hbefore with rfl | hbefore
          · obtain ⟨d, hreaches, hd⟩ := World.exists_reaches hroot
            rw [collect, hroot] at hreport
            obtain ⟨node?, hlook'⟩ := probe_of_listed_eq_error w s _ root d entries _ rfl hreaches hd (hw.at? hd)
              (by simp) hreport
            rw [hlook] at hlook'
            cases hlook'
          · exact absurd hbefore (hfirst _ _ (.refused hentered hnode hlook))
  · rintro ⟨names, ⟨hunlistable, hleast⟩, hview, rfl⟩
    have hstops := stopsAt_failed_iff.2 ⟨hunlistable, rfl⟩
    cases hresult : collect w s root with
    | ok files =>
        rw [hresult] at hfirst
        exact absurd hstops (hfirst _ _)
    | error stop =>
        rw [hresult] at hfirst
        obtain ⟨names', hstops', hfirst⟩ := hfirst
        cases stop with
        | failed failure =>
            obtain ⟨hunlistable', rfl⟩ := stopsAt_failed_iff.1 hstops'
            rcases hleast names' hunlistable' with rfl | hlt
            · rfl
            · exact absurd hlt (hfirst _ _ hstops)
        | crashed crash =>
            cases hstops' with
            | @refused front name node fault hentered hnode hlook =>
                have hbefore : front ++ [name] = names ∨ NamesBefore (front ++ [name]) names := by
                  rcases trichotomous_of NamesBefore (front ++ [name]) names with hlt | heq | hgt
                  · exact .inr hlt
                  · exact .inl heq
                  · exact absurd hgt (hfirst _ _ hstops)
                obtain ⟨node?, hlook'⟩ := hview _ _ _ hentered hnode hbefore
                rw [hlook] at hlook'
                cases hlook'

/-- Where every entry can be looked at, one directory that cannot be listed is enough. -/
theorem exists_report_iff (hw : w.top.WellFormed) (hroot : w.probe .node root = .ok (some (.directory entries)))
    (hview : Viewable w root (.directory entries)) :
    (∃ failure, collect w s root = .error (.failed failure)) ↔
      ∃ names, UnlistableAt w root (.directory entries) names := by
  constructor
  · rintro ⟨failure, hreport⟩
    obtain ⟨names, hfirst, -⟩ := (collect_eq_report_iff hw hroot).1 hreport
    exact ⟨names, hfirst.1⟩
  · rintro ⟨names, hunlistable⟩
    have hfirst := @collect_stopsFirst w s root entries hw hroot
    cases hresult : collect w s root with
    | ok files =>
        rw [hresult] at hfirst
        exact absurd (stopsAt_failed_iff.2 ⟨hunlistable, rfl⟩) (hfirst _ _)
    | error stop =>
        rw [hresult] at hfirst
        obtain ⟨_, hstops, -⟩ := hfirst
        cases hstops with
        | unlistable => exact ⟨_, rfl⟩
        | refused hentered hnode hlook =>
            obtain ⟨node?, hlook'⟩ := hview _ _ _ hentered hnode
            rw [hlook] at hlook'
            cases hlook'

/-! ## Other directories -/

/-- The same world, in which other directories cannot be listed. -/
def setUnlistable (w : World) (unlistable' : List Text) : World := { w with unlistable := unlistable' }

@[simp] theorem probe_setUnlistable (aim : Aim) (p : Path) :
    (setUnlistable w unlistable').probe aim p = w.probe aim p := rfl

/-- **Only the directories of the walk count** among those that cannot be listed. -/
theorem listed_setUnlistable (s : Selection) (node : Node) (path : Path) (entries : Entries)
    (heq : node = .directory entries) (hw : node.WellFormed)
    (hsame : ∀ names, Entered node names →
      ((path.below names).text ∈ unlistable' ↔ (path.below names).text ∈ w.unlistable)) :
    listed (setUnlistable w unlistable') path (collectEach (setUnlistable w unlistable') s path entries) =
      listed w path (collectEach w s path entries) := by
  induction node using Node.induction generalizing path entries with
  | file bytes => cases heq
  | link target => cases heq
  | directory sub ih =>
      cases heq
      cases hw with
      | directory hd hnames hnodes =>
          have hself := hsame [] entered_nil
          rw [Path.below_nil] at hself
          have hentries : collectEach (setUnlistable w unlistable') s path sub = collectEach w s path sub := by
            rw [collectEach_eq_map, collectEach_eq_map]
            refine List.map_congr_left ?_
            rintro ⟨x, child⟩ hmem
            cases child with
            | file bytes => rw [collectEntry, collectEntry]
            | link target => rw [collectEntry, collectEntry, probe_setUnlistable]
            | directory below =>
                rw [collectEntry, collectEntry]
                by_cases hskip : x = skippedName
                · simp only [if_pos hskip]
                · rw [ih _ hmem (path.child x) below rfl (hnodes _ hmem)]
                  intro names hentered
                  rw [← Path.below_cons]
                  exact hsame _ (entered_cons_iff.2 ⟨hskip, _, (Entries.get?_eq_some_iff hd).2 hmem, hentered⟩)
          rw [listed, listed, hentries]
          simp only [setUnlistable, List.contains_eq_mem, decide_eq_true_eq, hself]

/-! ## Any root -/

/-- A root that is there and is no directory is reported as such. -/
theorem collect_of_isDirectory_eq_false (hroot : w.probe .node root = .ok (some node))
    (hdir : node.isDirectory = false) : collect w s root = .error (.failed (.collecting root .notDirectory)) := by
  rw [collect, hroot]
  cases node with
  | file bytes => rfl
  | link target => rfl
  | directory entries => cases hdir

theorem FirstUnlistable.isDirectory (h : FirstUnlistable w root dir names) : dir.isDirectory = true := by
  obtain ⟨entries, rfl⟩ := h.1.1.exists_entries
  rfl

/-- The three reports of a walk. -/
theorem collect_eq_failed_iff (hw : w.top.WellFormed) (s : Selection) (root : Path) (failure : Failure) :
    collect w s root = .error (.failed failure) ↔
      (w.probe .node root = .ok none ∧ failure = .collecting root .missing) ∨
      (∃ node, w.probe .node root = .ok (some node) ∧ node.isDirectory = false ∧
        failure = .collecting root .notDirectory) ∨
      ∃ dir names, w.probe .node root = .ok (some dir) ∧ FirstUnlistable w root dir names ∧
        ViewableUpTo w root dir names ∧ failure = unlistableReport (root.below names) := by
  cases hroot : w.probe .node root with
  | error fault =>
      have hcrash : collect w s root = .error (.crashed (.refused fault)) := by rw [collect, hroot]
      simp [hcrash]
  | ok node? =>
      cases node? with
      | none =>
          have hmissing : collect w s root = .error (.failed (.collecting root .missing)) := by rw [collect, hroot]
          simpa [hmissing] using eq_comm
      | some node =>
          cases hdir : node.isDirectory with
          | false =>
              have hnone (names : List Name) : ¬ FirstUnlistable w root node names := fun hfirst => by
                rw [hfirst.isDirectory] at hdir
                cases hdir
              simpa [collect_of_isDirectory_eq_false hroot hdir, hdir, hnone] using eq_comm
          | true =>
              cases node with
              | file bytes => cases hdir
              | link target => cases hdir
              | directory entries => simpa [hdir] using collect_eq_report_iff hw hroot

/-- Where every entry can be looked at, a walk ends with a report just if its root is no directory or one directory
    cannot be listed. -/
theorem exists_failed_iff (hw : w.top.WellFormed) (s : Selection) (hroot : w.probe .node root = .ok (some dir))
    (hview : Viewable w root dir) :
    (∃ failure, collect w s root = .error (.failed failure)) ↔
      dir.isDirectory = false ∨ ∃ names, UnlistableAt w root dir names := by
  cases hdir : dir.isDirectory with
  | false => exact iff_of_true ⟨_, collect_of_isDirectory_eq_false hroot hdir⟩ (.inl rfl)
  | true =>
      cases dir with
      | file bytes => cases hdir
      | link target => cases hdir
      | directory entries => simpa using exists_report_iff hw hroot hview

/-- Directories that the walk does not come to have no influence on it. -/
theorem collect_setUnlistable (hw : w.top.WellFormed) (s : Selection) (root : Path)
    (hsame : ∀ dir names, w.probe .node root = .ok (some dir) → Entered dir names →
      ((root.below names).text ∈ unlistable' ↔ (root.below names).text ∈ w.unlistable)) :
    collect (setUnlistable w unlistable') s root = collect w s root := by
  rw [collect, collect, probe_setUnlistable]
  cases hroot : w.probe .node root with
  | error fault => rfl
  | ok node? =>
      rcases node? with _ | (bytes | target | entries)
      · rfl
      · rfl
      · rfl
      · obtain ⟨d, -, hd⟩ := World.exists_reaches hroot
        exact listed_setUnlistable s _ root entries rfl (hw.at? hd) fun names => hsame _ names hroot

/-! ## Main statement -/

/-- **What the walk reports.** A walk ends with a report if and only if its root is missing, or is no directory,
    or a directory of the walk cannot be listed and everything up to the first such directory can be looked at;
    the report is about that directory. Where all entries can be looked at, every directory of the walk that
    cannot be listed leads to a report. No other directory has any influence. -/
theorem collect_reports (hw : w.top.WellFormed) (s : Selection) (root : Path) :
    (∀ failure, collect w s root = .error (.failed failure) ↔
      (w.probe .node root = .ok none ∧ failure = .collecting root .missing) ∨
      (∃ node, w.probe .node root = .ok (some node) ∧ node.isDirectory = false ∧
        failure = .collecting root .notDirectory) ∨
      ∃ dir names, w.probe .node root = .ok (some dir) ∧ FirstUnlistable w root dir names ∧
        ViewableUpTo w root dir names ∧ failure = unlistableReport (root.below names)) ∧
    (∀ dir, w.probe .node root = .ok (some dir) → Viewable w root dir →
      ((∃ failure, collect w s root = .error (.failed failure)) ↔
        dir.isDirectory = false ∨ ∃ names, UnlistableAt w root dir names)) ∧
    ∀ unlistable', (∀ dir names, w.probe .node root = .ok (some dir) → Entered dir names →
        ((root.below names).text ∈ unlistable' ↔ (root.below names).text ∈ w.unlistable)) →
      collect (setUnlistable w unlistable') s root = collect w s root :=
  ⟨collect_eq_failed_iff hw s root, fun _ hroot hview => exists_failed_iff hw s hroot hview,
    fun _ hsame => collect_setUnlistable hw s root hsame⟩

/-- Two directories that cannot be listed, the first of them deeper down, and two more that the walk does not go
    into: one by its name, and one that only a link leads to. -/
def reportEntries : Entries :=
  [(".git".toList, .directory []), ("a".toList, .directory [("sub".toList, .directory [])]),
    ("b".toList, .directory []), ("c".toList, .link ".".toList)]

def reportWorld : World where
  top := .directory reportEntries
  here := []
  unlistable := ["c".toList, "b".toList, "a/sub".toList, ".git".toList]

theorem wellFormed_report : (Node.directory reportEntries).WellFormed := by
  refine .directory (by decide) (by decide) ?_
  simp only [reportEntries, List.forall_mem_cons, List.not_mem_nil, false_imp_iff, implies_true, and_true]
  refine ⟨.flat (by decide) (by decide) (by decide), .directory (by decide) (by decide) ?_,
    .flat (by decide) (by decide) (by decide), .link⟩
  simpa using .flat (by decide) (by decide) (by decide)

theorem entered_report (h : Entered (.directory reportEntries) names) :
    names ∈ [[], ["a".toList], ["a".toList, "sub".toList], ["b".toList]] := by
  cases names with
  | nil => decide
  | cons x r =>
      obtain ⟨hx, child, hchild, hr⟩ := entered_cons_iff.1 h
      have hmem := (Entries.get?_eq_some_iff (by decide)).1 hchild
      simp only [reportEntries, List.mem_cons, Prod.mk.injEq, List.not_mem_nil, or_false] at hmem
      rcases hmem with ⟨rfl, -⟩ | ⟨rfl, rfl⟩ | ⟨rfl, rfl⟩ | ⟨rfl, rfl⟩
      · exact absurd rfl hx
      · cases r with
        | nil => decide
        | cons y r =>
            obtain ⟨-, sub, hsub, hr⟩ := entered_cons_iff.1 hr
            have hmem := (Entries.get?_eq_some_iff (by decide)).1 hsub
            obtain ⟨rfl, rfl⟩ : y = "sub".toList ∧ sub = .directory [] := by simpa using hmem
            cases r with
            | nil => decide
            | cons z r =>
                obtain ⟨-, _, hnone, -⟩ := entered_cons_iff.1 hr
                cases hnone
      · cases r with
        | nil => decide
        | cons y r =>
            obtain ⟨-, _, hnone, -⟩ := entered_cons_iff.1 hr
            cases hnone
      · obtain ⟨_, hlink⟩ := hr.exists_entries
        cases hlink

theorem collect_reports_deeper :
    reportWorld.top.WellFormed ∧
      collect reportWorld Compiler.plain.policyFiles (.ofText ".".toList) =
        .error (.failed (unlistableReport (.ofText "a/sub".toList))) ∧
      FirstUnlistable reportWorld (.ofText ".".toList) reportWorld.top ["a".toList, "sub".toList] ∧
      collect (setUnlistable reportWorld ["b".toList, "a/sub".toList]) Compiler.plain.policyFiles (.ofText ".".toList) =
        collect reportWorld Compiler.plain.policyFiles (.ofText ".".toList) := by
  obtain ⟨hreport, -, hother⟩ :=
    @collect_reports reportWorld wellFormed_report Compiler.plain.policyFiles (.ofText ".".toList)
  have hcollect : collect reportWorld Compiler.plain.policyFiles (.ofText ".".toList) =
      .error (.failed (unlistableReport (.ofText "a/sub".toList))) := by
    rw [@collect_eq_of_sorted _ _ _ reportEntries rfl (by decide) (by decide)]
    decide +kernel
  refine ⟨wellFormed_report, hcollect, ?_, hother _ fun dir names hdir hentered => ?_⟩
  · rcases (hreport _).1 hcollect with ⟨hmissing, -⟩ | ⟨_, -, -, hfailure⟩ | ⟨dir, names, hdir, hfirst, -, hfailure⟩
    · cases hmissing
    · cases hfailure
    · obtain rfl : reportWorld.top = dir := Option.some.inj (Except.ok.inj hdir)
      have hpath : Path.ofText "a/sub".toList = (Path.ofText ".".toList).below ["a".toList, "sub".toList] := by decide
      rw [hpath] at hfailure
      obtain rfl := unlistableReport_below_inj.1 hfailure
      exact hfirst
  · obtain rfl : reportWorld.top = dir := Option.some.inj (Except.ok.inj hdir)
    have hnames := entered_report hentered
    simp only [List.mem_cons, List.not_mem_nil, or_false] at hnames
    rcases hnames with rfl | rfl | rfl | rfl
    all_goals decide

/-- A directory that cannot be listed, behind a link whose target is a name that is too long. -/
def hiddenEntries : Entries := [("a".toList, .link (List.replicate 256 'x')), ("b".toList, .directory [])]

def hiddenWorld : World where
  top := .directory hiddenEntries
  here := []
  unlistable := ["b".toList]

/-- There the directory is on the walk, but the walk crashes at the link and reports nothing. -/
theorem collect_unreported :
    hiddenWorld.top.WellFormed ∧
      hiddenWorld.probe .node (.ofText ".".toList) = .ok (some hiddenWorld.top) ∧
      UnlistableAt hiddenWorld (.ofText ".".toList) hiddenWorld.top ["b".toList] ∧
      collect hiddenWorld Compiler.plain.policyFiles (.ofText ".".toList) =
        .error (.crashed (.refused { cause := .nameTooLong, path := .ofText "a".toList })) := by
  refine ⟨.directory (by decide) (by decide) ?_, rfl, ⟨⟨⟨[], rfl⟩, by decide⟩, by decide⟩, ?_⟩
  · simp only [hiddenEntries, List.forall_mem_cons, List.not_mem_nil, false_imp_iff, implies_true, and_true]
    exact ⟨.link, .flat (by decide) (by decide) (by decide)⟩
  · rw [@collect_eq_of_sorted _ _ _ hiddenEntries rfl (by decide) (by decide)]
    decide +kernel

end PolicyTable.Policy
