import PolicyTable.Annotations.Table
import PolicyTable.Proofs.Annotations.Kinds

/-!
# `PolicyTable.Proofs.Annotations.Table` — the records read back from a document

Cells are written as they are, so a document says which records it was made of only because of what records
are made of. Their texts stand on one line, since they come out of comments, and no group or kind has a space in
it, since they come out of words. The reader here undoes the printer: lines at line ends, cells at bars, names at
a comma with a space.

## Contents
- **Reader.** `namesOf`, `Record.ofRow?`, `dataRows` and `recordsOfDocument?`.
- **Records.** `Record.Tidy` says what records are made of, and `Reading.Tidy` is the invariant of reading
  comments that carries it.
- **Layout.** `split_document` and `cr_not_mem_document`.
- **Round trip.** `Record.ofRow?_row` and `recordsOfDocument?_document`.
-/

namespace PolicyTable.Annotations

open Rego (Comment)

variable {c : Comment} {comments : List Comment} {s t : Reading} {r : Record} {records : List Record}
  {text name : Text} {names : List Text}

/-! ## Reader -/

/-- The name before the first comma with a space, and the names after it. -/
def namesHead : Text → Text × List Text
  | [] => ([], [])
  | ',' :: ' ' :: r => let (name, names) := namesHead r; ([], name :: names)
  | c :: r => let (name, names) := namesHead r; (c :: name, names)

/-- The names of a cell, cut at every comma with a space. -/
def namesOf (cell : Text) : List Text := let (name, names) := namesHead cell; name :: names

/-- The record of a line of the table, cut at its bars. -/
def Record.ofRow? (line : Text) : Option Record :=
  match Text.split '|' line with
  | [[], groups, kinds, description, []] => some ⟨namesOf groups, namesOf kinds, description⟩
  | _ => none

/-- The lines of a document below its head. -/
def dataRows (text : Text) : List Text := ((Text.split '\n' text).drop headLines.length).dropLast

/-- The records of a document. -/
def recordsOfDocument? (text : Text) : Option (List Record) := (dataRows text).mapM Record.ofRow?

/-! ## Records -/

/-- The text has no line end in it. -/
def OneLine (t : Text) : Prop := '\n' ∉ t ∧ '\r' ∉ t

/-- All texts of a record. -/
def Record.texts (r : Record) : List Text := r.groups ++ r.kinds ++ [r.description]

/-- **What records are made of**: texts on one line, and names without spaces. A record that has kinds has the
    group of the first one. -/
structure Record.Tidy (r : Record) : Prop where
  oneLine : ∀ t ∈ r.texts, OneLine t
  spaceless : ∀ name ∈ r.groups ++ r.kinds, ' ' ∉ name
  groups_ne_nil : r.kinds ≠ [] → r.groups ≠ []

/-- The invariant of reading comments on one line. -/
structure Reading.Tidy (s : Reading) : Prop where
  description : OneLine s.description
  records : ∀ r ∈ s.records, r.Tidy

theorem OneLine.of_subset {t u : Text} (h : OneLine u) (hsub : ∀ c ∈ t, c ∈ u) : OneLine t :=
  ⟨fun hc => h.1 (hsub _ hc), fun hc => h.2 (hsub _ hc)⟩

/-- An annotation on one line makes a tidy record below a description on one line. -/
theorem Record.Writes.tidy {description : Text} (h : Record.Writes c description r) (hc : OneLine c.text)
    (hd : OneLine description) : r.Tidy := by
  refine ⟨fun t ht => ?_, h.spaceless, h.groups_ne_nil⟩
  rcases List.mem_append.1 ht with hname | hlast
  · obtain ⟨word, hword, hsub⟩ := h.exists_word hname
    exact hc.of_subset fun x hx => (of_mem_words hword).1 x (hsub x hx)
  · obtain ⟨_, _, _, _, _, hdescription⟩ := h
    rw [List.mem_singleton.1 hlast, hdescription]
    exact hd.of_subset fun x hx => Text.mem_of_mem_trimBy hx

/-- **One more comment on one line keeps the records tidy.** -/
theorem Reading.Tidy.next (hs : s.Tidy) (hc : OneLine c.text) (h : s.next c = .ok t) : t.Tidy := by
  unfold Reading.next at h
  by_cases hm : isMarked c = true
  · rw [if_pos hm] at h
    obtain ⟨r, hr, rfl⟩ := map_eq_ok_iff.1 h
    refine ⟨hs.description, fun r' hr' => ?_⟩
    rcases List.mem_append.1 hr' with hold | hnew
    · exact hs.records r' hold
    · rw [List.mem_singleton.1 hnew]
      exact (Record.writes_of_ofComment hr).tidy hc hs.description
  · rw [if_neg hm] at h
    cases h
    exact ⟨hc, hs.records⟩

/-- Comments on one line have tidy records. -/
theorem tidy_of_recordsOf (hc : ∀ c ∈ comments, OneLine c.text) (h : recordsOf comments = .ok records) :
    ∀ r ∈ records, r.Tidy := by
  obtain ⟨t, ht, rfl⟩ := map_eq_ok_iff.1 h
  have htidy : (∀ c ∈ comments, OneLine c.text) → t.Tidy := by
    refine foldlM_invariant (P := fun before s => (∀ c ∈ before, OneLine c.text) → s.Tidy) ?_ ?_ ht
    · exact fun _ => ⟨by simp [OneLine], by simp⟩
    · intro before c s t hbefore hnext hall
      have hs := hbefore fun d hd => hall d (List.mem_append_left _ hd)
      exact hs.next (hall c (by simp)) hnext
  exact (htidy hc).records

/-! ## Layout -/

/-- The pieces between the bars of a line. -/
theorem split_row {cells : List Text} (hne : cells ≠ []) (h : ∀ cell ∈ cells, '|' ∉ cell) :
    Text.split '|' (row cells) = [] :: cells ++ [[]] := by
  have hrow : row cells = List.intercalate ['|'] (([] :: cells) ++ [[]]) := by
    rw [Text.intercalate_concat (by simp), List.intercalate_cons_of_ne_nil hne]
    simp [row]
  rw [hrow, Text.split_intercalate ?_ (by simp)]
  intro cell hcell
  rcases List.mem_append.1 hcell with hcell | hcell
  · rcases List.mem_cons.1 hcell with rfl | hcell
    · exact List.not_mem_nil
    · exact h cell hcell
  · rw [List.mem_singleton.1 hcell]
    exact List.not_mem_nil

/-- The cells of a record. -/
def Record.cells (r : Record) : List Text :=
  [List.intercalate comma r.groups, List.intercalate comma r.kinds, r.description]

theorem Record.row_eq (r : Record) : r.row = Annotations.row r.cells := rfl

/-- The cells have nothing in them but the texts of the record, commas and spaces. -/
theorem Record.not_mem_cells {x : Char} (hx : x ∉ comma) (h : ∀ t ∈ r.texts, x ∉ t) : ∀ cell ∈ r.cells, x ∉ cell := by
  simp only [texts, List.mem_append, List.mem_singleton] at h
  simp only [cells, List.forall_mem_cons, List.not_mem_nil, false_imp_iff, implies_true, and_true]
  exact ⟨Text.not_mem_intercalate hx fun g hg => h g (.inl (.inl hg)),
    Text.not_mem_intercalate hx fun k hk => h k (.inl (.inr hk)), h _ (.inr rfl)⟩

theorem not_mem_row {cells : List Text} {c : Char} (hc : c ≠ '|') (h : ∀ cell ∈ cells, c ∉ cell) :
    c ∉ row cells := by
  have hcells : c ∉ List.intercalate ['|'] cells := Text.not_mem_intercalate (by simpa using hc) h
  simp [row, hc, hcells]

/-- The line of a tidy record is one line. -/
theorem Record.Tidy.oneLine_row (h : r.Tidy) : OneLine r.row :=
  ⟨not_mem_row (by decide) (not_mem_cells (by decide) fun t ht => (h.oneLine t ht).1),
    not_mem_row (by decide) (not_mem_cells (by decide) fun t ht => (h.oneLine t ht).2)⟩

theorem oneLine_of_mem_headLines {line : Text} (h : line ∈ headLines) : OneLine line := by
  have hall : ∀ line ∈ headLines, '\n' ∉ line ∧ '\r' ∉ line := by decide
  exact hall line h

/-- All lines of a document end with a line end. -/
theorem document_eq (records : List Record) :
    document records = List.intercalate ['\n'] (headLines ++ records.map Record.row ++ [[]]) := by
  rw [Text.intercalate_concat (by simp [headLines]), List.append_nil]
  rfl

/-- **The lines of a document**: those of the head, and one for each record. -/
theorem split_document (h : ∀ r ∈ records, r.Tidy) :
    Text.split '\n' (document records) = headLines ++ records.map Record.row ++ [[]] := by
  rw [document_eq, Text.split_intercalate ?_ (by simp)]
  intro line hline
  rcases List.mem_append.1 hline with hline | hline
  · rcases List.mem_append.1 hline with hhead | hrow
    · exact (oneLine_of_mem_headLines hhead).1
    · obtain ⟨r, hr, rfl⟩ := List.mem_map.1 hrow
      exact (h r hr).oneLine_row.1
  · rw [List.mem_singleton.1 hline]
    exact List.not_mem_nil

theorem cr_not_mem_document (h : ∀ r ∈ records, r.Tidy) : '\r' ∉ document records := by
  refine List.not_mem_append (Text.not_mem_intercalate (by decide) fun line hline => ?_) (by decide)
  rcases List.mem_append.1 hline with hhead | hrow
  · exact (oneLine_of_mem_headLines hhead).2
  · obtain ⟨r, hr, rfl⟩ := List.mem_map.1 hrow
    exact (h r hr).oneLine_row.2

/-- The lines below the head are those of the records. -/
theorem dataRows_document (h : ∀ r ∈ records, r.Tidy) :
    dataRows (document records) = records.map Record.row := by
  rw [dataRows, split_document h, List.append_assoc, List.drop_left, List.dropLast_concat]

theorem count_document (h : ∀ r ∈ records, r.Tidy) :
    (document records).count '\n' = headLines.length + records.length := by
  have hlength := Text.length_split '\n' (document records)
  rw [split_document h] at hlength
  simp only [List.length_append, List.length_map, List.length_singleton] at hlength
  omega

/-! ## Round trip -/

/-- A character that starts no comma with a space belongs to the name. -/
theorem namesHead_cons {c : Char} (h : c = ',' → text.head? ≠ some ' ') :
    namesHead (c :: text) = (c :: (namesHead text).1, (namesHead text).2) := by
  rw [namesHead]
  rintro r rfl rfl
  exact h rfl rfl

/-- A name without spaces ends at the first comma with a space. -/
theorem namesHead_append (h : ' ' ∉ name) (text : Text) :
    namesHead (name ++ (comma ++ text)) = (name, namesOf text) := by
  induction name with
  | nil => rfl
  | cons c r ih =>
      rw [List.cons_append, namesHead_cons, ih (List.not_mem_of_not_mem_cons h)]
      -- Behind `c` stands a character of the name or the comma, and neither is a space.
      cases r with
      | nil => simp [comma]
      | cons d r =>
          rintro - hd
          simp at hd h
          exact h.2.1 hd.symm

theorem namesHead_of_not_mem (h : ' ' ∉ name) : namesHead name = (name, []) := by
  induction name with
  | nil => rfl
  | cons c r ih =>
      rw [namesHead_cons, ih (List.not_mem_of_not_mem_cons h)]
      rintro - hr
      exact h (List.mem_cons_of_mem _ (List.mem_of_head? hr))

/-- **Names without spaces are read back**, whatever commas they have. -/
theorem namesOf_intercalate (hne : names ≠ []) (h : ∀ name ∈ names, ' ' ∉ name) :
    namesOf (List.intercalate comma names) = names := by
  induction names with
  | nil => exact absurd rfl hne
  | cons name names ih =>
      obtain ⟨hname, hnames⟩ := List.forall_mem_cons.1 h
      cases names with
      | nil => rw [List.intercalate_singleton, namesOf, namesHead_of_not_mem hname]
      | cons next names =>
          rw [List.intercalate_cons_cons, List.append_assoc, namesOf, namesHead_append hname,
            ih (by simp) hnames]

/-- No text of the record has a bar in it. -/
def Record.BarFree (r : Record) : Prop := ∀ t ∈ r.texts, '|' ∉ t

/-- **A record is read back from its line** if it has a kind and no bar. -/
theorem Record.ofRow?_row (h : r.Tidy) (hbar : r.BarFree) (hkinds : r.kinds ≠ []) :
    Record.ofRow? r.row = some r := by
  have hgroups := namesOf_intercalate (h.groups_ne_nil hkinds) fun g hg => h.spaceless g (List.mem_append_left _ hg)
  have hkinds := namesOf_intercalate hkinds fun k hk => h.spaceless k (List.mem_append_right _ hk)
  rw [ofRow?, row_eq, split_row (by simp [cells]) (not_mem_cells (by decide) hbar)]
  simp only [cells, List.cons_append, List.nil_append, hgroups, hkinds]

/-- **The records of a document are read back.** -/
theorem recordsOfDocument?_document (h : ∀ r ∈ records, r.Tidy)
    (hbar : ∀ r ∈ records, r.BarFree ∧ r.kinds ≠ []) : recordsOfDocument? (document records) = some records := by
  rw [recordsOfDocument?, dataRows_document h]
  induction records with
  | nil => rfl
  | cons r records ih =>
      obtain ⟨hr, hrecords⟩ := List.forall_mem_cons.1 h
      obtain ⟨⟨hfree, hkinds⟩, hall⟩ := List.forall_mem_cons.1 hbar
      rw [List.map_cons, List.mapM_cons, Record.ofRow?_row hr hfree hkinds, ih hrecords hall]
      rfl

end PolicyTable.Annotations
