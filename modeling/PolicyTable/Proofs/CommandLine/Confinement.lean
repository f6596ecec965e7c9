import PolicyTable.Proofs.Policy.Sources
import PolicyTable.Proofs.Policy.WriteThrough

/-!
# `PolicyTable.Proofs.CommandLine.Confinement` — when the document lies in the directory that is documented

The document is asked for by a directory and a name, and its path is the second text read as a path below the first
one. If that text is one component, then the path is that of an entry of the directory, and the document is written
there. A text with slashes in it leads below the directory, above it, away from it or to an entry with another name,
and a dot leads to the directory itself. Only a blank text is refused.

## Contents
- **Names.** `Path.parent`; a text without a slash, if it is not empty and no dot, is one component
  (`Path.ofText_of_isPart`).
- **Joins.** `Path.child_join_iff`: which texts name an entry of the path that they are put below.
- **Writes.** `exists_written`: the document that is written at an entry of the directory is that entry.

Main statement: `optionsOf_confined`, with `optionsOf_unconfined` for a name with a slash in it.
-/

namespace PolicyTable.FileSystem

/-! ## Names -/

variable {p : Path} {t : Text}

/-- The path of the directory that a path lies in. A path without components lies in itself. -/
def Path.parent (p : Path) : Path := ⟨p.anchor, p.parts.dropLast⟩

@[simp] theorem Path.parent_child (p : Path) (name : Name) : (p.child name).parent = p := by
  simp [child, parent]

theorem Path.parent_ne (h : p.parts ≠ []) : p.parent ≠ p := by
  intro hparent
  have hlength : p.parts.dropLast.length = p.parts.length := congrArg (fun q : Path => q.parts.length) hparent
  have hpos := List.length_pos_of_ne_nil h
  rw [List.length_dropLast] at hlength
  omega

theorem Path.parts_ne_nil {name : Name} (h : p.name? = some name) : p.parts ≠ [] := by
  intro hnil
  rw [name?, hnil] at h
  cases h

theorem isPart_iff : isPart t = true ↔ t ≠ [] ∧ t ≠ ['.'] := by
  simp [isPart]

theorem Anchor.ofText_of_not_mem (h : '/' ∉ t) : Anchor.ofText t = .relative := by
  unfold Anchor.ofText
  split
  all_goals simp_all

/-- A text that is one component is read as that component. -/
theorem Path.ofText_of_isPart (hslash : '/' ∉ t) (hpart : isPart t = true) : Path.ofText t = ⟨.relative, [t]⟩ := by
  have hjoin : Text.split '/' (List.intercalate ['/'] [t]) = [t] :=
    Text.split_intercalate (by simpa using hslash) (by simp)
  rw [List.intercalate_singleton] at hjoin
  rw [ofText, Anchor.ofText_of_not_mem hslash, partsOf, hjoin, List.filter_cons_of_pos hpart, List.filter_nil]

/-! ## Joins -/

theorem Path.name?_join {q : Path} (p : Path) (hne : q.parts ≠ []) : (p.join q).name? = q.name? := by
  unfold join
  split
  · exact List.getLast?_append_of_ne_nil _ hne
  · rfl

/-- Put below a path, a path without components gives that path, or itself if it has an anchor. -/
theorem Path.join_of_parts_eq_nil {q : Path} (p : Path) (hnil : q.parts = []) : p.join q = p ∨ p.join q = q := by
  unfold join
  split
  · rw [hnil, List.append_nil]
    exact .inl rfl
  · exact .inr rfl

/-- **A text names an entry of the path that it is put below** exactly if it is one component. -/
theorem Path.child_join_iff (p : Path) (t : Text) :
    (p.join (.ofText t)).parent = p ∧ (p.join (.ofText t)).name? = some t ↔ '/' ∉ t ∧ isPart t = true := by
  constructor
  · rintro ⟨hparent, hname⟩
    have hne : (Path.ofText t).parts ≠ [] := by
      intro hnil
      rcases join_of_parts_eq_nil p hnil with hjoin | hjoin
      · rw [hjoin] at hparent hname
        exact parent_ne (parts_ne_nil hname) hparent
      · rw [hjoin] at hname
        exact parts_ne_nil hname hnil
    rw [name?_join p hne] at hname
    obtain ⟨hpiece, hpart⟩ := List.mem_filter.1 (List.mem_of_getLast? hname)
    exact ⟨Text.not_mem_of_mem_split hpiece, hpart⟩
  · rintro ⟨hslash, hpart⟩
    rw [ofText_of_isPart hslash hpart]
    exact ⟨parent_child p t, name?_child p t⟩

end PolicyTable.FileSystem

namespace PolicyTable.Policy

open FileSystem

variable {w w' : World} {root : Path} {d : Location} {name : Name} {text : Text}

/-! ## Writes -/

/-- **A document that is written at an entry of a directory is that entry**, if the entry was no link and nothing stood
    at the path of the temporary file. Everything else is as it was. -/
theorem exists_written (hreaches : w.Reaches root d) (hvacant : Vacant w (root.child name))
    (hlink : ∀ t, w.probe .entry (root.child name) ≠ .ok (some (.link t)))
    (h : writeDocument w (root.child name) text = (w', .ok ())) :
    w'.top.at? (d ++ [name]) = some (.file (Text.Utf8.encode text)) ∧
      ∀ l, l ≠ d ++ [name] → w'.top.kindAt? l = w.top.kindAt? l := by
  obtain ⟨s, bytes, hall, _, hdir, rfl⟩ := exists_site_of_vacant hvacant h
  obtain rfl := eq_encode_of_content hall
  have hnames := s.names
  rw [s.target_eq_of_not_link hlink] at hnames
  obtain ⟨hd, hname⟩ := hnames.unique (hreaches.names name)
  have hentry : s.entry = d ++ [name] := by rw [Site.entry, hd, hname]
  rw [← hentry]
  exact ⟨s.at?_written, fun l hl => s.kindAt?_written (Site.reached_of_not_link hdir hlink).free_entry hl⟩

end PolicyTable.Policy

namespace PolicyTable.CommandLine

open FileSystem
open Policy

variable {directory output : Text} {o : Options}

theorem ne_nil_of_optionsOf (h : optionsOf directory output = .ok o) : output ≠ [] := by
  rintro rfl
  cases h

theorem eq_of_optionsOf (h : optionsOf directory output = .ok o) : o = ⟨.ofText directory, output⟩ := by
  unfold optionsOf at h
  split at h
  · cases h
  · exact (Except.ok.inj h).symm

/-- **The document lies in the directory exactly if its name is one component.** Then a run that succeeds makes the
    document a file of that name in the directory and leaves everything else as it is, if there was no link of
    that name and nothing stood at the path of the temporary file. -/
theorem optionsOf_confined (h : optionsOf directory output = .ok o) :
    (o.outputPath.parent = o.root ∧ o.outputPath.name? = some output ↔ '/' ∉ output ∧ output ≠ ['.']) ∧
      ('/' ∉ output → output ≠ ['.'] → ∀ (w w' : World) (tools : Tools) (summary : Summary),
        document w tools o = (w', .ok summary) → Vacant w o.outputPath →
        (∀ t, w.probe .entry o.outputPath ≠ .ok (some (.link t))) →
        ∃ d entries text, w.locate .node o.root = .ok (d, some (.directory entries)) ∧
          renderDocument w tools o.root = .ok text ∧
          w'.top.at? (d ++ [output]) = some (.file (Text.Utf8.encode text)) ∧
          ∀ l, l ≠ d ++ [output] → w'.top.kindAt? l = w.top.kindAt? l) := by
  have hne := ne_nil_of_optionsOf h
  obtain rfl := eq_of_optionsOf h
  constructor
  · rw [Options.outputPath, Path.child_join_iff, isPart_iff]
    simp [hne]
  · intro hslash hdot w w' tools summary hdocument hvacant hlink
    have hpath : Options.outputPath ⟨.ofText directory, output⟩ = (Path.ofText directory).child output := by
      rw [Options.outputPath, Path.ofText_of_isPart hslash (isPart_iff.2 ⟨hne, hdot⟩)]
      rfl
    obtain ⟨found, hfound, hwrite, _⟩ := document_eq_ok_iff.1 hdocument
    obtain ⟨files, _, hfiles, _, _⟩ := collectRecords_eq_ok_iff.1 hfound
    obtain ⟨entries, hroot⟩ := exists_entries_of_collect hfiles
    obtain ⟨_, hlong, _⟩ := World.probe_eq_some_iff.1 hroot
    obtain ⟨d, hreaches, hd⟩ := World.exists_reaches hroot
    rw [hpath] at hwrite hvacant hlink
    obtain ⟨hfile, hrest⟩ := exists_written hreaches hvacant hlink hwrite
    refine ⟨d, entries, _, ?_, ?_, hfile, hrest⟩
    · rw [hreaches.finds.locate_eq hlong, hd]
    · rw [renderDocument, hfound]
      rfl

/-- The document of the directory with one policy file and no records, under a name of one component. -/
theorem optionsOf_confined_named :
    ∃ o w' summary, optionsOf "p".toList "policies.md".toList = .ok o ∧
      (o.outputPath.parent = o.root ∧ o.outputPath.name? = some "policies.md".toList) ∧
      document namedWorld .plain o = (w', .ok summary) ∧
      ∃ d entries text, namedWorld.locate .node o.root = .ok (d, some (.directory entries)) ∧
        renderDocument namedWorld .plain o.root = .ok text ∧
        w'.top.at? (d ++ ["policies.md".toList]) = some (.file (Text.Utf8.encode text)) ∧
        ∀ l, l ≠ d ++ ["policies.md".toList] → w'.top.kindAt? l = namedWorld.top.kindAt? l := by
  let o : Options := { root := .ofText "p".toList }
  have ho : optionsOf "p".toList "policies.md".toList = .ok o := by decide +kernel
  have hdocument := document_of_written (o := o) collectRecords_namedWorld.2 (by decide +kernel)
  have htarget : targetOf namedWorld o.outputPath = .ok (.ofText "p/policies.md".toList) := by decide +kernel
  have htmp : temporaryOf (.ofText "p/policies.md".toList) = .ok (.ofText "p/policies.md.tmp".toList) := by
    decide +kernel
  have hvacant : Vacant namedWorld o.outputPath := vacant_of_probe htarget htmp rfl
  have hprobe : namedWorld.probe .entry o.outputPath = .ok (some (.file (Text.Utf8.encode "old\n".toList))) := rfl
  obtain ⟨hpath, hwritten⟩ := optionsOf_confined ho
  exact ⟨o, _, _, ho, hpath.2 ⟨by decide, by decide⟩, hdocument,
    hwritten (by decide) (by decide) _ _ _ _ hdocument hvacant (by simp [hprobe])⟩

/-- A name with double dots in it: the document is written beside the directory, and nothing is written in it. -/
theorem optionsOf_unconfined :
    ∃ o w', optionsOf "p".toList "../kinds.md".toList = .ok o ∧ o.root = .ofText "p".toList ∧
      o.outputPath.parent ≠ o.root ∧ o.outputPath.name? ≠ some "../kinds.md".toList ∧
      document namedWorld .plain o = (w', .ok ⟨.ofText "p/../kinds.md".toList, 1, 0⟩) ∧
      namedWorld.top.kindAt? ["kinds.md".toList] = none ∧
      w'.top.kindAt? ["kinds.md".toList] = some (.file (Text.Utf8.encode (Annotations.document []))) ∧
      w'.top.kindAt? ["p".toList, "kinds.md".toList] = none := by
  let o : Options := { root := .ofText "p".toList, output := "../kinds.md".toList }
  have hdocument := document_of_written (o := o) collectRecords_namedWorld.2 (by decide +kernel)
  exact ⟨o, _, by decide +kernel, rfl, by decide +kernel, by decide +kernel, hdocument, rfl, rfl, rfl⟩

end PolicyTable.CommandLine
