import PolicyTable.Proofs.Annotations.Attribution
import PolicyTable.Proofs.Annotations.Groups
import PolicyTable.Proofs.Text.Pieces

/-!
# `PolicyTable.Proofs.Annotations.Kinds` — the words of an annotation and the kinds of its record

A record has one kind for each word of its annotation, and the words can be rebuilt from the kinds and the groups
before those that are the same are left out. Which pieces of the text are words is a matter of their place: all but
the first two. The marker is found wherever it stands, so the words are those that stand behind it only if it
stands in its place, and if spaces are the only blank characters between them.

## Contents
- **Parts.** A group or a kind is a part of a word (`Record.Writes.exists_word`), so it has no space in it.
- **Kinds and groups.** `Record.Writes.forall₂_kinds`: a kind for each word. `Record.Writes.exists_groups`: the groups of
  all words, which rebuild them.
- **Places.** `leftOut`, what stands behind the marker and is no word; `wordsOf_behind` for all that stands there.

Main statements: `Record.ofComment_rebuilds_words`, and `Record.ofComment_counts_words` with
`Record.ofComment_miscounts` for a marker that is not in its place.
-/

namespace PolicyTable.Annotations

open Rego (Comment)

variable {c : Comment} {r : Record} {text before behind description name : Text}

/-! ## Parts -/

/-- A word is part of its text and has no space in it. -/
theorem of_mem_words {word : Text} (h : word ∈ words text) : (∀ c ∈ word, c ∈ text) ∧ ' ' ∉ word := by
  have hpiece : word ∈ Text.split ' ' text := List.mem_of_mem_drop h
  exact ⟨fun _ hc => Text.mem_of_mem_split hpiece hc, Text.not_mem_of_mem_split hpiece⟩

/-- A group or a kind of a record is a part of a word. -/
theorem Record.Writes.exists_word (h : Record.Writes c description r) (hname : name ∈ r.groups ++ r.kinds) :
    ∃ word ∈ words c.text, ∀ x ∈ name, x ∈ word := by
  obtain ⟨pairs, hwords, _, hgroups, hkinds, _⟩ := h
  rw [hwords]
  rw [hgroups, hkinds] at hname
  rcases List.mem_append.1 hname with hg | hk
  · obtain ⟨p, hp, rfl⟩ := List.mem_map.1 (mem_of_mem_dedupe hg)
    exact ⟨p.word, List.mem_map_of_mem hp, fun x hx => List.mem_append_left _ hx⟩
  · obtain ⟨p, hp, rfl⟩ := List.mem_map.1 hk
    exact ⟨p.word, List.mem_map_of_mem hp, fun x hx => List.mem_append_right _ (List.mem_cons_of_mem _ hx)⟩

theorem Record.Writes.spaceless (h : Record.Writes c description r) : ∀ name ∈ r.groups ++ r.kinds, ' ' ∉ name := by
  intro name hname hspace
  obtain ⟨word, hword, hsub⟩ := h.exists_word hname
  exact (of_mem_words hword).2 (hsub _ hspace)

/-! ## Kinds and groups -/

/-- There is one kind for each word, and the word writes it. -/
theorem Record.Writes.forall₂_kinds (h : Record.Writes c description r) :
    List.Forall₂ (fun word kind => ∃ group, '/' ∉ group ∧ word = group ++ '/' :: kind) (words c.text) r.kinds := by
  obtain ⟨pairs, hwords, hgroups, _, hkinds, _⟩ := h
  rw [hwords, hkinds, List.forall₂_map_left_iff, List.forall₂_map_right_iff, List.forall₂_same]
  exact fun p hp => ⟨p.group, hgroups p hp, rfl⟩

/-- A record that has kinds has the group of the first one. -/
theorem Record.Writes.groups_ne_nil (h : Record.Writes c description r) (hne : r.kinds ≠ []) : r.groups ≠ [] := by
  obtain ⟨pairs, _, _, hgroups, hkinds, _⟩ := h
  rw [hgroups]
  rw [hkinds] at hne
  exact dedupe_ne_nil (by simpa using hne)

/-- **The words are rebuilt from their groups and the kinds of the record.** -/
theorem Record.Writes.exists_groups (h : Record.Writes c description r) :
    ∃ groups : List Text, groups.length = (words c.text).length ∧ r.kinds.length = (words c.text).length ∧
      (∀ group ∈ groups, '/' ∉ group) ∧
      words c.text = List.zipWith (fun group kind => group ++ '/' :: kind) groups r.kinds ∧ r.groups = dedupe groups := by
  obtain ⟨pairs, hwords, hgroups, hdedupe, hkinds, _⟩ := h
  refine ⟨pairs.map (·.group), ?_, ?_, ?_, ?_, hdedupe⟩
  · rw [hwords, List.length_map, List.length_map]
  · rw [hkinds, hwords, List.length_map, List.length_map]
  · intro group hgroup
    obtain ⟨p, hp, rfl⟩ := List.mem_map.1 hgroup
    exact hgroups p hp
  · rw [hkinds, hwords, List.zipWith_map, List.zipWith_self]
    rfl

/-- **The words of an annotation are rebuilt from its record.** There is one kind for each word, and the word is a group
    without a slash, a slash and that kind. The groups of the record are these, each one once up to case, in the order
    in which they are met; there are some if there is a word. No group and no kind has a space in it. -/
theorem Record.ofComment_rebuilds_words (h : Record.ofComment c description = .ok r) :
    r.kinds.length = (words c.text).length ∧
      (∃ groups : List Text, groups.length = (words c.text).length ∧ (∀ group ∈ groups, '/' ∉ group) ∧
        words c.text = List.zipWith (fun group kind => group ++ '/' :: kind) groups r.kinds ∧
        r.groups = dedupe groups ∧
        (∀ group ∈ groups, r.groups.countP (·.caseFold == group.caseFold) = 1) ∧
        r.groups.Pairwise fun a b =>
          groups.findIdx (·.caseFold == a.caseFold) < groups.findIdx (·.caseFold == b.caseFold)) ∧
      (r.groups = [] → words c.text = []) ∧
      ∀ name ∈ r.groups ++ r.kinds, ' ' ∉ name := by
  have hwrites := Record.writes_of_ofComment h
  obtain ⟨groups, hlength, hkinds, hslash, hwords, hdedupe⟩ := hwrites.exists_groups
  refine ⟨hkinds, ⟨groups, hlength, hslash, hwords, hdedupe, ?_, ?_⟩, ?_, hwrites.spaceless⟩
  · intro group hgroup
    obtain ⟨first, _, hfilter⟩ := exists_first_dedupe hgroup
    rw [hdedupe, List.countP_eq_length_filter]
    exact congrArg List.length hfilter
  · rw [hdedupe]
    exact pairwise_dedupe groups
  · intro hnil
    by_contra hne
    have hpos := List.length_pos_of_ne_nil hne
    rw [← hkinds] at hpos
    exact hwrites.groups_ne_nil (List.ne_nil_of_length_pos hpos) hnil

/-- An annotation with two groups that are the same up to case, an empty group and a kind with a slash in it. -/
def slashedComment : Comment := { text := " @Kinds Apps/Deployment /Pod apps/a/b".toList }

theorem Record.ofComment_rebuilds_words_slashed :
    ∃ r, Record.ofComment slashedComment " D ".toList = .ok r ∧
      r = ⟨["Apps".toList, []], ["Deployment".toList, "Pod".toList, "a/b".toList], "D".toList⟩ ∧
      r.kinds.length = (words slashedComment.text).length ∧
      ∃ groups : List Text, groups.length = (words slashedComment.text).length ∧ (∀ group ∈ groups, '/' ∉ group) ∧
        words slashedComment.text = List.zipWith (fun group kind => group ++ '/' :: kind) groups r.kinds ∧
        r.groups = dedupe groups ∧
        (∀ group ∈ groups, r.groups.countP (·.caseFold == group.caseFold) = 1) ∧
        r.groups.Pairwise fun a b =>
          groups.findIdx (·.caseFold == a.caseFold) < groups.findIdx (·.caseFold == b.caseFold) := by
  have h : Record.ofComment slashedComment " D ".toList =
      .ok ⟨["Apps".toList, []], ["Deployment".toList, "Pod".toList, "a/b".toList], "D".toList⟩ := by decide +kernel
  obtain ⟨hlength, hgroups, _⟩ := Record.ofComment_rebuilds_words h
  exact ⟨_, h, rfl, hlength, hgroups⟩

/-! ## Places -/

/-- The pieces behind a marker that are no words, since they are among the first two pieces of the text. -/
def leftOut (before behind : Text) : List Text := (Text.split ' ' behind).take (2 - before.count ' ')

/-- The words stand behind a marker that is in one of the first two pieces. -/
theorem words_eq_drop (h : text = before ++ marker ++ behind) (hplace : before.count ' ' ≤ 1) :
    words text = (Text.split ' ' behind).drop (2 - before.count ' ') := by
  have hmarker : marker.count ' ' = 0 := by decide
  have hcount : (before ++ marker).count ' ' = before.count ' ' := by
    rw [List.count_append, hmarker, Nat.add_zero]
  have hdrop := Text.drop_split_append ' ' (before ++ marker) behind
  rw [← h, hcount] at hdrop
  calc words text = ((Text.split ' ' text).drop (before.count ' ' + 1)).drop (1 - before.count ' ') := by
        rw [List.drop_drop, words]
        congr 1
        omega
    _ = (Text.split ' ' behind).drop (2 - before.count ' ') := by
        rw [hdrop, List.drop_drop]
        congr 1
        omega

/-- **What stands behind the marker** is in the pieces that are left out, and in the words. -/
theorem wordsOf_behind (h : text = before ++ marker ++ behind) (hplace : before.count ' ' ≤ 1) :
    Text.wordsOf behind =
      (leftOut before behind).flatMap Text.wordsOf ++ (words text).flatMap Text.wordsOf := by
  rw [words_eq_drop h hplace, leftOut, ← List.flatMap_append, List.take_append_drop]
  exact Text.wordsOf_eq_flatMap (by decide) behind

/-- If each element gives something then there are at least as many results as elements, and as many only if each
    element gives one. -/
theorem length_flatMap_spec {α β : Type} {f : α → List β} {l : List α} (h : ∀ a ∈ l, f a ≠ []) :
    l.length ≤ (l.flatMap f).length ∧ ((l.flatMap f).length = l.length ↔ ∀ a ∈ l, (f a).length = 1) := by
  induction l with
  | nil => simp
  | cons a l ih =>
      obtain ⟨ha, hl⟩ := List.forall_mem_cons.1 h
      obtain ⟨hle, hiff⟩ := ih hl
      have hpos := List.length_pos_of_ne_nil ha
      rw [List.flatMap_cons, List.length_append, List.length_cons, List.forall_mem_cons, ← hiff]
      omega

/-- **Every word behind the marker has a kind of its own** exactly if none of them is left out and no two of them
    stand in one piece. -/
theorem Record.Writes.length_kinds_iff (h : Record.Writes c description r) (hcut : c.text = before ++ marker ++ behind)
    (hplace : before.count ' ' ≤ 1) :
    r.kinds.length = (Text.wordsOf behind).length ↔
      (∀ piece ∈ leftOut before behind, Text.wordsOf piece = []) ∧
        ∀ word ∈ words c.text, (Text.wordsOf word).length = 1 := by
  have hne : ∀ word ∈ words c.text, Text.wordsOf word ≠ [] := fun word hword =>
    Text.wordsOf_ne_nil (by decide) (h.slash_mem word hword)
  obtain ⟨hle, hone⟩ := length_flatMap_spec hne
  have hkinds := h.forall₂_kinds.length_eq
  rw [wordsOf_behind hcut hplace, List.length_append, ← hone, ← List.flatMap_eq_nil_iff, ← List.length_eq_zero_iff]
  omega

/-- **The kinds of an annotation are those of its words, and its words are told by their place.** A record has one
    kind for each piece of the text from the third one on, and if such a piece has no slash, there is no record but a
    message about the first such piece. If at most one space stands before a marker, these are as many as the words
    between blank characters behind the marker exactly if none of those stands in the first two pieces and no
    two of them in one of the others. -/
theorem Record.ofComment_counts_words (c : Comment) (description : Text) :
    (∀ r, Record.ofComment c description = .ok r →
        List.Forall₂ (fun word kind => ∃ group, '/' ∉ group ∧ word = group ++ '/' :: kind) (words c.text) r.kinds ∧
          ∀ before behind, c.text = before ++ marker ++ behind → before.count ' ' ≤ 1 →
            (r.kinds.length = (Text.wordsOf behind).length ↔
              (∀ piece ∈ leftOut before behind, Text.wordsOf piece = []) ∧
                ∀ word ∈ words c.text, (Text.wordsOf word).length = 1)) ∧
      ∀ word ∈ words c.text, '/' ∉ word →
        ∃ first, FirstBadWord c first ∧ Record.ofComment c description = .error ⟨c.line, ⟨first⟩⟩ := by
  constructor
  · intro r h
    have hwrites := Record.writes_of_ofComment h
    exact ⟨hwrites.forall₂_kinds, fun before behind hcut hplace => hwrites.length_kinds_iff hcut hplace⟩
  · intro word hword hslash
    cases h : Record.ofComment c description with
    | ok r => exact absurd ((Record.writes_of_ofComment h).slash_mem word hword) hslash
    | error bad =>
        obtain ⟨first, hfirst, rfl⟩ := Record.bad_of_ofComment h
        exact ⟨first, hfirst, rfl⟩

/-- An annotation whose marker is in its place, with a tab that divides nothing. -/
def placedComment : Comment := { text := " @Kinds apps/Deployment\t core/Pod".toList }

/-- The same with a word that has no slash. -/
def slashlessComment : Comment := { text := " @Kinds apps/Deployment Pod".toList, line := 4 }

theorem Record.ofComment_counts_words_placed :
    (∃ r, Record.ofComment placedComment [] = .ok r ∧
        r.kinds.length = (Text.wordsOf " apps/Deployment\t core/Pod".toList).length) ∧
      ∃ first, FirstBadWord slashlessComment first ∧
        Record.ofComment slashlessComment [] = .error ⟨4, ⟨first⟩⟩ := by
  have h : Record.ofComment placedComment [] =
      .ok ⟨["apps".toList, "core".toList], ["Deployment\t".toList, "Pod".toList], []⟩ := by decide +kernel
  constructor
  · obtain ⟨_, hcount⟩ := (Record.ofComment_counts_words placedComment []).1 _ h
    exact ⟨_, h, (hcount [' '] " apps/Deployment\t core/Pod".toList (by decide) (by decide)).2
      ⟨by decide +kernel, by decide +kernel⟩⟩
  · exact (Record.ofComment_counts_words slashlessComment []).2 "Pod".toList (by decide) (by decide)

/-- **Words behind the marker that have no kind of their own, and a kind without such a word.** Where the text starts
    with the marker, the first word behind it is taken for the marker. A tab divides no words. Where two spaces stand
    before the marker, its own piece is a word. -/
theorem Record.ofComment_miscounts :
    (∃ r, Record.ofComment { text := marker ++ " apps/Deployment core/Pod".toList } [] = .ok r ∧
        r.kinds = ["Pod".toList] ∧
        Text.wordsOf " apps/Deployment core/Pod".toList = ["apps/Deployment".toList, "core/Pod".toList]) ∧
      (∃ r, Record.ofComment { text := " ".toList ++ marker ++ " apps/Deployment\tcore/Pod".toList } [] = .ok r ∧
        r.kinds = ["Deployment\tcore/Pod".toList] ∧
        Text.wordsOf " apps/Deployment\tcore/Pod".toList = ["apps/Deployment".toList, "core/Pod".toList]) ∧
      ∃ r, Record.ofComment { text := " see apps/".toList ++ marker ++ " core/Pod".toList } [] = .ok r ∧
        r.kinds = [marker, "Pod".toList] ∧ Text.wordsOf " core/Pod".toList = ["core/Pod".toList] := by
  refine ⟨⟨⟨["core".toList], _, []⟩, ?_, rfl, ?_⟩, ⟨⟨["apps".toList], _, []⟩, ?_, rfl, ?_⟩,
    ⟨⟨["apps".toList, "core".toList], _, []⟩, ?_, rfl, ?_⟩⟩
  all_goals decide +kernel

end PolicyTable.Annotations
