import PolicyTable.Proofs.Rego.Literals

/-!
# `PolicyTable.Proofs.Rego.Masking` — what a literal holds has no effect on a scan

The mask of a source has an `x` for every character inside a closed literal, line ends excepted. A scan finds
the same in the mask as in the source: the inside of a literal, with its number signs, brackets, quotes and
escapes, is invisible.

The automaton does not read the two texts in lockstep: where it is behind the backslash of an escape, it is
in the string in the mask. `Zone.shown` is where it stands in the mask.

## Contents
- **Inside.** `Inside` says by the literals which characters are inside one, and `Zone.hides` by the zone.
- **Masks.** `mask`, with `maskFrom` along the automaton.
- **Lockstep.** `Masks` ties what has been read of a source and of its mask; `gather_mask` compares all that is
  said of their characters.

Main statement: `scan_mask`.
-/

namespace PolicyTable.Rego

variable {source before masked rest : Text} {c : Char} {z : Zone}

/-! ## Inside -/

/-- The character stands between the quotes of a string literal that is closed, or between the backquotes of
    a raw one. -/
inductive Inside : Text → Char → Text → Prop
  | string {front body more r : Text} {c : Char} (hz : Zone.after front = .code)
      (hb : StringBody (body ++ c :: more)) : Inside (front ++ '"' :: body) c (more ++ '"' :: r)
  | raw {front body more r : Text} {c : Char} (hz : Zone.after front = .code)
      (hb : '\x60' ∉ body ++ c :: more) : Inside (front ++ '\x60' :: body) c (more ++ '\x60' :: r)

/-- Is a character of the zone inside a literal that the text behind it closes? -/
def Zone.hides : Zone → Char → Text → Bool
  | .string, c, rest => decide (c ≠ '"') && closes .string (c :: rest)
  | .escape, c, rest => closes .escape (c :: rest)
  | .raw, c, rest => decide (c ≠ '\x60') && closes .raw (c :: rest)
  | _, _, _ => false

/-- What stands in a string body is read in the string, or behind the backslash of an escape. -/
theorem StringBody.zone_cases {body more : Text} (h : StringBody (body ++ c :: more)) :
    body.foldl Zone.next .string = .string ∧ StringBody (c :: more) ∨
      body.foldl Zone.next .string = .escape ∧ c ≠ '\n' ∧ StringBody more := by
  generalize ht : body ++ c :: more = t at h
  induction h generalizing body with
  | nil => simp at ht
  | @plain d r hq hb hn h ih =>
      cases body with
      | nil =>
          obtain ⟨rfl, rfl⟩ := List.cons.inj ht
          exact .inl ⟨rfl, .plain hq hb hn h⟩
      | cons e body =>
          obtain ⟨rfl, htail⟩ := List.cons.inj ht
          have hnext : Zone.next .string e = .string := Zone.next_eq_string_iff.2 (.inr (.inl ⟨rfl, hq, hb, hn⟩))
          rw [List.foldl_cons, hnext]
          exact ih htail
  | @escape d r hn h ih =>
      cases body with
      | nil =>
          obtain ⟨rfl, rfl⟩ := List.cons.inj ht
          exact .inl ⟨rfl, .escape hn h⟩
      | cons e body =>
          obtain ⟨rfl, htail⟩ := List.cons.inj ht
          cases body with
          | nil =>
              obtain ⟨rfl, rfl⟩ := List.cons.inj htail
              exact .inr ⟨rfl, hn, h⟩
          | cons f body =>
              obtain ⟨rfl, hmore⟩ := List.cons.inj htail
              have hnext : Zone.next .escape f = .string := Zone.next_eq_string_iff.2 (.inr (.inr ⟨rfl, hn⟩))
              rw [List.foldl_cons, List.foldl_cons, show Zone.next .string '\\' = .escape from rfl, hnext]
              exact ih hmore

theorem foldl_next_raw {body : Text} (h : '\x60' ∉ body) : body.foldl Zone.next .raw = .raw := by
  induction body with
  | nil => rfl
  | cons c body ih =>
      obtain ⟨hc, hbody⟩ := not_or.1 (mt List.mem_cons.2 h)
      rw [List.foldl_cons, Zone.next_eq_raw_iff.2 (.inr ⟨rfl, Ne.symm hc⟩)]
      exact ih hbody

theorem StringBody.head_ne {body : Text} (h : StringBody (c :: body)) : c ≠ '"' := by
  cases h with
  | plain hq => exact hq
  | escape => decide

theorem Inside.hides (h : Inside before c rest) : (Zone.after before).hides c rest = true := by
  cases h with
  | @string front body more r _ hz hb =>
      rw [Zone.after_append, hz]
      show Zone.hides (body.foldl Zone.next .string) c (more ++ '"' :: r) = true
      rcases hb.zone_cases with ⟨hin, hbody⟩ | ⟨hin, hn, hmore⟩
      · rw [hin]
        have hcloses : closes .string (c :: (more ++ '"' :: r)) = true := closes_of_stringBody hbody
        simp [Zone.hides, hcloses, hbody.head_ne]
      · rw [hin]
        show closes .escape (c :: (more ++ '"' :: r)) = true
        rw [closes_escape_cons, if_neg hn, closes_of_stringBody hmore]
  | @raw front body more r _ hz hb =>
      rw [List.mem_append, not_or, List.mem_cons, not_or] at hb
      obtain ⟨hbody, hc, hmore⟩ := hb
      rw [Zone.after_append, hz]
      show Zone.hides (body.foldl Zone.next .raw) c (more ++ '\x60' :: r) = true
      rw [foldl_next_raw hbody]
      have hcloses : closes .raw (c :: (more ++ '\x60' :: r)) = true := closes_raw_iff.2 (by simp)
      simp [Zone.hides, hcloses, Ne.symm hc]

theorem inside_of_hides (h : (Zone.after before).hides c rest = true) : Inside before c rest := by
  cases hz : Zone.after before with
  | code => rw [hz] at h; cases h
  | comment => rw [hz] at h; cases h
  | string =>
      rw [hz, Zone.hides, Bool.and_eq_true, decide_eq_true_eq, closes_string_iff] at h
      obtain ⟨hc, body, r, hbody, hrest⟩ := h
      obtain ⟨front, read, rfl, hfront, hread⟩ := (exists_string_opening before).1 hz
      cases body with
      | nil => exact absurd (List.cons.inj hrest).1 hc
      | cons d more =>
          obtain ⟨rfl, rfl⟩ := List.cons.inj hrest
          exact .string hfront (hread.append hbody)
  | escape =>
      rw [hz] at h
      obtain ⟨front, read, rfl, hfront, hread⟩ := (exists_string_opening before).2 hz
      have hcloses : closes .escape (c :: rest) = true := h
      rw [closes_escape_cons] at hcloses
      by_cases hn : c = '\n'
      · rw [if_pos hn] at hcloses
        cases hcloses
      · rw [if_neg hn, closes_string_iff] at hcloses
        obtain ⟨more, r, hmore, rfl⟩ := hcloses
        refine .string hfront ?_
        rw [List.append_assoc]
        exact hread.append (.escape hn hmore)
  | raw =>
      rw [hz, Zone.hides, Bool.and_eq_true, decide_eq_true_eq, closes_raw_iff] at h
      obtain ⟨hc, hmem⟩ := h
      obtain ⟨front, read, rfl, hfront, hread⟩ := exists_raw_opening hz
      have hrest : '\x60' ∈ rest := (List.mem_cons.1 hmem).resolve_left (Ne.symm hc)
      obtain ⟨more, r, rfl, hmore⟩ := List.eq_append_cons_of_mem hrest
      refine .raw hfront ?_
      simp [hread, hmore, Ne.symm hc]

/-- The zone and the text behind a character tell whether it is inside a closed literal. -/
theorem hides_iff : (Zone.after before).hides c rest = true ↔ Inside before c rest :=
  ⟨inside_of_hides, Inside.hides⟩

instance : Decidable (Inside before c rest) := decidable_of_iff _ hides_iff

/-! ## Masks -/

/-- What stands in the mask for a character: an `x` if it is inside a closed literal and ends no line, and the
    character itself otherwise. -/
def maskOf (before : Text) (c : Char) (rest : Text) : Char :=
  if Inside before c rest ∧ c ≠ '\n' then 'x' else c

/-- **The mask of a source.** -/
def mask (source : Text) : Text :=
  gather (fun before c rest => some (maskOf before c rest)) source source.length

/-- The mask of a character, by its zone. -/
def Zone.maskOf (z : Zone) (c : Char) (rest : Text) : Char :=
  if z.hides c rest = true ∧ c ≠ '\n' then 'x' else c

/-- The mask of a text that starts in a zone. -/
def maskFrom : Zone → Text → Text
  | _, [] => []
  | z, c :: rest => z.maskOf c rest :: maskFrom (z.next c) rest

theorem maskOf_eq (before : Text) (c : Char) (rest : Text) :
    maskOf before c rest = (Zone.after before).maskOf c rest := by
  unfold maskOf Zone.maskOf
  simp only [hides_iff]

theorem gather_maskOf (before rest : Text) :
    gather (fun more c r => some (maskOf (before ++ more) c r)) rest rest.length =
      maskFrom (Zone.after before) rest := by
  induction rest generalizing before with
  | nil => rfl
  | cons c rest ih =>
      have hrest : gather (fun more d r => some (maskOf (before ++ c :: more) d r)) rest rest.length =
          maskFrom ((Zone.after before).next c) rest := by
        rw [← Zone.after_concat, ← ih (before ++ [c])]
        simp only [List.append_assoc, List.singleton_append]
      rw [gather_cons, hrest, List.append_nil, maskOf_eq]
      rfl

/-- The automaton writes the mask. -/
theorem mask_eq (source : Text) : mask source = maskFrom .code source := gather_maskOf [] source

/-- A mask has the line ends of the text, and no others. -/
theorem Zone.maskOf_eq_newline_iff : z.maskOf c rest = '\n' ↔ c = '\n' := by
  unfold Zone.maskOf
  split
  · rename_i h
    simp [h.2]
  · rfl

theorem Zone.maskOf_of_not_hides (h : z.hides c rest = false) : z.maskOf c rest = c := by
  unfold Zone.maskOf
  rw [h]
  exact if_neg fun h => Bool.false_ne_true h.1

theorem Zone.maskOf_of_hides (h : z.hides c rest = true) (hn : c ≠ '\n') : z.maskOf c rest = 'x' :=
  if_pos ⟨h, hn⟩

/-! ## Lockstep -/

/-- Where the automaton stands in the mask. Behind the backslash of an escape that the mask covers, it is in
    the string. -/
def Zone.shown (z : Zone) (rest : Text) : Zone :=
  if z = .escape ∧ closes .escape rest = true then .string else z

theorem Zone.shown_of_ne (h : z ≠ .escape) : z.shown rest = z := if_neg fun hz => h hz.1

theorem Zone.shown_eq_code_iff : z.shown rest = .code ↔ z = .code := by
  unfold Zone.shown
  split
  · rename_i h
    simp [h.1]
  · rfl

/-- Only a string leads behind a backslash. -/
theorem Zone.shown_next (hz : z ≠ .string) : (z.next c).shown rest = z.next c :=
  shown_of_ne fun h => hz (next_eq_escape_iff.1 h).1

/-- In a string the mask covers an escape as a whole or not at all. -/
theorem Zone.next_shown_string (c : Char) (rest : Text) :
    Zone.string.next (Zone.string.maskOf c rest) = (Zone.string.next c).shown rest := by
  by_cases hb : c = '\\'
  · subst hb
    have hhides : Zone.string.hides '\\' rest = closes .escape rest := by
      simp [Zone.hides, closes_string_cons]
    cases hr : closes .escape rest with
    | true =>
        rw [maskOf_of_hides (hhides.trans hr) (by decide)]
        exact (if_pos ⟨rfl, hr⟩).symm
    | false =>
        rw [maskOf_of_not_hides (hhides.trans hr)]
        exact (if_neg fun h => Bool.false_ne_true (hr.symm.trans h.2)).symm
  · rw [shown_of_ne fun h => hb (next_eq_escape_iff.1 h).2]
    cases hin : Zone.string.hides c rest with
    | false => rw [maskOf_of_not_hides hin]
    | true =>
        obtain ⟨hq, hcloses⟩ := Bool.and_eq_true_iff.1 hin
        have hq : c ≠ '"' := of_decide_eq_true hq
        have hn : c ≠ '\n' := by
          rintro rfl
          simp [closes_string_cons] at hcloses
        rw [maskOf_of_hides hin hn, next_eq_string_iff.2 (.inr (.inl ⟨rfl, hq, hb, hn⟩))]
        rfl

/-- **One character in lockstep.** Behind a character of the mask the automaton stands where it is shown. -/
theorem Zone.next_shown (z : Zone) (c : Char) (rest : Text) :
    (z.shown (c :: rest)).next (z.maskOf c rest) = (z.next c).shown rest := by
  cases z with
  | code =>
      rw [shown_of_ne (z := .code) nofun, maskOf_of_not_hides rfl, shown_next (z := .code) nofun]
  | comment =>
      rw [shown_of_ne (z := .comment) nofun, maskOf_of_not_hides rfl, shown_next (z := .comment) nofun]
  | string =>
      rw [shown_of_ne (z := .string) nofun]
      exact next_shown_string c rest
  | escape =>
      rw [shown_next (z := .escape) nofun]
      cases hin : Zone.escape.hides c rest with
      | false =>
          have hopen : Zone.escape.shown (c :: rest) = .escape :=
            if_neg fun h => Bool.false_ne_true (hin.symm.trans h.2)
          rw [hopen, maskOf_of_not_hides hin]
      | true =>
          have hcovered : Zone.escape.shown (c :: rest) = .string := if_pos ⟨rfl, hin⟩
          have hn : c ≠ '\n' := by
            rintro rfl
            have hcloses : closes .escape ('\n' :: rest) = true := hin
            rw [closes_escape_cons] at hcloses
            cases hcloses
          rw [hcovered, maskOf_of_hides hin hn, next_eq_string_iff.2 (.inr (.inr ⟨rfl, hn⟩))]
          rfl
  | raw =>
      rw [shown_of_ne (z := .raw) nofun, shown_next (z := .raw) nofun]
      by_cases h : Zone.raw.hides c rest = true ∧ c ≠ '\n'
      · have hc : c ≠ '\x60' := of_decide_eq_true (Bool.and_eq_true_iff.1 h.1).1
        rw [maskOf_of_hides h.1 h.2, next_eq_raw_iff.2 (.inr ⟨rfl, hc⟩)]
        rfl
      · rw [show Zone.raw.maskOf c rest = c from if_neg h]

/-- The mask closes a literal where the text does. -/
theorem closes_mask (z : Zone) (t : Text) : closes (z.shown t) (maskFrom z t) = closes z t := by
  induction t generalizing z with
  | nil => simp [maskFrom, closes]
  | cons c r ih =>
      unfold maskFrom closes
      simp only [Zone.next_shown, Zone.shown_eq_code_iff, ne_eq, Zone.maskOf_eq_newline_iff, ih]

/-- The line of a comment is its own mask. -/
theorem takeWhile_maskFrom (t : Text) :
    (maskFrom .comment t).takeWhile (· ≠ '\n') = t.takeWhile (· ≠ '\n') := by
  induction t with
  | nil => rfl
  | cons c r ih =>
      show (c :: maskFrom (Zone.next .comment c) r).takeWhile _ = _
      by_cases hc : c = '\n'
      · simp [hc]
      · have hnext : Zone.next .comment c = .comment := if_neg hc
        rw [hnext, List.takeWhile_cons, List.takeWhile_cons, ih]

theorem head?_maskFrom (z : Zone) (t : Text) :
    (maskFrom z t).head? = some '\n' ↔ t.head? = some '\n' := by
  cases t with
  | nil => rfl
  | cons c r =>
      show some (z.maskOf c r) = some '\n' ↔ some c = some '\n'
      rw [Option.some.injEq, Option.some.injEq, Zone.maskOf_eq_newline_iff]

/-- **What has been read of a source and of its mask**, with the text that is ahead in the source: as many
    characters and lines, up to the zone that is shown. -/
structure Masks (before masked rest : Text) : Prop where
  length_eq : masked.length = before.length
  position_eq : Position.after masked = Position.after before
  zone_eq : Zone.after masked = (Zone.after before).shown rest

theorem Masks.nil (source : Text) : Masks [] [] source := ⟨rfl, rfl, rfl⟩

theorem Masks.next (h : Masks before masked (c :: rest)) :
    Masks (before ++ [c]) (masked ++ [(Zone.after before).maskOf c rest]) rest where
  length_eq := by rw [List.length_append, List.length_append, h.length_eq]; rfl
  position_eq := by
    rw [Position.after_concat, Position.after_concat, h.position_eq]
    simp only [Zone.maskOf_eq_newline_iff]
  zone_eq := by rw [Zone.after_concat, Zone.after_concat, h.zone_eq, Zone.next_shown]

theorem Masks.code_iff (h : Masks before masked rest) :
    Zone.after masked = .code ↔ Zone.after before = .code := by
  rw [h.zone_eq, Zone.shown_eq_code_iff]

variable {α : Type} {f g : Text → Char → Text → Option α}

/-- What is said of every character of a source and of the mask of that character is the same for both. -/
theorem Masks.gather (h : Masks before masked rest)
    (hfg : ∀ before masked c rest, Masks before masked (c :: rest) →
      f masked ((Zone.after before).maskOf c rest) (maskFrom ((Zone.after before).next c) rest) =
        g before c rest) :
    gather (fun more => f (masked ++ more)) (maskFrom (Zone.after before) rest)
        (maskFrom (Zone.after before) rest).length =
      gather (fun more => g (before ++ more)) rest rest.length := by
  induction rest generalizing before masked with
  | nil => rfl
  | cons c rest ih =>
      have hnext := ih h.next
      simp only [List.append_assoc, List.singleton_append, Zone.after_concat] at hnext
      unfold maskFrom
      rw [gather_cons, gather_cons, List.append_nil, List.append_nil, hfg _ _ _ _ h, hnext]

theorem gather_mask
    (hfg : ∀ before masked c rest, Masks before masked (c :: rest) →
      f masked ((Zone.after before).maskOf c rest) (maskFrom ((Zone.after before).next c) rest) =
        g before c rest) (source : Text) :
    gather f (mask source) (mask source).length = gather g source source.length := by
  rw [mask_eq]
  exact (Masks.nil source).gather hfg

/-! ## Scans -/

/-- A character of code is its own mask. -/
theorem Zone.maskOf_code (hz : z = .code) : z.maskOf c rest = c :=
  maskOf_of_not_hides (hz ▸ rfl)

theorem Masks.commentOf (h : Masks before masked (c :: rest)) :
    commentOf masked ((Zone.after before).maskOf c rest) (maskFrom ((Zone.after before).next c) rest) =
      commentOf before c rest := by
  unfold Rego.commentOf
  by_cases hz : Zone.after before = .code
  · rw [Zone.maskOf_code hz, h.position_eq, hz]
    by_cases hc : c = '#'
    · subst hc
      rw [if_pos ⟨rfl, h.code_iff.2 hz⟩, if_pos ⟨rfl, rfl⟩,
        show Zone.next .code '#' = .comment from rfl, takeWhile_maskFrom]
    · rw [if_neg fun hm => hc hm.1, if_neg fun hm => hc hm.1]
  · rw [if_neg fun hc => hz (h.code_iff.1 hc.2), if_neg fun hc => hz hc.2]

theorem Masks.markOf (h : Masks before masked (c :: rest)) :
    markOf masked ((Zone.after before).maskOf c rest) (maskFrom ((Zone.after before).next c) rest) =
      markOf before c rest := by
  by_cases hz : Zone.after before = .code
  · unfold Rego.markOf
    rw [Zone.maskOf_code hz, h.length_eq, if_pos (h.code_iff.2 hz), if_pos hz]
  · rw [markOf_of_zone hz, markOf_of_zone fun hm => hz (h.code_iff.1 hm)]

theorem marks_mask (source : Text) : marks (mask source) = marks source :=
  gather_mask (fun _ _ _ _ h => h.markOf) source

/-- In code, a literal is closed in the mask if it is closed in the source. -/
theorem codeFault_mask {pairs : List (Nat × Nat)} {k : Nat} :
    codeFault pairs k c (maskFrom (Zone.next .code c) rest) = codeFault pairs k c rest := by
  unfold codeFault
  by_cases hq : c = '"'
  · have hcloses : closes .string (maskFrom .string rest) = closes .string rest := closes_mask .string rest
    subst hq
    rw [if_pos rfl, if_pos rfl, show Zone.next .code '"' = .string from rfl, hcloses]
  by_cases hr : c = '\x60'
  · have hcloses : closes .raw (maskFrom .raw rest) = closes .raw rest := closes_mask .raw rest
    subst hr
    rw [if_neg hq, if_neg hq, if_pos rfl, if_pos rfl, show Zone.next .code '\x60' = .raw from rfl, hcloses]
  rw [if_neg hq, if_neg hq, if_neg hr, if_neg hr]

/-- Outside code, only the backslash that a line end cuts off has a fault. -/
theorem fault_of_ne_code {pairs : List (Nat × Nat)} (hz : Zone.after before ≠ .code) :
    fault pairs before c rest =
      if Zone.after before = .string ∧ c = '\\' ∧ rest.head? = some '\n' then some (.illegal '\\') else none := by
  split
  · rename_i h
    obtain ⟨hs, rfl, hr⟩ := h
    simp [fault, hs, hr]
  · rename_i h
    exact fault_of_zone hz h

/-- The mask keeps that backslash, and has no other. -/
theorem Masks.backslash_iff (h : Masks before masked (c :: rest)) :
    Zone.after masked = .string ∧ (Zone.after before).maskOf c rest = '\\' ∧
        (maskFrom ((Zone.after before).next c) rest).head? = some '\n' ↔
      Zone.after before = .string ∧ c = '\\' ∧ rest.head? = some '\n' := by
  rw [h.zone_eq, head?_maskFrom]
  constructor
  · rintro ⟨hz, hc, hr⟩
    have hopen : ¬ ((Zone.after before).hides c rest = true ∧ c ≠ '\n') := by
      intro hin
      rw [Zone.maskOf_of_hides hin.1 hin.2] at hc
      exact absurd hc (by decide)
    obtain rfl : c = '\\' := (if_neg hopen : (Zone.after before).maskOf c rest = c).symm.trans hc
    refine ⟨?_, rfl, hr⟩
    unfold Zone.shown at hz
    split at hz
    · -- Behind the backslash of an escape the mask would cover this one.
      rename_i hesc
      refine absurd ⟨?_, by decide⟩ hopen
      rw [hesc.1]
      exact hesc.2
    · exact hz
  · rintro ⟨hz, rfl, hr⟩
    have hopen : Zone.string.hides '\\' rest = false := by
      obtain ⟨r, rfl⟩ := List.head?_eq_some_iff.1 hr
      rfl
    rw [hz, Zone.maskOf_of_not_hides hopen]
    exact ⟨rfl, rfl, hr⟩

theorem Masks.fault {pairs : List (Nat × Nat)} (h : Masks before masked (c :: rest)) :
    fault pairs masked ((Zone.after before).maskOf c rest) (maskFrom ((Zone.after before).next c) rest) =
      fault pairs before c rest := by
  by_cases hz : Zone.after before = .code
  · rw [fault_of_code (h.code_iff.2 hz), fault_of_code hz, h.length_eq, Zone.maskOf_code hz, hz, codeFault_mask]
  · rw [fault_of_ne_code hz, fault_of_ne_code fun hm => hz (h.code_iff.1 hm)]
    simp only [h.backslash_iff]

/-- **What a closed literal holds has no effect.** A scan finds the same comments and the same errors in a source
    and in its mask. -/
theorem scan_mask (source : Text) : scan (mask source) = scan source := by
  have hcomments : (scan (mask source)).comments = (scan source).comments := by
    rw [scan_comments_eq_gather, scan_comments_eq_gather]
    exact gather_mask (fun _ _ _ _ h => h.commentOf) source
  have herrors : (scan (mask source)).errors = (scan source).errors := by
    rw [scan_errors_eq_gather, scan_errors_eq_gather, bracketPairs, bracketPairs, marks_mask]
    refine gather_mask ?_ source
    intro before masked c rest h
    rw [h.fault, h.position_eq]
  show Scan.mk (scan (mask source)).comments (scan (mask source)).errors = _
  rw [hcomments, herrors]

/-- A number sign, a bracket and an escaped quote in a string, and a line end in a raw literal. -/
example : mask ['"', '#', '\\', '"', '(', '"', '\x60', '[', '\n', '\x60', '"', 'a'] =
    ['"', 'x', 'x', 'x', 'x', '"', '\x60', 'x', '\n', '\x60', '"', 'a'] := by
  decide

end PolicyTable.Rego
