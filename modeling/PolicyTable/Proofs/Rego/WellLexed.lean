import PolicyTable.Proofs.Rego.Steps

/-!
# `PolicyTable.Proofs.Rego.WellLexed` — the sources without lexical errors

A source is well lexed if it is a sequence of comments, closed literals, closed groups of brackets and
other characters that are not reserved. The scanner has a stack and recovers from errors; the grammar here
has neither.

## Contents
- **Grammar.** `StringBody`, `Items` and `WellLexed`.
- **Reading.** `Passes`: the scan goes over a text in code and comes out as it went in, but for the
  comments. Every sequence of items is such a text (`Items.passes`).
- **Parsing.** `Parsed`: while there is no error, what has been read is a beginning of such a sequence.

Main statement: `scan_diagnostics_eq_nil_iff`.
-/

namespace PolicyTable.Rego

open Scanner

/-! ## Grammar -/

/-- What stands between the quotes of a string literal. -/
inductive StringBody : Text → Prop
  | nil : StringBody []
  | plain {c : Char} {r : Text} (hq : c ≠ '"') (hb : c ≠ '\\') (hn : c ≠ '\n')
      (h : StringBody r) : StringBody (c :: r)
  | escape {c : Char} {r : Text} (hn : c ≠ '\n') (h : StringBody r) : StringBody ('\\' :: c :: r)

/-- A sequence of items: comments with the ends of their lines, string literals, raw literals, groups
    between brackets of one kind, and characters that are not reserved. -/
inductive Items : Text → Prop
  | nil : Items []
  | comment {body r : Text} (hb : '\n' ∉ body) (h : Items r) : Items ('#' :: body ++ '\n' :: r)
  | string {body r : Text} (hb : StringBody body) (h : Items r) : Items ('"' :: body ++ '"' :: r)
  | raw {body r : Text} (hb : '\x60' ∉ body) (h : Items r) :
      Items ('\x60' :: body ++ '\x60' :: r)
  | group {b : Bracket} {inner r : Text} (hi : Items inner) (h : Items r) :
      Items (b.opening :: inner ++ b.closing :: r)
  | plain {c : Char} {r : Text} (hc : c ∉ reserved) (h : Items r) : Items (c :: r)

/-- A well-lexed source: items, and perhaps a comment that the end of the source ends. -/
inductive WellLexed : Text → Prop
  | items {t : Text} (h : Items t) : WellLexed t
  | lastComment {t body : Text} (h : Items t) (hb : '\n' ∉ body) : WellLexed (t ++ '#' :: body)

theorem StringBody.append {t u : Text} (ht : StringBody t) (hu : StringBody u) :
    StringBody (t ++ u) := by
  induction ht with
  | nil => exact hu
  | plain hq hb hn _ ih => exact .plain hq hb hn ih
  | escape hn _ ih => exact .escape hn ih

theorem Items.append {t u : Text} (ht : Items t) (hu : Items u) : Items (t ++ u) := by
  induction ht with
  | nil => exact hu
  | comment hb _ ih => simpa using Items.comment hb ih
  | string hb _ ih => simpa using Items.string hb ih
  | raw hb _ ih => simpa using Items.raw hb ih
  | group hi _ _ ih => simpa using Items.group hi ih
  | plain hc _ ih => exact .plain hc ih

/-! ## Reading -/

/-- **The scan passes over a text.** From code it comes back to code behind the text, with the same errors
    and the same open brackets, and with new comments of the given texts. -/
def Passes (t : Text) (texts : List Text) : Prop :=
  ∀ (s : Scanner) (before r : Text), s.mode = .code → s.cursor = .between before (t ++ r) →
    ∃ new : List Comment, new.map (·.text) = texts ∧
      Reaches s { s with cursor := .between (before ++ t) r, comments := s.comments ++ new }

theorem Passes.nil : Passes [] [] := by
  intro s before r _ hc
  refine ⟨[], rfl, ?_⟩
  have hs : s = { s with cursor := .between (before ++ []) r, comments := s.comments ++ [] } := by
    simpa using congrArg (fun c => { s with cursor := c }) hc
  exact hs ▸ .refl s

theorem Passes.append {t u : Text} {xs ys : List Text} (ht : Passes t xs) (hu : Passes u ys) :
    Passes (t ++ u) (xs ++ ys) := by
  intro s before r hm hc
  rw [List.append_assoc] at hc
  obtain ⟨new, rfl, h1⟩ := ht s before (u ++ r) hm hc
  obtain ⟨new', rfl, h2⟩ := hu
    { s with cursor := .between (before ++ t) (u ++ r), comments := s.comments ++ new }
    (before ++ t) r hm rfl
  refine ⟨new ++ new', by simp, h1.trans ?_⟩
  simpa using h2

/-- A character that is not reserved is passed over. -/
theorem Passes.plain {c : Char} (hc : c ∉ reserved) : Passes [c] [] := by
  intro s before r hm hcur
  have hr : s.cursor.rest = c :: r := by rw [hcur]; rfl
  have h := (Step.plain hm hr hc).reaches
  refine ⟨[], rfl, ?_⟩
  simpa [advance, hcur] using h

/-- A comment is passed over up to the end of its line. -/
theorem reaches_comment {s : Scanner} {before body r : Text} (hm : s.mode = .code)
    (hc : s.cursor = .between before ('#' :: body ++ r)) (hb : '\n' ∉ body) (he : AtLineEnd r) :
    ∃ c : Comment, c.text = commentText body ∧
      Reaches s
        { s with cursor := .between (before ++ '#' :: body) r, comments := s.comments ++ [c] } := by
  have hr : s.cursor.rest = '#' :: (body ++ r) := by rw [hc]; rfl
  have h := (Step.comment hm hr hb he).reaches
  have hskip : s.cursor.skip (body.length + 1) = .between (before ++ '#' :: body) r := by
    rw [hc]
    exact Cursor.skip_between (by simpa using hb)
  rw [hskip] at h
  exact ⟨_, rfl, h⟩

theorem Passes.comment {body : Text} (hb : '\n' ∉ body) :
    Passes ('#' :: body ++ ['\n']) [commentText body] := by
  intro s before r hm hc
  obtain ⟨c, hct, h1⟩ := reaches_comment hm (r := '\n' :: r) (by simpa using hc) hb .atNewline
  obtain ⟨new, hnew, h2⟩ := Passes.plain (c := '\n') (by decide)
    { s with
      cursor := .between (before ++ '#' :: body) ('\n' :: r)
      comments := s.comments ++ [c] }
    (before ++ '#' :: body) r hm rfl
  obtain rfl := List.map_eq_nil_iff.1 hnew
  refine ⟨[c], by simp [hct], h1.trans ?_⟩
  simpa using h2

theorem StringBody.reaches {body : Text} (hb : StringBody body) {s : Scanner} {p : Position}
    {before r : Text} (hm : s.mode = .string p)
    (hc : s.cursor = .between before (body ++ '"' :: r)) :
    Reaches s { s with cursor := .between (before ++ body ++ ['"']) r, mode := .code } := by
  induction hb generalizing s before with
  | nil =>
      have h := (Step.stringEnd hm (r := r) (by rw [hc]; rfl)).reaches
      simpa [advance, hc] using h
  | @plain c body hq hb hn _ ih =>
      have h1 := (Step.stringBody hm (c := c) (r := body ++ '"' :: r) (by rw [hc]; rfl) hq hn
        (fun h => absurd h hb)).reaches
      have hc' : s.advance.cursor = .between (before ++ [c]) (body ++ '"' :: r) := by simp [hc]
      refine h1.trans ?_
      simpa using ih (s := s.advance) hm hc'
  | @escape c body hn _ ih =>
      have h1 := (Step.escape hm (c := c) (r := body ++ '"' :: r) (by rw [hc]; rfl) hn).reaches
      have hc' : s.advance.advance.cursor =
          .between (before ++ ['\\'] ++ [c]) (body ++ '"' :: r) := by simp [hc]
      refine h1.trans ?_
      simpa using ih (s := s.advance.advance) hm hc'

theorem Passes.string {body : Text} (hb : StringBody body) : Passes ('"' :: body ++ ['"']) [] := by
  intro s before r hm hc
  have h1 := (Step.stringStart hm (r := body ++ '"' :: r) (by rw [hc]; simp)).reaches
  have hc' : s.advance.cursor = .between (before ++ ['"']) (body ++ '"' :: r) := by simp [hc]
  have h2 := hb.reaches (s := { s.advance with mode := .string s.cursor.position }) rfl hc'
  refine ⟨[], rfl, h1.trans ?_⟩
  simpa [hm] using h2

theorem reaches_rawBody {body : Text} (hb : '\x60' ∉ body) {s : Scanner} {p : Position}
    {before r : Text} (hm : s.mode = .raw p)
    (hc : s.cursor = .between before (body ++ '\x60' :: r)) :
    Reaches s { s with cursor := .between (before ++ body ++ ['\x60']) r, mode := .code } := by
  induction body generalizing s before with
  | nil =>
      have h := (Step.rawEnd hm (r := r) (by rw [hc]; rfl)).reaches
      simpa [advance, hc] using h
  | cons c body ih =>
      obtain ⟨hq, hb⟩ := not_or.1 (mt List.mem_cons.2 hb)
      have h1 := (Step.rawBody hm (c := c) (r := body ++ '\x60' :: r) (by rw [hc]; rfl)
        (Ne.symm hq)).reaches
      have hc' : s.advance.cursor = .between (before ++ [c]) (body ++ '\x60' :: r) := by simp [hc]
      refine h1.trans ?_
      simpa using ih hb (s := s.advance) hm hc'

theorem Passes.raw {body : Text} (hb : '\x60' ∉ body) :
    Passes ('\x60' :: body ++ ['\x60']) [] := by
  intro s before r hm hc
  have h1 := (Step.rawStart hm (r := body ++ '\x60' :: r) (by rw [hc]; simp)).reaches
  have hc' : s.advance.cursor = .between (before ++ ['\x60']) (body ++ '\x60' :: r) := by simp [hc]
  have h2 := reaches_rawBody hb (s := { s.advance with mode := .raw s.cursor.position }) rfl hc'
  refine ⟨[], rfl, h1.trans ?_⟩
  simpa [hm] using h2

/-- A group closes its own bracket and leaves those around it open. -/
theorem Passes.group {b : Bracket} {inner : Text} {xs : List Text} (h : Passes inner xs) :
    Passes (b.opening :: inner ++ [b.closing]) xs := by
  intro s before r hm hc
  have h1 := (Step.opening hm (b := b) (r := inner ++ b.closing :: r) (by rw [hc]; simp)).reaches
  -- The inside leaves the brackets as they are, so the closing one meets its opening one again.
  obtain ⟨new, rfl, h2⟩ := h { s.advance with brackets := (b, s.cursor.position) :: s.brackets }
    (before ++ [b.opening]) (b.closing :: r) hm (by simp [hc])
  refine ⟨new, rfl, h1.trans (h2.trans ?_)⟩
  have h3 := Step.closing (b := b) (r := r)
    (s := { s with
      cursor := .between (before ++ [b.opening] ++ inner) (b.closing :: r)
      comments := s.comments ++ new
      brackets := (b, s.cursor.position) :: s.brackets }) hm rfl rfl
  simpa [advance] using h3.reaches

theorem Items.passes {t : Text} (h : Items t) : ∃ texts, Passes t texts := by
  induction h with
  | nil => exact ⟨[], .nil⟩
  | comment hb _ ih =>
      obtain ⟨xs, hx⟩ := ih
      exact ⟨_, by simpa using (Passes.comment hb).append hx⟩
  | string hb _ ih =>
      obtain ⟨xs, hx⟩ := ih
      exact ⟨xs, by simpa using (Passes.string hb).append hx⟩
  | raw hb _ ih =>
      obtain ⟨xs, hx⟩ := ih
      exact ⟨xs, by simpa using (Passes.raw hb).append hx⟩
  | group _ _ ihi ih =>
      obtain ⟨xs, hx⟩ := ihi
      obtain ⟨ys, hy⟩ := ih
      exact ⟨_, by simpa using (Passes.group hx).append hy⟩
  | plain hc _ ih =>
      obtain ⟨xs, hx⟩ := ih
      exact ⟨xs, (Passes.plain hc).append hx⟩

/-- A source that the scan passes over is scanned without errors, and its comments are the new ones. -/
theorem finalState_of_passes {t : Text} {texts : List Text} (h : Passes t texts) :
    (finalState t).comments.map (·.text) = texts ∧ (finalState t).errors = [] ∧
      (finalState t).brackets = [] := by
  obtain ⟨new, hnew, hreach⟩ := h (start t) [] [] rfl (by simp [start, Cursor.between]; rfl)
  rw [← eq_finalState hreach rfl rfl]
  exact ⟨hnew, rfl, rfl⟩

/-- A comment at the end of the source adds no error, and it is a comment. -/
theorem finalState_of_passes_comment {t body : Text} {texts : List Text} (h : Passes t texts)
    (hb : '\n' ∉ body) :
    (finalState (t ++ '#' :: body)).comments ≠ [] ∧ (finalState (t ++ '#' :: body)).errors = [] ∧
      (finalState (t ++ '#' :: body)).brackets = [] := by
  obtain ⟨new, _, h1⟩ := h (start (t ++ '#' :: body)) [] ('#' :: body) rfl rfl
  have hc : Cursor.between ([] ++ t) ('#' :: body) = .between ([] ++ t) ('#' :: body ++ []) := by
    rw [List.append_nil]
  obtain ⟨c, _, h2⟩ := reaches_comment
    (s := { start (t ++ '#' :: body) with
      cursor := .between ([] ++ t) ('#' :: body)
      comments := (start (t ++ '#' :: body)).comments ++ new }) rfl hc hb .atEnd
  rw [← eq_finalState (h1.trans h2) rfl rfl]
  exact ⟨by simp, rfl, rfl⟩

theorem finalState_of_wellLexed {t : Text} (h : WellLexed t) :
    (finalState t).errors = [] ∧ (finalState t).brackets = [] := by
  cases h with
  | items h =>
      obtain ⟨texts, hp⟩ := h.passes
      exact (finalState_of_passes hp).2
  | lastComment h hb =>
      obtain ⟨texts, hp⟩ := h.passes
      exact (finalState_of_passes_comment hp hb).2

/-! ## Parsing -/

/-- The items in front of each open bracket, outermost first, and those behind the innermost one. -/
inductive Open : List Bracket → Text → Prop
  | outside {t : Text} (h : Items t) : Open [] t
  | inside {b : Bracket} {bs : List Bracket} {outer inner : Text} (ho : Open bs outer)
      (hi : Items inner) : Open (b :: bs) (outer ++ b.opening :: inner)

theorem Open.append {bs : List Bracket} {t u : Text} (ht : Open bs t) (hu : Items u) :
    Open bs (t ++ u) := by
  cases ht with
  | outside h => exact .outside (h.append hu)
  | @inside b bs outer inner ho hi =>
      rw [List.append_assoc, List.cons_append]
      exact .inside ho (hi.append hu)

theorem Open.opening {b : Bracket} {bs : List Bracket} {t : Text} (h : Open bs t) :
    Open (b :: bs) (t ++ [b.opening]) :=
  .inside h .nil

/-- A closing bracket makes the innermost open part a group. -/
theorem Open.closing {b : Bracket} {bs : List Bracket} {t : Text} (h : Open (b :: bs) t) :
    Open bs (t ++ [b.closing]) := by
  cases h with
  | inside ho hi =>
      rw [List.append_assoc]
      exact ho.append (by simpa using Items.group hi .nil)

/-- What has been read while there was no error, by the open brackets and the mode. The line end of a
    comment may still be ahead. -/
inductive Parsed (bs : List Bracket) : Mode → Text → Text → Prop
  | code {before rest : Text} (h : Open bs before) : Parsed bs .code before rest
  | comment {t body rest : Text} (h : Open bs t) (hb : '\n' ∉ body) (he : AtLineEnd rest) :
      Parsed bs .code (t ++ '#' :: body) rest
  | string {p : Position} {t body rest : Text} (h : Open bs t) (hb : StringBody body) :
      Parsed bs (.string p) (t ++ '"' :: body) rest
  | stringAtEnd {p : Position} {before : Text} : Parsed bs (.string p) before []
  | raw {p : Position} {t body rest : Text} (h : Open bs t) (hb : '\x60' ∉ body) :
      Parsed bs (.raw p) (t ++ '\x60' :: body) rest

theorem Parsed.isOpen {bs : List Bracket} {before r : Text} {c : Char}
    (h : Parsed bs .code before (c :: r)) (hc : c ≠ '\n') : Open bs before := by
  cases h with
  | code h => exact h
  | comment _ _ he => cases he; exact absurd rfl hc

/-- A line end completes a comment, and any other character that is not reserved is an item. -/
theorem Parsed.plain {bs : List Bracket} {before r : Text} {c : Char}
    (h : Parsed bs .code before (c :: r)) (hc : c ∉ reserved) : Open bs (before ++ [c]) := by
  cases h with
  | code h => exact h.append (.plain hc .nil)
  | comment h hb he =>
      cases he
      rw [List.append_assoc]
      exact h.append (by simpa using Items.comment hb .nil)

/-- **The invariant of parsing.** As long as nothing is reported, the source is parsed up to the cursor. -/
def Parses (source : Text) (s : Scanner) : Prop :=
  s.errors = [] → ∃ before, source = before ++ s.cursor.rest ∧
    Parsed (s.brackets.map (·.1)) s.mode before s.cursor.rest

theorem Parses.start (source : Text) : Parses source (start source) :=
  fun _ => ⟨[], rfl, .code (.outside .nil)⟩

variable {source : Text} {s t : Scanner}

/-- A step over one character that reports nothing. -/
theorem parses_advance {c : Char} {r before : Text} (hs : source = before ++ s.cursor.rest)
    (hr : s.cursor.rest = c :: r) (hcur : t.cursor = s.cursor.advance)
    (hp : Parsed (t.brackets.map (·.1)) t.mode (before ++ [c]) r) : Parses source t := by
  intro _
  have hrt : t.cursor.rest = r := by rw [hcur, rest_advance hr]
  refine ⟨before ++ [c], ?_, hrt ▸ hp⟩
  rw [hs, hr, hrt, List.append_cons]

/-- **Every step keeps the source parsed.** -/
theorem Scanner.Step.parses (hst : Step s t) (hs : Parses source s) : Parses source t := by
  intro he
  -- Errors are never taken back: without one now there was none before.
  have hse : s.errors = [] := by
    cases hst <;> first | exact he | simp [report] at he
  obtain ⟨before, hsrc, hp⟩ := hs hse
  revert he
  cases hst with
  | @comment line r hm hr hl hend =>
      rw [hm, hr] at hp
      intro _
      have hrest : (s.cursor.skip (line.length + 1)).rest = r := by simp [Cursor.skip, hr]
      refine ⟨before ++ '#' :: line, ?_, ?_⟩
      · rw [hsrc, hr, hrest, List.append_assoc, List.cons_append]
      · rw [hrest, hm]
        exact .comment (hp.isOpen (by decide)) hl hend
  | stringStart hm hr =>
      rw [hm, hr] at hp
      exact parses_advance hsrc hr rfl (.string (hp.isOpen (by decide)) .nil)
  | rawStart hm hr =>
      rw [hm, hr] at hp
      exact parses_advance hsrc hr rfl (.raw (hp.isOpen (by decide)) (by simp))
  | @opening b r hm hr =>
      rw [hm, hr] at hp
      have ho := hp.isOpen (by cases b <;> decide)
      exact parses_advance hsrc hr rfl (hm ▸ .code ho.opening)
  | @closing b p outer r hm hr hb =>
      rw [hm, hr, hb] at hp
      have ho := hp.isOpen (by cases b <;> decide)
      exact parses_advance hsrc hr rfl (hm ▸ .code ho.closing)
  | unexpected => intro he; simp [report] at he
  | illegal => intro he; simp [report] at he
  | plain hm hr hc =>
      rw [hm, hr] at hp
      exact parses_advance hsrc hr rfl (hm ▸ .code (hp.plain hc))
  | stringCut => intro he; simp [report] at he
  | @escape p c r hm hr hc =>
      rw [hm, hr] at hp
      intro _
      have hrest : s.advance.advance.cursor.rest = r := rest_advance (rest_advance hr)
      cases hp with
      | @string _ t body _ h hb =>
          refine ⟨t ++ '"' :: (body ++ ['\\', c]), ?_, ?_⟩
          · rw [hsrc, hr, hrest]
            simp
          · rw [hrest]
            exact hm ▸ .string h (hb.append (.escape hc .nil))
  | stringEnd hm hr =>
      rw [hm, hr] at hp
      cases hp with
      | string h hb =>
          refine parses_advance hsrc hr rfl (.code ?_)
          rw [List.append_assoc]
          exact h.append (by simpa using Items.string hb .nil)
  | @stringBody p c r hm hr hq hn hb =>
      rw [hm, hr] at hp
      refine parses_advance hsrc hr rfl ?_
      cases hp with
      | @string _ t body _ h hbody =>
          rw [List.append_assoc, List.cons_append]
          by_cases hc : c = '\\'
          · -- Only the end of the source is behind this backslash, and the literal will be cut off there.
            rw [hb hc]
            exact hm ▸ .stringAtEnd
          · exact hm ▸ .string h (hbody.append (.plain hq hc hn .nil))
  | rawCut => intro he; simp [report] at he
  | rawEnd hm hr =>
      rw [hm, hr] at hp
      cases hp with
      | raw h hb =>
          refine parses_advance hsrc hr rfl (.code ?_)
          rw [List.append_assoc]
          exact h.append (by simpa using Items.raw hb .nil)
  | @rawBody p c r hm hr hc =>
      rw [hm, hr] at hp
      refine parses_advance hsrc hr rfl ?_
      cases hp with
      | @raw _ t body _ h hbody =>
          rw [List.append_assoc, List.cons_append]
          exact hm ▸ .raw h (by simp [hbody, Ne.symm hc])

/-- A scan that ends without an error and without an open bracket has parsed its source. -/
theorem wellLexed_of_finalState {source : Text} (he : (finalState source).errors = [])
    (hb : (finalState source).brackets = []) : WellLexed source := by
  have hinv : Parses source (finalState source) :=
    (reaches_finalState source).invariant Step.parses (.start source)
  obtain ⟨before, hsrc, hp⟩ := hinv he
  obtain ⟨hm, hr⟩ := step_eq_none_iff.1 (step_finalState source)
  rw [hm, hr, hb] at hp
  rw [hr, List.append_nil] at hsrc
  subst hsrc
  -- In code and without open brackets, all is items, or a comment is the last of them.
  cases hp with
  | code h =>
      cases h with
      | outside h => exact .items h
  | comment h hbody _ =>
      cases h with
      | outside h => exact .lastComment h hbody

/-- Nothing is reported exactly if nothing was met and no bracket is left open. -/
theorem diagnostics_eq_nil_iff_finalState {source : Text} :
    (scan source).diagnostics = [] ↔
      (finalState source).errors = [] ∧ (finalState source).brackets = [] := by
  have hlen : (scan source).errors.length =
      (finalState source).errors.length + (finalState source).brackets.length := by
    simp [scan, allErrors]
  unfold Scan.diagnostics
  rw [List.map_eq_nil_iff, ← List.length_eq_zero_iff, hlen, ← List.length_eq_zero_iff,
    ← List.length_eq_zero_iff, Nat.add_eq_zero_iff]

/-- **A scan reports nothing exactly if its source is well lexed.** -/
theorem scan_diagnostics_eq_nil_iff (source : Text) :
    (scan source).diagnostics = [] ↔ WellLexed source := by
  rw [diagnostics_eq_nil_iff_finalState]
  exact ⟨fun h => wellLexed_of_finalState h.1 h.2, finalState_of_wellLexed⟩

end PolicyTable.Rego
