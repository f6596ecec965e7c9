import PolicyTable.Proofs.Rego.Reports
import PolicyTable.Proofs.Rego.WellLexed

/-!
# `PolicyTable.Proofs.Rego.Literals` — what is reported about literals, comments and illegal characters

A literal that is not closed is reported once, at its opening quote; an illegal character of code is
reported once, where it stands. Nothing else is reported in a comment or behind the opening quote of a
literal, with one exception: a backslash in front of the line end that cuts a string off belongs to the
string and is reported as an illegal character all the same.

## Contents
- **Closing.** `closes_string_iff` and `closes_raw_iff`: when a literal has its closing quote.
- **Opening.** `exists_string_opening` and `exists_raw_opening`: where the literal was opened that a text ends
  in.
- **Reports.** `reports`, with `scan_diagnostics_eq` and `filter_diagnostics_eq` for the messages of a kind.
- **Messages.** Which faults a message stands for.

Main statement: `scan_literal_reports`.
-/

namespace PolicyTable.Rego

variable {source before rest : Text} {c : Char}

/-! ## Closing -/

theorem closes_string_cons (c : Char) (r : Text) :
    closes .string (c :: r) =
      if c = '"' then true else if c = '\n' then false
      else if c = '\\' then closes .escape r else closes .string r := by
  by_cases hq : c = '"'
  · simp [closes, Zone.next, hq]
  · by_cases hn : c = '\n'
    · simp [closes, Zone.next, hn]
    · by_cases hb : c = '\\'
      · simp [closes, Zone.next, hb]
      · simp [closes, Zone.next, hq, hn, hb]

theorem closes_escape_cons (c : Char) (r : Text) :
    closes .escape (c :: r) = if c = '\n' then false else closes .string r := by
  by_cases hn : c = '\n' <;> simp [closes, Zone.next, hn]

/-- A string is closed if its body is followed by a quote. -/
theorem closes_of_stringBody {body r : Text} (h : StringBody body) :
    closes .string (body ++ '"' :: r) = true := by
  induction h with
  | nil => simp [closes_string_cons]
  | plain hq hb hn _ ih => simpa [closes_string_cons, hq, hb, hn] using ih
  | escape hn _ ih => simpa [closes_string_cons, closes_escape_cons, hn] using ih

/-- **A string literal is closed exactly if an unescaped quote stands behind its body.** -/
theorem closes_string_iff {t : Text} :
    closes .string t = true ↔ ∃ body r, StringBody body ∧ t = body ++ '"' :: r := by
  constructor
  · -- An escape takes two characters, so the induction is on the length.
    induction hn : t.length using Nat.strongRecOn generalizing t with
    | ind n ih =>
        intro h
        cases t with
        | nil => cases h
        | cons c r =>
            rw [closes_string_cons] at h
            by_cases hq : c = '"'
            · exact ⟨[], r, .nil, by subst hq; rfl⟩
            rw [if_neg hq] at h
            by_cases hl : c = '\n'
            · simp [hl] at h
            rw [if_neg hl] at h
            by_cases hb : c = '\\'
            · rw [if_pos hb] at h
              cases r with
              | nil => cases h
              | cons d r =>
                  rw [closes_escape_cons] at h
                  by_cases hd : d = '\n'
                  · simp [hd] at h
                  rw [if_neg hd] at h
                  obtain ⟨body, r', hbody, rfl⟩ :=
                    ih r.length (by rw [← hn, List.length_cons, List.length_cons]; omega) rfl h
                  exact ⟨'\\' :: d :: body, r', .escape hd hbody, by subst hb; rfl⟩
            · rw [if_neg hb] at h
              obtain ⟨body, r', hbody, rfl⟩ := ih r.length (by rw [← hn, List.length_cons]; omega) rfl h
              exact ⟨c :: body, r', .plain hq hb hl hbody, rfl⟩
  · rintro ⟨body, r, hbody, rfl⟩
    exact closes_of_stringBody hbody

/-- **A raw literal is closed exactly if another backquote follows.** -/
theorem closes_raw_iff {t : Text} : closes .raw t = true ↔ '\x60' ∈ t := by
  induction t with
  | nil => simp [closes]
  | cons c r ih =>
      by_cases hc : c = '\x60'
      · simp [closes, Zone.next, hc]
      · have hnext : Zone.next .raw c = .raw := by simp [Zone.next, hc]
        rw [closes_cons (by simp [hnext]), hnext, ih, List.mem_cons]
        simp [Ne.symm hc]

/-! ## Opening -/

theorem Zone.next_eq_raw_iff {z : Zone} : z.next c = .raw ↔ z = .code ∧ c = '\x60' ∨ z = .raw ∧ c ≠ '\x60' := by
  cases z <;> grind [Zone.next]

theorem Zone.next_eq_escape_iff {z : Zone} : z.next c = .escape ↔ z = .string ∧ c = '\\' := by
  cases z <;> grind [Zone.next]

theorem Zone.next_eq_string_iff {z : Zone} : z.next c = .string ↔
    z = .code ∧ c = '"' ∨ z = .string ∧ c ≠ '"' ∧ c ≠ '\\' ∧ c ≠ '\n' ∨ z = .escape ∧ c ≠ '\n' := by
  cases z <;> grind [Zone.next]

/-- A raw literal that a text ends in was opened in code, and nothing has closed it. -/
theorem exists_raw_opening (h : Zone.after before = .raw) :
    ∃ front body, before = front ++ '\x60' :: body ∧ Zone.after front = .code ∧ '\x60' ∉ body := by
  induction before using List.reverseRecOn with
  | nil => cases h
  | append_singleton before c ih =>
      rw [Zone.after_concat, Zone.next_eq_raw_iff] at h
      rcases h with ⟨hz, rfl⟩ | ⟨hz, hc⟩
      · exact ⟨before, [], rfl, hz, by simp⟩
      · obtain ⟨front, body, rfl, hfront, hbody⟩ := ih hz
        refine ⟨front, body ++ [c], by simp, hfront, ?_⟩
        simp [hbody, Ne.symm hc]

/-- A string literal that a text ends in was opened in code, and what has been read of it is a body, but for
    the backslash of an escape that is not complete yet. -/
theorem exists_string_opening (before : Text) :
    (Zone.after before = .string → ∃ front body, before = front ++ '"' :: body ∧
        Zone.after front = .code ∧ StringBody body) ∧
      (Zone.after before = .escape → ∃ front body, before = front ++ '"' :: (body ++ ['\\']) ∧
        Zone.after front = .code ∧ StringBody body) := by
  induction before using List.reverseRecOn with
  | nil => exact ⟨nofun, nofun⟩
  | append_singleton before c ih =>
      obtain ⟨ihstring, ihescape⟩ := ih
      rw [Zone.after_concat, Zone.next_eq_string_iff, Zone.next_eq_escape_iff]
      constructor
      · rintro (⟨hz, rfl⟩ | ⟨hz, hq, hb, hn⟩ | ⟨hz, hn⟩)
        · exact ⟨before, [], rfl, hz, .nil⟩
        · obtain ⟨front, body, rfl, hfront, hbody⟩ := ihstring hz
          refine ⟨front, body ++ [c], by simp, hfront, ?_⟩
          exact hbody.append (.plain hq hb hn .nil)
        · obtain ⟨front, body, rfl, hfront, hbody⟩ := ihescape hz
          refine ⟨front, body ++ ['\\', c], by simp, hfront, ?_⟩
          exact hbody.append (.escape hn .nil)
      · rintro ⟨hz, rfl⟩
        obtain ⟨front, body, rfl, hfront, hbody⟩ := ihstring hz
        exact ⟨front, body, by simp, hfront, hbody⟩

/-! ## Reports -/

/-- One diagnostic for each character with a fault, at the place behind the text before it. -/
def reports (f : Text → Char → Text → Option LexicalFault) (source : Text) : List Diagnostic :=
  gather (fun before c rest =>
    (f before c rest).map fun fault => (LexicalError.mk (.after before) fault).diagnostic)
    source source.length

theorem placeAt_of_eq (hs : source = before ++ rest) : placeAt source before.length = .after before := by
  rw [hs, placeAt_length]

/-- The errors of a scan, read off the source. -/
theorem scan_errors_eq_gather (source : Text) :
    (scan source).errors = gather (fun before c rest =>
      (fault (bracketPairs source) before c rest).map (LexicalError.mk (.after before)))
      source source.length := by
  rw [scan_errors_eq, errorsBefore, gather]
  refine List.filterMap_congr fun k hk => ?_
  obtain ⟨before, c, rest, hs, rfl⟩ := exists_split (List.mem_range.1 hk)
  rw [faultAt, readAt_of_eq hs, readAt_of_eq hs, placeAt_of_eq hs]

/-- The diagnostics of a scan are those of the faults of the characters. -/
theorem scan_diagnostics_eq (source : Text) :
    (scan source).diagnostics = reports (fault (bracketPairs source)) source := by
  rw [Scan.diagnostics, scan_errors_eq_gather, ← gather_map]
  simp only [Option.map_map]
  rfl

/-- The diagnostics with some messages are those of the faults with these messages. -/
theorem filter_diagnostics_eq {p : Text → Bool} {f : Text → Char → Text → Option LexicalFault}
    (h : ∀ before c rest e, f before c rest = some e ↔
      Faulty (bracketPairs source) before c rest e ∧ p e.message = true) :
    (scan source).diagnostics.filter (fun d => p d.message) = reports f source := by
  rw [scan_diagnostics_eq, reports, reports, gather, gather, List.filter_filterMap]
  refine List.filterMap_congr fun k hk => ?_
  obtain ⟨before, c, rest, hs, rfl⟩ := exists_split (List.mem_range.1 hk)
  rw [readAt_of_eq hs, readAt_of_eq hs]
  cases hf : f before c rest with
  | some e =>
      obtain ⟨hfault, hp⟩ := (h before c rest e).1 hf
      rw [fault_eq_some_iff.2 hfault]
      exact if_pos hp
  | none =>
      cases hg : fault (bracketPairs source) before c rest with
      | none => rfl
      | some e =>
          have hp : p e.message ≠ true := fun hp => by
            rw [(h before c rest e).2 ⟨fault_eq_some_iff.1 hg, hp⟩] at hf
            cases hf
          exact if_neg hp

theorem mem_diagnostics_iff {d : Diagnostic} :
    d ∈ (scan source).diagnostics ↔ ∃ before c rest e, source = before ++ c :: rest ∧
      Faulty (bracketPairs source) before c rest e ∧ d = (LexicalError.mk (.after before) e).diagnostic := by
  rw [scan_diagnostics_eq, reports, mem_gather_iff]
  constructor
  · rintro ⟨k, _, hk⟩
    obtain ⟨before, c, rest, hs, _, hd⟩ := readAt_eq_some_iff.1 hk
    obtain ⟨e, he, rfl⟩ := Option.map_eq_some_iff.1 hd
    exact ⟨before, c, rest, e, hs, fault_eq_some_iff.1 he, rfl⟩
  · rintro ⟨before, c, rest, e, hs, he, rfl⟩
    refine ⟨before.length, by simp [hs], readAt_eq_some_iff.2 ⟨before, c, rest, hs, rfl, ?_⟩⟩
    rw [fault_eq_some_iff.2 he]
    rfl

/-- A place of a source has one character. -/
theorem eq_of_after_eq {before' rest' : Text} {c' : Char} (hs : source = before ++ c :: rest)
    (hs' : source = before' ++ c' :: rest') (h : Position.after before = .after before') :
    before = before' ∧ c = c' ∧ rest = rest' := by
  rw [← placeAt_of_eq hs, ← placeAt_of_eq hs', placeAt_inj (by simp [hs]) (by simp [hs'])] at h
  obtain ⟨hb, hr⟩ := List.append_inj (hs ▸ hs') h
  exact ⟨hb, List.cons.inj hr⟩

/-! ## Messages -/

/-- Does the message say that a character is illegal? -/
def saysIllegal (message : Text) : Bool := "illegal token ".toList.isPrefixOf message

theorem saysIllegal_iff {f : LexicalFault} : saysIllegal f.message = true ↔ ∃ c, f = .illegal c := by
  constructor
  · intro h
    cases f with
    | illegal c => exact ⟨c, rfl⟩
    | unexpected b => cases b <;> cases h
    | unclosed b => cases b <;> cases h
    | unterminatedString => cases h
    | unterminatedRaw => cases h
  · rintro ⟨c, rfl⟩
    exact List.isPrefixOf_iff_prefix.2 ⟨Text.quoted [c], rfl⟩

/-- The message of an illegal character begins with another letter than the others. -/
theorem illegal_message_ne {c : Char} {t : Text} (ht : t.head? ≠ some 'i') :
    (LexicalFault.illegal c).message ≠ t :=
  fun h => ht (congrArg List.head? h).symm

theorem message_eq_string_iff {f : LexicalFault} :
    f.message = LexicalFault.unterminatedString.message ↔ f = .unterminatedString := by
  refine ⟨fun h => ?_, fun h => h ▸ rfl⟩
  cases f with
  | illegal c => exact absurd h (illegal_message_ne (by decide))
  | unexpected b => cases b <;> exact absurd h (by decide)
  | unclosed b => cases b <;> exact absurd h (by decide)
  | unterminatedString => rfl
  | unterminatedRaw => exact absurd h (by decide)

theorem message_eq_raw_iff {f : LexicalFault} :
    f.message = LexicalFault.unterminatedRaw.message ↔ f = .unterminatedRaw := by
  refine ⟨fun h => ?_, fun h => h ▸ rfl⟩
  cases f with
  | illegal c => exact absurd h (illegal_message_ne (by decide))
  | unexpected b => cases b <;> exact absurd h (by decide)
  | unclosed b => cases b <;> exact absurd h (by decide)
  | unterminatedString => exact absurd h (by decide)
  | unterminatedRaw => rfl

/-! ## Literals -/

/-- An illegal character outside every comment and literal. -/
def illegalInCode (before : Text) (c : Char) (_rest : Text) : Option LexicalFault :=
  if Zone.after before = .code ∧ c ∈ illegalCharacters then some (.illegal c) else none

/-- A backslash of a string, in front of the line end that cuts the string off. -/
def cutBackslash (before : Text) (c : Char) (rest : Text) : Option LexicalFault :=
  if Zone.after before = .string ∧ c = '\\' ∧ rest.head? = some '\n' then some (.illegal c) else none

/-- The opening quote of a string that a line end or the end of the source cuts off. -/
def cutString (before : Text) (c : Char) (rest : Text) : Option LexicalFault :=
  if Zone.after before = .code ∧ c = '"' ∧ closes .string rest = false then some .unterminatedString
  else none

/-- The opening backquote of a raw literal that the end of the source cuts off. -/
def cutRaw (before : Text) (c : Char) (rest : Text) : Option LexicalFault :=
  if Zone.after before = .code ∧ c = '\x60' ∧ closes .raw rest = false then some .unterminatedRaw
  else none

theorem illegal_reports (source : Text) :
    (scan source).diagnostics.filter (fun d => saysIllegal d.message) =
      reports (fun before c rest => (illegalInCode before c rest).or (cutBackslash before c rest)) source := by
  refine filter_diagnostics_eq fun before c rest e => ?_
  rw [saysIllegal_iff]
  constructor
  · intro h
    rcases Option.or_eq_some_iff.1 h with h | ⟨_, h⟩
    · obtain ⟨⟨hz, hc⟩, he⟩ := Option.ite_none_right_eq_some.1 h
      exact ⟨Option.some.inj he ▸ .illegal hz hc, c, (Option.some.inj he).symm⟩
    · obtain ⟨⟨hz, hc, hr⟩, he⟩ := Option.ite_none_right_eq_some.1 h
      exact ⟨Option.some.inj he ▸ .backslash hz hc hr, c, (Option.some.inj he).symm⟩
  · rintro ⟨hf, d, rfl⟩
    cases hf with
    | illegal hz hc => simp [illegalInCode, hz, hc]
    | backslash hz hc hr => simp [illegalInCode, cutBackslash, hz, hc, hr]

theorem cutString_reports (source : Text) :
    (scan source).diagnostics.filter (fun d => d.message = LexicalFault.unterminatedString.message) =
      reports cutString source := by
  refine filter_diagnostics_eq (p := fun t => decide (t = LexicalFault.unterminatedString.message))
    fun before c rest e => ?_
  rw [decide_eq_true_iff, message_eq_string_iff]
  constructor
  · intro h
    obtain ⟨⟨hz, hc, hr⟩, he⟩ := Option.ite_none_right_eq_some.1 h
    exact ⟨Option.some.inj he ▸ .string hz hc hr, (Option.some.inj he).symm⟩
  · rintro ⟨hf, rfl⟩
    cases hf with
    | string hz hc hr => simp [cutString, hz, hc, hr]

theorem cutRaw_reports (source : Text) :
    (scan source).diagnostics.filter (fun d => d.message = LexicalFault.unterminatedRaw.message) =
      reports cutRaw source := by
  refine filter_diagnostics_eq (p := fun t => decide (t = LexicalFault.unterminatedRaw.message))
    fun before c rest e => ?_
  rw [decide_eq_true_iff, message_eq_raw_iff]
  constructor
  · intro h
    obtain ⟨⟨hz, hc, hr⟩, he⟩ := Option.ite_none_right_eq_some.1 h
    exact ⟨Option.some.inj he ▸ .raw hz hc hr, (Option.some.inj he).symm⟩
  · rintro ⟨hf, rfl⟩
    cases hf with
    | raw hz hc hr => simp [cutRaw, hz, hc, hr]

/-- In a comment, and behind the opening quote of a literal, nothing has a fault but that backslash. -/
theorem Faulty.cut {pairs : List (Nat × Nat)} {e : LexicalFault} (h : Faulty pairs before c rest e)
    (hin : Zone.after before ≠ .code ∨ c = '#') : cutBackslash before c rest = some e := by
  have hcode : Zone.after before = .code → c = '#' := fun hz => hin.resolve_left (· hz)
  cases h with
  | string hz hc => exact absurd (hc.symm.trans (hcode hz)) (by decide)
  | raw hz hc => exact absurd (hc.symm.trans (hcode hz)) (by decide)
  | unclosed hz hc => exact absurd (hc.symm.trans (hcode hz)) (Bracket.opening_ne _).1
  | unexpected hz hc => exact absurd (hc.symm.trans (hcode hz)) (Bracket.closing_ne _).1
  | illegal hz hc => exact absurd (hcode hz) (illegal_ne hc).1
  | backslash hz hc hr => exact if_pos ⟨hz, hc, hr⟩

/-- **What a scan reports of literals, comments and illegal characters.** The illegal characters are those of
    code and the backslashes that a line end follows inside a string. A string or a raw literal that is cut
    off is reported once, at its opening quote. In a comment, and behind the opening quote of a literal,
    nothing else is reported. -/
theorem scan_literal_reports (source : Text) :
    (scan source).diagnostics.filter (fun d => saysIllegal d.message) =
        reports (fun before c rest => (illegalInCode before c rest).or (cutBackslash before c rest)) source ∧
      (scan source).diagnostics.filter (fun d => d.message = LexicalFault.unterminatedString.message) =
        reports cutString source ∧
      (scan source).diagnostics.filter (fun d => d.message = LexicalFault.unterminatedRaw.message) =
        reports cutRaw source ∧
      ∀ before c rest, source = before ++ c :: rest → Zone.after before ≠ .code ∨ c = '#' →
        ∀ d ∈ (scan source).diagnostics, d.line = (Position.after before).line →
          d.column = (Position.after before).column →
            ∃ e, cutBackslash before c rest = some e ∧ d.message = e.message := by
  refine ⟨illegal_reports source, cutString_reports source, cutRaw_reports source, ?_⟩
  intro before c rest hs hin d hd hline hcol
  obtain ⟨before', c', rest', e, hs', he, rfl⟩ := mem_diagnostics_iff.1 hd
  have hplace : Position.after before' = .after before := by
    rw [Position.mk.injEq]
    exact ⟨Int.ofNat_inj.1 hline, Int.ofNat_inj.1 hcol⟩
  obtain ⟨rfl, rfl, rfl⟩ := eq_of_after_eq hs' hs hplace
  exact ⟨e, he.cut hin, rfl⟩

/-- A string that is cut off behind a backslash is reported twice, the second time inside the string. -/
theorem scan_cut_behind_backslash :
    (scan ['"', 'a', '\\', '\n']).diagnostics =
        [⟨1, 1, "non-terminated string".toList⟩, ⟨1, 3, "illegal token '\\\\'".toList⟩] ∧
      (scan ['"', 'a', '\\', '\n']).diagnostics.filter (fun d => saysIllegal d.message) ≠
        reports illegalInCode ['"', 'a', '\\', '\n'] ∧
      Zone.after ['"', 'a'] = .string := by
  rw [scan_diagnostics_eq]
  decide

end PolicyTable.Rego
