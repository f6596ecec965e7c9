import Mathlib.Tactic.SplitIfs
import PolicyTable.Proofs.Sequence
import PolicyTable.Text.Utf8

/-!
# `PolicyTable.Proofs.Text.Utf8` — the bytes that are a text

A character is written as one to four bytes. Which ones is told by its value alone: the first byte says how many
there are and has the highest bits, and each of the others has six more. No character can be written with more
bytes than its value needs, and there is none among the surrogates or above U+10FFFF.

A reader sees the bytes the other way round. It takes bounds on the second byte from the first one, and those are
just the bounds that leave the forms of characters over.

## Contents
- **Forms.** `Writes` and `WritesText`; `writes_encodeChar`, and no other bytes write the same (`Writes.unique`).
- **Sequences.** `Trails`: the bytes that end a sequence under way. `start?_trails_iff`: a whole sequence is the form of
  a character.
- **Reading.** `decodeFrom_cons_iff` for the first character and `decode_eq_ok_iff` for all of them.

Main statements: `decode_eq_ok_iff` and `decode_encode`.
-/

namespace PolicyTable.Text.Utf8

variable {c : Char} {a b : UInt8} {bytes front rest : List UInt8} {text : Text} {p : Pending} {offset value : Nat}

/-! ## Forms -/

/-- The bytes of one character. -/
inductive Writes (c : Char) : List UInt8 → Prop
  | one {b₁ : UInt8} (range : c.toNat < 0x80) (first : b₁.toNat = c.toNat) : Writes c [b₁]
  | two {b₁ b₂ : UInt8} (range : 0x80 ≤ c.toNat ∧ c.toNat < 0x800) (first : b₁.toNat = 0xc0 + c.toNat / 64)
      (second : b₂.toNat = 0x80 + c.toNat % 64) : Writes c [b₁, b₂]
  | three {b₁ b₂ b₃ : UInt8} (range : 0x800 ≤ c.toNat ∧ c.toNat < 0x10000)
      (first : b₁.toNat = 0xe0 + c.toNat / 64 / 64) (second : b₂.toNat = 0x80 + c.toNat / 64 % 64)
      (third : b₃.toNat = 0x80 + c.toNat % 64) : Writes c [b₁, b₂, b₃]
  | four {b₁ b₂ b₃ b₄ : UInt8} (range : 0x10000 ≤ c.toNat) (first : b₁.toNat = 0xf0 + c.toNat / 64 / 64 / 64)
      (second : b₂.toNat = 0x80 + c.toNat / 64 / 64 % 64) (third : b₃.toNat = 0x80 + c.toNat / 64 % 64)
      (fourth : b₄.toNat = 0x80 + c.toNat % 64) : Writes c [b₁, b₂, b₃, b₄]

/-- The bytes of a text: those of its characters, one after the other. -/
inductive WritesText : Text → List UInt8 → Prop
  | nil : WritesText [] []
  | cons {c : Char} {text : Text} {front rest : List UInt8} (first : Writes c front) (others : WritesText text rest) :
      WritesText (c :: text) (front ++ rest)

theorem toNat_cases (c : Char) : c.toNat < 0xd800 ∨ 0xdfff < c.toNat ∧ c.toNat < 0x110000 := c.valid

theorem Writes.ne_nil (h : Writes c bytes) : bytes ≠ [] := by
  cases h <;> simp

/-- The writer writes a character as it is to be written. -/
theorem writes_encodeChar (c : Char) : Writes c (String.utf8EncodeChar c) := by
  have hc := toNat_cases c
  have hval : c.val.toNat = c.toNat := rfl
  rw [String.utf8EncodeChar, hval]
  split_ifs with h₁ h₂ h₃
  · refine .one (by omega) ?_
    all_goals rw [UInt8.toNat_ofNat', Nat.mod_eq_of_lt (by omega)]
  · refine .two (by omega) ?_ ?_
    all_goals rw [UInt8.toNat_ofNat']; omega
  · refine .three (by omega) ?_ ?_ ?_
    all_goals rw [UInt8.toNat_ofNat']; omega
  · refine .four (by omega) ?_ ?_ ?_ ?_
    all_goals rw [UInt8.toNat_ofNat']; omega

/-- **There is one way to write a character.** -/
theorem Writes.unique (h : Writes c front) (h' : Writes c rest) : front = rest := by
  cases h with
  | one range first =>
      cases h' with
      | one _ first' => rw [UInt8.toNat_inj.1 (first.trans first'.symm)]
      | two range' | three range' | four range' => omega
  | two range first second =>
      cases h' with
      | two _ first' second' =>
          rw [UInt8.toNat_inj.1 (first.trans first'.symm), UInt8.toNat_inj.1 (second.trans second'.symm)]
      | one range' | three range' | four range' => omega
  | three range first second third =>
      cases h' with
      | three _ first' second' third' =>
          rw [UInt8.toNat_inj.1 (first.trans first'.symm), UInt8.toNat_inj.1 (second.trans second'.symm),
            UInt8.toNat_inj.1 (third.trans third'.symm)]
      | one range' | two range' | four range' => omega
  | four range first second third fourth =>
      cases h' with
      | four _ first' second' third' fourth' =>
          rw [UInt8.toNat_inj.1 (first.trans first'.symm), UInt8.toNat_inj.1 (second.trans second'.symm),
            UInt8.toNat_inj.1 (third.trans third'.symm), UInt8.toNat_inj.1 (fourth.trans fourth'.symm)]
      | one range' | two range' | three range' => omega

/-- What a byte below 0x80 begins is one character, of that value. -/
theorem Writes.of_short (h : Writes c (b :: rest)) (hb : b.toNat < 0x80) : rest = [] ∧ b.toNat = c.toNat := by
  cases h with
  | one _ first => exact ⟨rfl, first⟩
  | two _ first | three _ first | four _ first => omega

theorem writesText_iff : WritesText text bytes ↔ bytes = encode text := by
  constructor
  · intro h
    induction h with
    | nil => rfl
    | cons first _ ih => rw [ih, first.unique (writes_encodeChar _), encode, encode, List.flatMap_cons]
  · rintro rfl
    induction text with
    | nil => exact .nil
    | cons c r ih => exact .cons (writes_encodeChar c) ih

/-! ## Sequences -/

/-- The bytes that end a sequence under way, and the value that is read with them. -/
inductive Trails : Pending → List UInt8 → Nat → Prop
  | last {p : Pending} {b : UInt8} (within : p.low ≤ b.toNat ∧ b.toNat ≤ p.high) (more : p.more ≤ 1) :
      Trails p [b] (64 * p.value + (b.toNat - 0x80))
  | next {p : Pending} {b : UInt8} {bytes : List UInt8} {value : Nat} (within : p.low ≤ b.toNat ∧ b.toNat ≤ p.high)
      (more : 1 < p.more) (others : Trails (p.extend b) bytes value) : Trails p (b :: bytes) value

theorem trails_last_iff (h : p.more ≤ 1) :
    Trails p bytes value ↔
      ∃ b, bytes = [b] ∧ (p.low ≤ b.toNat ∧ b.toNat ≤ p.high) ∧ value = 64 * p.value + (b.toNat - 0x80) := by
  constructor
  · intro htrails
    cases htrails with
    | @last _ b within => exact ⟨b, rfl, within, rfl⟩
    | next _ more => omega
  · rintro ⟨b, rfl, within, hvalue⟩
    rw [hvalue]
    exact .last within h

theorem trails_next_iff (h : 1 < p.more) :
    Trails p bytes value ↔
      ∃ b rest, bytes = b :: rest ∧ (p.low ≤ b.toNat ∧ b.toNat ≤ p.high) ∧ Trails (p.extend b) rest value := by
  constructor
  · intro htrails
    cases htrails with
    | last _ more => omega
    | next within _ others => exact ⟨_, _, rfl, within, others⟩
  · rintro ⟨b, rest, rfl, within, others⟩
    exact .next within h others

/-- The three kinds of first bytes of a longer sequence. -/
theorem start?_eq_some_iff :
    Pending.start? b = some p ↔
      (0xc2 ≤ b.toNat ∧ b.toNat ≤ 0xdf) ∧ p = ⟨b.toNat - 0xc0, 1, 0x80, 0xbf, [b]⟩ ∨
      (0xe0 ≤ b.toNat ∧ b.toNat ≤ 0xef) ∧ p = ⟨b.toNat - 0xe0, 2, if b.toNat = 0xe0 then 0xa0 else 0x80,
        if b.toNat = 0xed then 0x9f else 0xbf, [b]⟩ ∨
      (0xf0 ≤ b.toNat ∧ b.toNat ≤ 0xf4) ∧ p = ⟨b.toNat - 0xf0, 3, if b.toNat = 0xf0 then 0x90 else 0x80,
        if b.toNat = 0xf4 then 0x8f else 0xbf, [b]⟩ := by
  unfold Pending.start?
  dsimp only
  constructor
  · intro h
    split_ifs at h with h₁ h₂ h₃ h₄ h₅ h₆ h₇
    · exact .inl ⟨h₁, (Option.some.inj h).symm⟩
    · exact .inr (.inl ⟨by omega, by simp [← Option.some.inj h, h₂]⟩)
    · exact .inr (.inl ⟨by omega, by simp [← Option.some.inj h, h₃]⟩)
    · exact .inr (.inl ⟨by omega, by rw [if_neg h₂, if_neg h₃, ← Option.some.inj h]⟩)
    · exact .inr (.inr ⟨by omega, by simp [← Option.some.inj h, h₅]⟩)
    · exact .inr (.inr ⟨by omega, by simp [← Option.some.inj h, h₆]⟩)
    · exact .inr (.inr ⟨by omega, by rw [if_neg h₅, if_neg h₆, ← Option.some.inj h]⟩)
  · rintro (⟨hrange, rfl⟩ | ⟨hrange, rfl⟩ | ⟨hrange, rfl⟩)
    · rw [if_pos hrange]
    · rw [if_neg (by omega)]
      by_cases h₂ : b.toNat = 0xe0
      · simp [h₂]
      · rw [if_neg h₂, if_neg h₂]
        by_cases h₃ : b.toNat = 0xed
        · simp [h₃]
        · rw [if_neg h₃, if_neg h₃, if_pos (by omega)]
    · rw [if_neg (by omega), if_neg (by omega), if_neg (by omega), if_neg (by omega)]
      by_cases h₅ : b.toNat = 0xf0
      · simp [h₅]
      · rw [if_neg h₅, if_neg h₅]
        by_cases h₆ : b.toNat = 0xf4
        · simp [h₆]
        · rw [if_neg h₆, if_neg h₆, if_pos (by omega)]

theorem toNat_ofNat_of_valid {n : Nat} (h : n < 0xd800 ∨ 0xdfff < n ∧ n < 0x110000) : (Char.ofNat n).toNat = n := by
  rw [Char.ofNat, dif_pos h]
  rfl

/-- **A whole sequence is the form of a character.** -/
theorem start?_trails_iff :
    (∃ p, Pending.start? b = some p ∧ Trails p rest value) ↔
      0x80 ≤ b.toNat ∧ ∃ c : Char, c.toNat = value ∧ Writes c (b :: rest) := by
  constructor
  · rintro ⟨p, hstart, htrails⟩
    rcases start?_eq_some_iff.1 hstart with ⟨hrange, rfl⟩ | ⟨hrange, rfl⟩ | ⟨hrange, rfl⟩
    · obtain ⟨b₂, rfl, h₂, hvalue⟩ := (trails_last_iff (Nat.le_refl 1)).1 htrails
      dsimp only at h₂ hvalue
      have hc := @toNat_ofNat_of_valid value (by omega)
      exact ⟨by omega, _, hc, .two (by omega) (by omega) (by omega)⟩
    · obtain ⟨b₂, _, rfl, h₂, htrails⟩ := (trails_next_iff (Nat.lt_succ_self 1)).1 htrails
      obtain ⟨b₃, rfl, h₃, hvalue⟩ := (trails_last_iff (by exact Nat.le_refl 1)).1 htrails
      dsimp only [Pending.extend] at h₂ h₃ hvalue
      -- the bounds keep out overlong forms and surrogates
      have hsecond : (b.toNat = 0xe0 → 0xa0 ≤ b₂.toNat) ∧ (b.toNat = 0xed → b₂.toNat ≤ 0x9f) ∧
          0x80 ≤ b₂.toNat ∧ b₂.toNat ≤ 0xbf := by
        split_ifs at h₂ <;> omega
      have hc := @toNat_ofNat_of_valid value (by omega)
      exact ⟨by omega, _, hc, .three (by omega) (by omega) (by omega) (by omega)⟩
    · obtain ⟨b₂, _, rfl, h₂, htrails⟩ := (trails_next_iff (show 1 < 3 by decide)).1 htrails
      obtain ⟨b₃, _, rfl, h₃, htrails⟩ := (trails_next_iff (by exact Nat.lt_succ_self 1)).1 htrails
      obtain ⟨b₄, rfl, h₄, hvalue⟩ := (trails_last_iff (by exact Nat.le_refl 1)).1 htrails
      dsimp only [Pending.extend] at h₂ h₃ h₄ hvalue
      have hsecond : (b.toNat = 0xf0 → 0x90 ≤ b₂.toNat) ∧ (b.toNat = 0xf4 → b₂.toNat ≤ 0x8f) ∧
          0x80 ≤ b₂.toNat ∧ b₂.toNat ≤ 0xbf := by
        split_ifs at h₂ <;> omega
      have hc := @toNat_ofNat_of_valid value (by omega)
      exact ⟨by omega, _, hc, .four (by omega) (by omega) (by omega) (by omega) (by omega)⟩
  · rintro ⟨hb, c, hc, hwrites⟩
    have hvalid := toNat_cases c
    cases hwrites with
    | one range first => omega
    | @two _ b₂ range first second =>
        refine ⟨_, start?_eq_some_iff.2 (.inl ⟨by omega, rfl⟩), (trails_last_iff (Nat.le_refl 1)).2 ⟨b₂, rfl, ?_⟩⟩
        dsimp only
        omega
    | @three _ b₂ b₃ range first second third =>
        refine ⟨_, start?_eq_some_iff.2 (.inr (.inl ⟨by omega, rfl⟩)), .next ?_ (Nat.lt_succ_self 1)
          ((trails_last_iff (by exact Nat.le_refl 1)).2 ⟨b₃, rfl, ?_⟩)⟩
        · dsimp only
          split_ifs <;> omega
        · dsimp only [Pending.extend]
          omega
    | @four _ b₂ b₃ b₄ range first second third fourth =>
        refine ⟨_, start?_eq_some_iff.2 (.inr (.inr ⟨by omega, rfl⟩)), .next ?_ (show 1 < 3 by decide)
          (.next ?_ (by exact Nat.lt_succ_self 1)
            ((trails_last_iff (by exact Nat.le_refl 1)).2 ⟨b₄, rfl, ?_⟩))⟩
        · dsimp only
          split_ifs <;> omega
        · dsimp only [Pending.extend]
          omega
        · dsimp only [Pending.extend]
          omega

/-! ## Reading -/

/-- A sequence under way is read to its end. -/
theorem decodeFrom_pending_iff :
    decodeFrom offset (some p) bytes = .ok text ↔
      ∃ trail rest value others, bytes = trail ++ rest ∧ Trails p trail value ∧ text = Char.ofNat value :: others ∧
        decodeFrom (offset + trail.length) none rest = .ok others := by
  induction bytes generalizing offset p with
  | nil =>
      rw [decodeFrom]
      refine iff_of_false (by simp) ?_
      rintro ⟨trail, rest, value, others, hbytes, htrails, -⟩
      cases htrails <;> cases hbytes
  | cons b r ih =>
      rw [decodeFrom]
      split_ifs with hwithin
      · dsimp only
        by_cases hmore : p.more ≤ 1
        · have hlast : (p.extend b).more = 0 := Nat.sub_eq_zero_of_le hmore
          rw [if_pos hlast, map_eq_ok_iff]
          constructor
          · rintro ⟨others, hrest, rfl⟩
            exact ⟨[b], r, _, others, rfl, .last hwithin hmore, rfl, hrest⟩
          · rintro ⟨trail, rest, value, others, hbytes, htrails, rfl, hrest⟩
            cases htrails with
            | next _ more => omega
            | last _ _ =>
                obtain ⟨rfl, rfl⟩ := List.cons.inj hbytes
                exact ⟨others, hrest, rfl⟩
        · have hnext : (p.extend b).more ≠ 0 := Nat.sub_ne_zero_of_lt (Nat.lt_of_not_le hmore)
          rw [if_neg hnext, ih]
          constructor
          · rintro ⟨trail, rest, value, others, rfl, htrails, rfl, hrest⟩
            refine ⟨b :: trail, rest, value, others, rfl, .next hwithin (Nat.lt_of_not_le hmore) htrails, rfl, ?_⟩
            rwa [List.length_cons, Nat.add_comm trail.length, ← Nat.add_assoc]
          · rintro ⟨trail, rest, value, others, hbytes, htrails, rfl, hrest⟩
            cases htrails with
            | last _ more => exact absurd more hmore
            | @next _ _ trail _ _ _ htrails =>
                obtain ⟨rfl, rfl⟩ := List.cons.inj hbytes
                refine ⟨trail, rest, value, others, rfl, htrails, rfl, ?_⟩
                rwa [List.length_cons, Nat.add_comm trail.length, ← Nat.add_assoc] at hrest
      · refine iff_of_false (by simp) ?_
        rintro ⟨trail, rest, value, others, hbytes, htrails, -⟩
        cases htrails with
        | last within => exact hwithin (by rw [(List.cons.inj hbytes).1]; exact within)
        | next within => exact hwithin (by rw [(List.cons.inj hbytes).1]; exact within)

/-- **The first character that is read is the one that the first bytes write.** -/
theorem decodeFrom_cons_iff :
    decodeFrom offset none bytes = .ok (c :: text) ↔
      ∃ front rest, bytes = front ++ rest ∧ Writes c front ∧ decodeFrom (offset + front.length) none rest = .ok text := by
  constructor
  · intro h
    cases bytes with
    | nil => cases h
    | cons b r =>
        rw [decodeFrom] at h
        split_ifs at h with hshort
        · obtain ⟨others, hrest, heq⟩ := map_eq_ok_iff.1 h
          obtain ⟨rfl, rfl⟩ := List.cons.inj heq
          have hc := @toNat_ofNat_of_valid b.toNat (by omega)
          exact ⟨[b], r, rfl, .one (by omega) hc.symm, hrest⟩
        · split at h
          · rename_i p hstart
            obtain ⟨trail, rest, value, others, rfl, htrails, heq, hrest⟩ := decodeFrom_pending_iff.1 h
            obtain ⟨rfl, rfl⟩ := List.cons.inj heq
            obtain ⟨-, c', rfl, hwrites⟩ := start?_trails_iff.1 ⟨p, hstart, htrails⟩
            rw [Char.ofNat_toNat]
            refine ⟨b :: trail, rest, rfl, hwrites, ?_⟩
            rwa [List.length_cons, Nat.add_comm trail.length, ← Nat.add_assoc]
          · cases h
  · rintro ⟨front, rest, rfl, hwrites, hrest⟩
    obtain ⟨b, trail, rfl⟩ := List.exists_cons_of_ne_nil hwrites.ne_nil
    rw [List.length_cons, Nat.add_comm trail.length, ← Nat.add_assoc] at hrest
    rw [List.cons_append, decodeFrom]
    split_ifs with hshort
    · obtain ⟨rfl, hc⟩ := hwrites.of_short hshort
      exact map_eq_ok_iff.2 ⟨text, hrest, by rw [hc, Char.ofNat_toNat]⟩
    · obtain ⟨p, hstart, htrails⟩ := start?_trails_iff.2 ⟨Nat.le_of_not_lt hshort, c, rfl, hwrites⟩
      rw [hstart]
      exact decodeFrom_pending_iff.2 ⟨trail, rest, _, text, rfl, htrails, by rw [Char.ofNat_toNat], hrest⟩

/-- Nothing is read from nothing, and from nothing else. -/
theorem decodeFrom_eq_ok_nil_iff : decodeFrom offset none bytes = .ok [] ↔ bytes = [] := by
  constructor
  · intro h
    cases bytes with
    | nil => rfl
    | cons b r =>
        rw [decodeFrom] at h
        split_ifs at h with hshort
        · obtain ⟨_, _, heq⟩ := map_eq_ok_iff.1 h
          cases heq
        · split at h
          · obtain ⟨_, _, _, _, _, _, heq, _⟩ := decodeFrom_pending_iff.1 h
            cases heq
          · cases h
  · rintro rfl
    rfl

theorem decodeFrom_eq_ok_iff : decodeFrom offset none bytes = .ok text ↔ WritesText text bytes := by
  induction text generalizing offset bytes with
  | nil =>
      rw [decodeFrom_eq_ok_nil_iff]
      constructor
      · rintro rfl
        exact .nil
      · intro h
        cases h
        rfl
  | cons c r ih =>
      rw [decodeFrom_cons_iff]
      constructor
      · rintro ⟨front, rest, rfl, hwrites, hrest⟩
        exact .cons hwrites (ih.1 hrest)
      · intro h
        cases h with
        | cons first others => exact ⟨_, _, rfl, first, ih.2 others⟩

/-- **Bytes are read as the text that they write**, and no other bytes are read. -/
theorem decode_eq_ok_iff : decode bytes = .ok text ↔ WritesText text bytes := decodeFrom_eq_ok_iff

/-- A text is read back from its bytes. -/
theorem decode_encode (text : Text) : decode (encode text) = .ok text :=
  decode_eq_ok_iff.2 (writesText_iff.2 rfl)

end PolicyTable.Text.Utf8
