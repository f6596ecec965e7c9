import PolicyTable.Text.Utf8

/-!
# `PolicyTable.Text.CodePoint` — texts that may not have bytes

A text that comes from elsewhere may hold half of a surrogate pair. Such a half is no character, and UTF-8 has no
bytes for it. A text with one in it is not encoded at all; the report names the first run of them.

## Contents
- **Code points.** `CodePoint` and `CodePoints`; every text is one of them (`CodePoints.ofText`).
- **Gaps.** `Gap`, the first run of elements without bytes, with its message.
- **Bytes.** `CodePoints.encode`.
-/

namespace PolicyTable.Text

/-! ## Code points -/

/-- A code point: a character, or half of a surrogate pair that stands alone. -/
inductive CodePoint
  | char (c : Char)
  | half (offset : Fin 0x800)
  deriving DecidableEq, Repr

/-- The number of a code point. -/
def CodePoint.value : CodePoint → Nat
  | .char c => c.toNat
  | .half offset => 0xd800 + offset

/-- The character that a code point is, if it is one. -/
def CodePoint.char? : CodePoint → Option Char
  | .char c => some c
  | .half _ => none

/-- A text that may hold halves of surrogate pairs. -/
abbrev CodePoints := List CodePoint

/-- The code points of a text. -/
def CodePoints.ofText (t : Text) : CodePoints := t.map .char

/-! ## Gaps -/

/-- A run of elements without bytes: the offset of the first one, its number, and how many there are. -/
structure Gap where
  offset : Nat
  value : Nat
  length : Nat
  deriving DecidableEq, Repr

/-- The first gap in a list, whose elements have the given numbers. -/
def Gap.find? {α : Type} (lacks : α → Bool) (value : α → Nat) (l : List α) : Option Gap :=
  match l.dropWhile (!lacks ·) with
  | [] => none
  | x :: r => some ⟨(l.takeWhile (!lacks ·)).length, value x, 1 + (r.takeWhile lacks).length⟩

/-- The number of an element as an escape. -/
def Gap.escape (value : Nat) : Text :=
  if value < 0x100 then '\\' :: 'x' :: hexadecimal 2 value
  else if value < 0x10000 then '\\' :: 'u' :: hexadecimal 4 value
  else '\\' :: 'U' :: hexadecimal 8 value

/-- The place of a gap: one element with its number, or the offsets of the first and the last one. -/
def Gap.place (g : Gap) : Text :=
  if g.length = 1 then
    "character ".toList ++ apostrophe :: Gap.escape g.value ++ apostrophe :: " in position ".toList ++ ofNat g.offset
  else "characters in position ".toList ++ ofNat g.offset ++ '-' :: ofNat (g.offset + g.length - 1)

/-- The message about a gap. -/
def Gap.message (g : Gap) : Text :=
  "\x27utf-8\x27 codec can\x27t encode ".toList ++ g.place ++ ": surrogates not allowed".toList

theorem Gap.find?_eq_none_iff {α : Type} {lacks : α → Bool} {value : α → Nat} {l : List α} :
    Gap.find? lacks value l = none ↔ ∀ x ∈ l, lacks x = false := by
  have hnil : l.dropWhile (!lacks ·) = [] ↔ ∀ x ∈ l, lacks x = false := by
    induction l with
    | nil => simp
    | cons x r ih => cases hx : lacks x <;> simp [hx, ih]
  rw [← hnil, Gap.find?]
  cases l.dropWhile (!lacks ·) <;> simp

/-! ## Bytes -/

/-- The bytes of code points, or the first gap in them. -/
def CodePoints.encode (t : CodePoints) : Except Gap (List UInt8) :=
  match Gap.find? (·.char?.isNone) CodePoint.value t with
  | some gap => .error gap
  | none => .ok (Utf8.encode (t.filterMap CodePoint.char?))

/-- **A text has its bytes.** -/
@[simp] theorem CodePoints.encode_ofText (t : Text) : encode (ofText t) = .ok (Utf8.encode t) := by
  have hnone : Gap.find? (·.char?.isNone) CodePoint.value (ofText t) = none := by
    rw [Gap.find?_eq_none_iff]
    simp [ofText, CodePoint.char?]
  have hchars : (ofText t).filterMap CodePoint.char? = t := by
    simp [ofText, CodePoint.char?, Function.comp_def]
  rw [encode, hnone, hchars]

end PolicyTable.Text
