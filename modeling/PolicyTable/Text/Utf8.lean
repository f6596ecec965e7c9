import PolicyTable.Text.Quoted

/-!
# `PolicyTable.Text.Utf8` — texts as bytes

Strict UTF-8. `encode` writes a text as bytes and `decode` reads bytes back, accepting well-formed
sequences only: no overlong forms, no surrogates, nothing above U+10FFFF, nothing cut off. What is
wrong with other bytes is a `Fault`, which covers the longest beginning of a sequence that was still
well formed.

## Contents
- **Writing.** `encode`.
- **Faults.** `FaultReason`, `Fault` and its message.
- **Reading.** `Pending` is a sequence under way, `Pending.start?` what a first byte begins, and
  `decodeFrom` goes through the bytes.
-/

namespace PolicyTable.Text.Utf8

/-! ## Writing -/

/-- The bytes of a text. -/
def encode (t : Text) : List UInt8 := t.flatMap String.utf8EncodeChar

theorem encode_append (t s : Text) : encode (t ++ s) = encode t ++ encode s :=
  List.flatMap_append

/-! ## Faults -/

/-- Why a byte sequence is not well formed. -/
inductive FaultReason
  | badStart
  | badContinuation
  | cutOff
  deriving DecidableEq, Repr

/-- The first ill-formed place of some bytes: its offset and the bytes there, at least one. -/
structure Fault where
  reason : FaultReason
  offset : Nat
  bytes : List UInt8
  deriving DecidableEq, Repr

/-- The words for a reason. -/
def FaultReason.message : FaultReason → Text
  | .badStart => "invalid start byte".toList
  | .badContinuation => "invalid continuation byte".toList
  | .cutOff => "unexpected end of data".toList

/-- The place of a fault: one byte with its value, or the offsets of the first and the last one. -/
def Fault.place (f : Fault) : Text :=
  match f.bytes with
  | [b] => "byte 0x".toList ++ hexadecimal 2 b.toNat ++ " in position ".toList ++ ofNat f.offset
  | bytes =>
    "bytes in position ".toList ++ ofNat f.offset ++ '-' :: ofNat (f.offset + bytes.length - 1)

/-- The message of a fault. -/
def Fault.message (f : Fault) : Text :=
  "\x27utf-8\x27 codec can\x27t decode ".toList ++ f.place ++ [':', ' '] ++ f.reason.message

/-! ## Reading -/

/-- A sequence under way: the value read so far, the number of bytes still to come (the next one
    between `low` and `high`), and the bytes read. -/
structure Pending where
  value : Nat
  more : Nat
  low : Nat := 0x80
  high : Nat := 0xbf
  taken : List UInt8

/-- What the first byte of a longer sequence begins. The bounds on the second byte keep out overlong
    forms, surrogates and values above U+10FFFF. -/
def Pending.start? (b : UInt8) : Option Pending :=
  let n := b.toNat
  if 0xc2 ≤ n ∧ n ≤ 0xdf then some { value := n - 0xc0, more := 1, taken := [b] }
  else if n = 0xe0 then some { value := 0, more := 2, low := 0xa0, taken := [b] }
  else if n = 0xed then some { value := 0xd, more := 2, high := 0x9f, taken := [b] }
  else if 0xe1 ≤ n ∧ n ≤ 0xef then some { value := n - 0xe0, more := 2, taken := [b] }
  else if n = 0xf0 then some { value := 0, more := 3, low := 0x90, taken := [b] }
  else if n = 0xf4 then some { value := 4, more := 3, high := 0x8f, taken := [b] }
  else if 0xf1 ≤ n ∧ n ≤ 0xf3 then some { value := n - 0xf0, more := 3, taken := [b] }
  else none

/-- The sequence after one more continuation byte. -/
def Pending.extend (p : Pending) (b : UInt8) : Pending :=
  { value := 64 * p.value + (b.toNat - 0x80), more := p.more - 1, taken := p.taken ++ [b] }

/-- The text of the bytes from an offset on, where a sequence may be under way. -/
def decodeFrom : (offset : Nat) → Option Pending → List UInt8 → Except Fault Text
  | _, none, [] => .ok []
  | offset, some p, [] => .error ⟨.cutOff, offset - p.taken.length, p.taken⟩
  | offset, none, b :: r =>
    if b.toNat < 0x80 then
      (decodeFrom (offset + 1) none r).map (Char.ofNat b.toNat :: ·)
    else
      match Pending.start? b with
      | some p => decodeFrom (offset + 1) (some p) r
      | none => .error ⟨.badStart, offset, [b]⟩
  | offset, some p, b :: r =>
    if p.low ≤ b.toNat ∧ b.toNat ≤ p.high then
      let q := p.extend b
      if q.more = 0 then (decodeFrom (offset + 1) none r).map (Char.ofNat q.value :: ·)
      else decodeFrom (offset + 1) (some q) r
    else .error ⟨.badContinuation, offset - p.taken.length, p.taken⟩

/-- The text of some bytes, or the first fault in them. -/
def decode (bytes : List UInt8) : Except Fault Text := decodeFrom 0 none bytes

end PolicyTable.Text.Utf8
