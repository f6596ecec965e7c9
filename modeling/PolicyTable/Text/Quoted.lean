import PolicyTable.Text.Printable

/-!
# `PolicyTable.Text.Quoted` — texts shown in messages

A message shows a text between quotation marks, with escapes for what would not be seen: the mark in
use, the backslash, line ends, tabs and characters that are not printable.

## Contents
- **Marks.** `quoteMark` picks the apostrophe, or the double quote for a text that has apostrophes only.
- **Escapes.** `escapeChar` writes one character; `quoted` the whole text; `quotedList` a list of them.
-/

namespace PolicyTable.Text

/-! ## Marks -/

/-- The apostrophe, the usual quotation mark. -/
def apostrophe : Char := '\x27'

/-- The mark around a text: the double quote if the text has an apostrophe and no double quote, and
    the apostrophe otherwise. -/
def quoteMark (t : Text) : Char :=
  if t.contains apostrophe && !t.contains '"' then '"' else apostrophe

/-! ## Escapes -/

/-- The hexadecimal numeral of a number, filled up with zeros to a width. -/
def hexadecimal (width n : Nat) : Text :=
  let digits := Nat.toDigits 16 n
  List.replicate (width - digits.length) '0' ++ digits

/-- One character of a text between the given marks. -/
def escapeChar (mark c : Char) : Text :=
  if c = mark || c = '\\' then ['\\', c]
  else if c = '\t' then ['\\', 't']
  else if c = '\n' then ['\\', 'n']
  else if c = '\r' then ['\\', 'r']
  else if isPrintable c then [c]
  else if c.toNat < 0x100 then '\\' :: 'x' :: hexadecimal 2 c.toNat
  else if c.toNat < 0x10000 then '\\' :: 'u' :: hexadecimal 4 c.toNat
  else '\\' :: 'U' :: hexadecimal 8 c.toNat

/-- A text between quotation marks. -/
def quoted (t : Text) : Text :=
  quoteMark t :: t.flatMap (escapeChar (quoteMark t)) ++ [quoteMark t]

/-- Quoted texts between brackets, with a comma and a space between them. -/
def quotedList (ts : List Text) : Text :=
  '[' :: List.intercalate [',', ' '] (ts.map quoted) ++ [']']

end PolicyTable.Text
