import PolicyTable.Text.Basic

/-!
# `PolicyTable.Text.Blank` — blank characters

A character is blank if Unicode gives it the property White_Space or one of the bidirectional
classes B, S and WS; those are the code points listed here. `trim` takes blank characters off both
ends of a text.
-/

namespace PolicyTable.Text

/-- The ranges of blank code points. -/
def blankRanges : List (Nat × Nat) :=
  [(0x09, 0x0d), (0x1c, 0x20), (0x85, 0x85), (0xa0, 0xa0), (0x1680, 0x1680), (0x2000, 0x200a),
   (0x2028, 0x2029), (0x202f, 0x202f), (0x205f, 0x205f), (0x3000, 0x3000)]

/-- Is the code point in one of the ranges? -/
def inRanges (ranges : List (Nat × Nat)) (code : Nat) : Bool :=
  ranges.any fun (first, last) => decide (first ≤ code) && decide (code ≤ last)

/-- Is the character blank? -/
def isBlank (c : Char) : Bool := inRanges blankRanges c.toNat

/-- A text without the blank characters at its two ends. -/
def trim (t : Text) : Text := trimBy isBlank t

end PolicyTable.Text
