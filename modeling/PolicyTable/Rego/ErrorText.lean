import PolicyTable.Rego.Diagnostic
import PolicyTable.Text.Digit

/-!
# `PolicyTable.Rego.ErrorText` — diagnostics out of a parser's complaint

A parser complains in lines of text. A line is *located* if it reads

    MESSAGE -- MODULE:LINE:COLUMN

and perhaps more: a message that is not empty, a module name that is not empty and has no blank in
it, and two numerals in decimal digits of any script. Where a line can be read so in several ways,
the shortest message counts, then the shortest module name, then the longest column.

## Contents
- **One line.** `numerals?`, `location?` and `Located.ofLine?` read a line from right to left of the
  format above.
- **Numbers.** `numeralOf` refuses numerals longer than `maxDigits`.
- **All lines.** `diagnosticsOf` takes every located line, or the whole text if there is none.
-/

namespace PolicyTable.Rego

/-! ## One line -/

/-- A located line: its message and the numerals of its line and column. -/
structure Located where
  message : Text
  line : Text
  column : Text
  deriving DecidableEq, Repr

/-- The two numerals of a text that starts with a colon, a numeral, a colon and a numeral. -/
def numerals? : Text → Option (Text × Text)
  | ':' :: r =>
    match r.dropWhile Text.isDigit with
    | ':' :: r' =>
      let line := r.takeWhile Text.isDigit
      let column := r'.takeWhile Text.isDigit
      if line.isEmpty || column.isEmpty then none else some (line, column)
    | _ => none
  | _ => none

/-- The two numerals after the shortest module name that has them. -/
def location? : Text → Option (Text × Text)
  | [] => none
  | c :: r => if Text.isBlank c then none else (numerals? r).orElse fun _ => location? r

/-- The text between a message and a module name. -/
def dashes : Text := " -- ".toList

/-- The reading of a line with the shortest message. -/
def Located.ofLine? : Text → Option Located
  | [] => none
  | c :: r =>
    match (Text.dropLead? dashes r).bind location? with
    | some (line, column) => some ⟨[c], line, column⟩
    | none => (ofLine? r).map fun l => { l with message := c :: l.message }

/-! ## Numbers -/

/-- The longest numeral that is read as a number. -/
def maxDigits : Nat := 4300

/-- A numeral that is too long to be read, with its length. -/
structure LongNumeral where
  digits : Nat
  deriving DecidableEq, Repr

/-- The message about a numeral that is too long. -/
def LongNumeral.message (n : LongNumeral) : Text :=
  "Exceeds the limit (".toList ++ Text.ofNat maxDigits ++
    " digits) for integer string conversion: value has ".toList ++ Text.ofNat n.digits ++
    " digits; use sys.set_int_max_str_digits() to increase the limit".toList

/-- The number that a numeral writes. -/
def numeralOf (digits : Text) : Except LongNumeral Nat :=
  if digits.length > maxDigits then .error ⟨digits.length⟩ else .ok (Text.numeralValue digits)

/-- The diagnostic of a located line, with blanks taken off the ends of its message. -/
def Located.diagnostic (l : Located) : Except LongNumeral Diagnostic := do
  let line ← numeralOf l.line
  let column ← numeralOf l.column
  return ⟨line, column, Text.trim l.message⟩

/-! ## All lines -/

/-- The diagnostic for a text without a located line: the text itself, or a standing message if it
    is blank. -/
def unlocated (text : Text) : Diagnostic :=
  let message := Text.trim text
  ⟨0, 0, if message.isEmpty then "invalid Rego module".toList else message⟩

/-- The located lines of a text, in order. -/
def locatedLines (text : Text) : List Located :=
  (Text.split '\n' text).filterMap Located.ofLine?

/-- The diagnostics that a parser's complaint stands for, in the order of their places; lines of one
    place keep their order. -/
def diagnosticsOf (text : Text) : Except LongNumeral (List Diagnostic) := do
  let found ← (locatedLines text).mapM Located.diagnostic
  return if found.isEmpty then [unlocated text] else found.mergeSort Diagnostic.le

end PolicyTable.Rego
