import PolicyTable.Rego.Cursor
import PolicyTable.Text.Quoted

/-!
# `PolicyTable.Rego.Diagnostic` — what is reported about a source

## Contents
- `Comment`, the text after a `#` with the place of the `#`.
- `Diagnostic`, a message with a place, and `Diagnostic.text`, the way it is shown.
- `Bracket` and `LexicalFault`, the kinds of lexical error; `LexicalError` is one with its place.
-/

namespace PolicyTable.Rego

/-! ## Comments and diagnostics -/

/-- A comment: its text without the leading `#`, and the place of the `#`. A comment that was not
    read from a source has line and column zero. -/
structure Comment where
  text : Text
  line : Int := 0
  column : Int := 0
  deriving DecidableEq, Repr

/-- A syntax error: its place and its message. -/
structure Diagnostic where
  line : Int
  column : Int
  message : Text
  deriving DecidableEq, Repr

/-- Diagnostics are ordered by line, and on one line by column. -/
def Diagnostic.le (d e : Diagnostic) : Bool :=
  decide (d.line < e.line) || (d.line == e.line && decide (d.column ≤ e.column))

/-- A diagnostic as one line of text. -/
def Diagnostic.text (d : Diagnostic) : Text :=
  Text.ofInt d.line ++ ':' :: Text.ofInt d.column ++ ": rego_parse_error: ".toList ++ d.message

/-! ## Lexical errors -/

/-- The three kinds of bracket. -/
inductive Bracket
  | round
  | square
  | curly
  deriving DecidableEq, Repr

/-- The character that opens a bracket. -/
def Bracket.opening : Bracket → Char
  | .round => '('
  | .square => '['
  | .curly => '{'

/-- The character that closes a bracket. -/
def Bracket.closing : Bracket → Char
  | .round => ')'
  | .square => ']'
  | .curly => '}'

/-- The bracket that a character opens. -/
def Bracket.ofOpening? (c : Char) : Option Bracket :=
  if c = '(' then some .round else if c = '[' then some .square
  else if c = '{' then some .curly else none

/-- The bracket that a character closes. -/
def Bracket.ofClosing? (c : Char) : Option Bracket :=
  if c = ')' then some .round else if c = ']' then some .square
  else if c = '}' then some .curly else none

@[simp] theorem Bracket.ofOpening?_opening (b : Bracket) : ofOpening? b.opening = some b := by
  cases b <;> rfl

@[simp] theorem Bracket.ofClosing?_closing (b : Bracket) : ofClosing? b.closing = some b := by
  cases b <;> rfl

/-- The characters that never stand outside a comment or a literal. -/
def illegalCharacters : Text := ['$', '?', '^', '~', '@', Text.apostrophe, '\\']

/-- The kinds of lexical error. -/
inductive LexicalFault
  | illegal (c : Char)
  | unexpected (bracket : Bracket)
  | unclosed (bracket : Bracket)
  | unterminatedString
  | unterminatedRaw
  deriving DecidableEq, Repr

/-- The message for a lexical error. -/
def LexicalFault.message : LexicalFault → Text
  | .illegal c => "illegal token ".toList ++ Text.quoted [c]
  | .unexpected b => "unexpected ".toList ++ b.closing :: " token".toList
  | .unclosed b => "unclosed ".toList ++ [b.opening]
  | .unterminatedString => "non-terminated string".toList
  | .unterminatedRaw => "non-terminated raw string".toList

/-- A lexical error at the place of the character that it is about. -/
structure LexicalError where
  position : Position
  fault : LexicalFault
  deriving DecidableEq, Repr

/-- The diagnostic for a lexical error. -/
def LexicalError.diagnostic (e : LexicalError) : Diagnostic :=
  ⟨e.position.line, e.position.column, e.fault.message⟩

end PolicyTable.Rego
