import PolicyTable.Text.Basic

/-!
# `PolicyTable.Rego.Cursor` — places in a source

Lines and columns count from one, and only U+000A ends a line. A `Cursor` is a place together with
the rest of the source; it counts lines and columns as it moves.

## Contents
- `Position` and its order, by line and then by column.
- `Cursor`, with `advance` over one character and `skip` over several of one line.
-/

namespace PolicyTable.Rego

/-- A line and a column of a source, both counted from one. -/
structure Position where
  line : Nat := 1
  column : Nat := 1
  deriving DecidableEq, Repr

/-- Positions are ordered by line, and on one line by column. -/
def Position.le (p q : Position) : Bool :=
  decide (p.line < q.line) || (p.line == q.line && decide (p.column ≤ q.column))

/-- A place in a source: the characters before it are counted, the ones from it on are at hand. -/
structure Cursor where
  offset : Nat := 0
  position : Position := {}
  rest : Text
  deriving DecidableEq, Repr

/-- The cursor after the next character. A cursor at the end stays there. -/
def Cursor.advance (c : Cursor) : Cursor :=
  match c.rest with
  | [] => c
  | x :: r =>
    { offset := c.offset + 1
      position :=
        if x = '\n' then ⟨c.position.line + 1, 1⟩ else ⟨c.position.line, c.position.column + 1⟩
      rest := r }

/-- The cursor after the next `n` characters, none of which ends a line. -/
def Cursor.skip (c : Cursor) (n : Nat) : Cursor :=
  { offset := c.offset + n
    position := ⟨c.position.line, c.position.column + n⟩
    rest := c.rest.drop n }

end PolicyTable.Rego
