import PolicyTable.Annotations.Record

/-!
# `PolicyTable.Annotations.Table` — the document

The document is a title, an empty line and a table in Markdown: a head, a rule and one row for each
record. Cells are written as they are, so a bar in a description breaks its row.
-/

namespace PolicyTable.Annotations

/-- The title line. -/
def title : Text := "# Policies".toList

/-- The heads of the columns. -/
def columns : List Text := ["API Groups".toList, "Kinds".toList, "Description".toList]

/-- The text between two names of one cell. -/
def comma : Text := [',', ' ']

/-- One line of the table. -/
def row (cells : List Text) : Text := '|' :: List.intercalate ['|'] cells ++ ['|']

/-- The line for a record. -/
def Record.row (r : Record) : Text :=
  Annotations.row [List.intercalate comma r.groups, List.intercalate comma r.kinds, r.description]

/-- The lines before the first record. -/
def headLines : List Text :=
  [title, [], row columns, row (List.replicate columns.length "---".toList)]

/-- The document for some records. -/
def document (records : List Record) : Text :=
  List.intercalate ['\n'] (headLines ++ records.map (·.row)) ++ ['\n']

end PolicyTable.Annotations
