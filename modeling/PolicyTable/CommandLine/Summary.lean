import PolicyTable.Policy.Documentation

/-!
# `PolicyTable.CommandLine.Summary` — the line after a successful run

The summary names the numbers of records and files and the path of the document. It is handed to a printer, which may
write it in another way.
-/

namespace PolicyTable.CommandLine

open Policy (Summary)

/-- The words of a summary. -/
def summaryText (s : Summary) : Text :=
  "Wrote ".toList ++ Text.ofNat s.recordCount ++ " policies from ".toList ++
    Text.ofNat s.fileCount ++ " files to ".toList ++ s.outputPath.text

end PolicyTable.CommandLine
