import PolicyTable.Main
import PolicyTable.Proofs.Rego.Comments
import PolicyTable.Proofs.Rego.WellLexed
import PolicyTable.Proofs.Annotations.RoundTrip
import PolicyTable.Proofs.FileSystem.Tree
import PolicyTable.Proofs.FileSystem.Walk
import PolicyTable.Proofs.FileSystem.RealPath
import PolicyTable.Proofs.FileSystem.Access
import PolicyTable.Proofs.Policy.Preservation
import PolicyTable.Proofs.Annotations.Attribution
import PolicyTable.Proofs.FileSystem.Below
import PolicyTable.Proofs.FileSystem.Relisted
import PolicyTable.Proofs.Policy.Listing
import PolicyTable.Proofs.Policy.Collection
import PolicyTable.Proofs.Rego.ErrorText
import PolicyTable.Proofs.Policy.Outcome
import PolicyTable.Proofs.CommandLine.Containment
import PolicyTable.Proofs.Rego.Extraction
import PolicyTable.Proofs.Policy.Acceptance
import PolicyTable.Proofs.Annotations.Groups
import PolicyTable.Proofs.Annotations.Kinds
import PolicyTable.Proofs.Annotations.Table
import PolicyTable.Proofs.Policy.Rendering
import PolicyTable.Proofs.FileSystem.Change
import PolicyTable.Proofs.FileSystem.Reading
import PolicyTable.Proofs.Policy.Replacement
import PolicyTable.Proofs.Policy.Sources
import PolicyTable.Proofs.Policy.Repetition
import PolicyTable.Proofs.Rego.Pairing
import PolicyTable.Proofs.Rego.Offsets
import PolicyTable.Proofs.Rego.Reports
import PolicyTable.Proofs.Rego.Literals
import PolicyTable.Proofs.Rego.Brackets
import PolicyTable.Proofs.Policy.FirstStop
import PolicyTable.Proofs.Policy.Visible
import PolicyTable.Proofs.Policy.Edits
import PolicyTable.Proofs.Policy.Insertion
import PolicyTable.Proofs.Rego.Subjects
import PolicyTable.Proofs.Rego.Lines
import PolicyTable.Proofs.Rego.Masking
import PolicyTable.Proofs.Rego.LineEnds
import PolicyTable.Proofs.Rego.LocatedLines
import PolicyTable.Proofs.Text.Numerals
import PolicyTable.Proofs.Rego.WrittenComplaints
import PolicyTable.Proofs.Policy.Frame
import PolicyTable.Proofs.Policy.WriteThrough
import PolicyTable.Proofs.CommandLine.Confinement
import PolicyTable.Proofs.Policy.Unlistable
import PolicyTable.Proofs.Text.Utf8
import PolicyTable.Proofs.FileSystem.Moved
import PolicyTable.Proofs.Policy.ReadBack
import PolicyTable.Proofs.CommandLine.Summary
import PolicyTable.Proofs.Rego.Progress
import PolicyTable.Proofs.Policy.Ending
