import PolicyTable.Annotations.Groups
import PolicyTable.Annotations.Pair
import PolicyTable.Rego.Diagnostic

/-!
# `PolicyTable.Annotations.Record` — records out of comments

A comment that has the marker `@Kinds` in it is an annotation. Its text is cut at every space; the
first two pieces are the text before the first space and the marker, and every later piece is a
`group/Kind` word. The latest comment before it that is no annotation describes it.

## Contents
- **One annotation.** `words`, `BadPair` and `Record.ofComment`.
- **All comments.** `Reading` is the state between two comments, `Reading.next` takes one in, and
  `recordsOf` the whole list; `recordsOfGiven` also takes comments of which only the text is known.
-/

namespace PolicyTable.Annotations

open Rego (Comment)

/-- A row of the table: the groups without repetitions, the kinds in the order of the words, and the
    description. -/
structure Record where
  groups : List Text
  kinds : List Text
  description : Text
  deriving DecidableEq, Repr

/-! ## One annotation -/

/-- The text that makes a comment an annotation. -/
def marker : Text := "@Kinds".toList

/-- Is the comment an annotation? -/
def isMarked (c : Comment) : Bool := Text.has marker c.text

/-- The words of an annotation after the first two pieces. -/
def words (text : Text) : List Text := (Text.split ' ' text).drop 2

/-- A word without a slash, and the line of its comment. -/
structure BadPair where
  line : Int
  word : BadWord
  deriving DecidableEq, Repr

/-- The message about a word of an annotation. -/
def BadPair.message (b : BadPair) : Text :=
  "line ".toList ++ Text.ofInt b.line ++ ": ".toList ++ b.word.message

/-- A description as it is shown, without spaces at its ends. -/
def trimSpaces (t : Text) : Text := Text.trimBy (· = ' ') t

/-- The record of an annotation with the given description. -/
def Record.ofComment (c : Comment) (description : Text) : Except BadPair Record :=
  match (words c.text).mapM KindPair.ofWord with
  | .ok pairs => .ok ⟨dedupe (pairs.map (·.group)), pairs.map (·.kind), trimSpaces description⟩
  | .error word => .error ⟨c.line, word⟩

/-! ## All comments -/

/-- The state between two comments: the latest text that was no annotation, and the records so
    far. -/
structure Reading where
  description : Text := []
  records : List Record := []
  deriving DecidableEq, Repr

/-- The state after one more comment. -/
def Reading.next (s : Reading) (c : Comment) : Except BadPair Reading :=
  if isMarked c then
    (Record.ofComment c s.description).map fun r => { s with records := s.records ++ [r] }
  else
    .ok { s with description := c.text }

/-- The records of the comments of one source, in order. -/
def recordsOf (comments : List Comment) : Except BadPair (List Record) :=
  (comments.foldlM Reading.next {}).map (·.records)

/-- A comment as a caller gives it: in full, or its text alone. -/
inductive Given
  | comment (c : Comment)
  | text (t : Text)
  deriving DecidableEq, Repr

/-- The comment that is given. A text alone has no place, so its line and column are zero. -/
def Given.toComment : Given → Comment
  | .comment c => c
  | .text t => { text := t }

/-- The records of comments as they are given. -/
def recordsOfGiven (given : List Given) : Except BadPair (List Record) :=
  recordsOf (given.map Given.toComment)

end PolicyTable.Annotations
