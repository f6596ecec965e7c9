import PolicyTable.Text.Quoted

/-!
# `PolicyTable.Annotations.Pair` — the `group/Kind` words of an annotation

A word is taken apart at its first slash, so a kind may hold further slashes and a group none. A word
without a slash is a `BadWord`.
-/

namespace PolicyTable.Annotations

/-- A resource kind and the API group that it belongs to. -/
structure KindPair where
  group : Text
  kind : Text
  deriving DecidableEq, Repr

/-- A word without a slash. -/
structure BadWord where
  word : Text
  deriving DecidableEq, Repr

/-- The message about a word without a slash. -/
def BadWord.message (b : BadWord) : Text :=
  "malformed kinds annotation token ".toList ++ Text.quoted b.word ++
    ", expected group/Kind".toList

/-- The pair that a word writes. -/
def KindPair.ofWord (word : Text) : Except BadWord KindPair :=
  match Text.cutAt '/' word with
  | some (group, kind) => .ok ⟨group, kind⟩
  | none => .error ⟨word⟩

/-- The word that writes a pair. -/
def KindPair.word (p : KindPair) : Text := p.group ++ '/' :: p.kind

end PolicyTable.Annotations
