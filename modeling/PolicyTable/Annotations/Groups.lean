import PolicyTable.Text.CaseFold

/-!
# `PolicyTable.Annotations.Groups` — groups without repetitions

Two group names are the same if their case foldings are equal. `dedupe` keeps the first of equal
names, as it is spelled, and the order of the names that it keeps.
-/

namespace PolicyTable.Annotations

/-- Are the two names the same up to case? -/
def sameGroup (a b : Text) : Bool := a.caseFold == b.caseFold

/-- The names kept so far, and one more unless it is among them already. -/
def addGroup (kept : List Text) (group : Text) : List Text :=
  if kept.any (sameGroup · group) then kept else kept ++ [group]

/-- The names, each one once. -/
def dedupe (groups : List Text) : List Text := groups.foldl addGroup []

end PolicyTable.Annotations
