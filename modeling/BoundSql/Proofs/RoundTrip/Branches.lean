import BoundSql.Proofs.RoundTrip.SetOperators

/-!
# Branches of set operators read back

Set operators apply from left to right. The text of a compound is a chain: its first branch may go
without parentheses and begins the chain, the other branches are each one term of it. `QueryBack` is
what has to be known of the words of a query to read it back as a branch.
-/

namespace BoundSql

open Text Token Parse Grammar Phrase Render RenderContext

/-- The word can begin a query. -/
def Word.BeginsQuery (w : Word) : Prop :=
  w.kind = .keyword .SELECT ∨ w.kind = .punct .leftParen

section Branches

variable {r : RenderContext} {op : SetOp} {q : Query} {qs : List Query} {p p' : Phrase}
  {ps : List Phrase} {used used' : List String} {n limit levels : Nat} {w : Word}

end Branches

end BoundSql
