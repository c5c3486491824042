import BoundSql.Text.Basic

/-!
# Comments

A line comment runs to the end of its line, a block comment to its closing mark; block comments
nest. A block comment whose content begins with `name:` is a placeholder and not a comment.
-/

namespace BoundSql.Token

/-- Reads a block comment from behind its opening mark, `depth` further comments being open inside
it. The answer is the content and the number of characters up to and including the closing mark. -/
def commentBody : Nat → List Char → Option (List Char × Nat)
  | _, [] => none
  | 0, '*' :: '/' :: _ => some ([], 2)
  | depth + 1, '*' :: '/' :: cs =>
    (commentBody depth cs).map fun (text, n) => ('*' :: '/' :: text, n + 2)
  | depth, '/' :: '*' :: cs =>
    (commentBody (depth + 1) cs).map fun (text, n) => ('/' :: '*' :: text, n + 2)
  | depth, c :: cs => (commentBody depth cs).map fun (text, n) => (c :: text, n + 1)

/-- Whether the content of a block comment makes it a placeholder. -/
def isPlaceholderComment (content : List Char) : Bool :=
  Text.opens "name:".toList (Text.trimStart content)

/-- The number of characters before the end of the line. -/
def lineLength (cs : List Char) : Nat :=
  (cs.takeWhile (· != '\n')).length

/-- What a text opens with, as far as comments go. Lengths do not count the first character. -/
inductive CommentLead
  | none
  | comment (more : Nat)
  | placeholder (content : List Char) (more : Nat)
  | unterminated

/-- The comment that a text opens with. A single `#` opens one only where `hash` is set. -/
def commentLead (hash : Bool) : List Char → CommentLead
  | '-' :: '-' :: cs => .comment (lineLength cs + 1)
  | '/' :: '*' :: cs =>
    match commentBody 0 cs with
    | Option.none => .unterminated
    | some (content, n) =>
      if isPlaceholderComment content then .placeholder content (n + 1) else .comment (n + 1)
  | '#' :: cs => if hash && cs.head? != some '#' then .comment (lineLength cs) else .none
  | _ => .none

/-- The number of blanks and characters of comments at the beginning of a text, `inside` more of
which belong to a comment that has begun. -/
def gapLength (hash : Bool) : Nat → List Char → Nat
  | _, [] => 0
  | inside + 1, _ :: cs => gapLength hash inside cs + 1
  | 0, c :: cs =>
    if Text.isBlank c then gapLength hash 0 cs + 1
    else match commentLead hash (c :: cs) with
      | .comment more => gapLength hash more cs + 1
      | _ => 0

end BoundSql.Token
