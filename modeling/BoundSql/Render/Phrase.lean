/-!
# Written SQL

SQL is put together from marks: texts, blanks between them, and the places where a clause begins.
Only the last step, `Phrase.write`, decides whether a clause begins on a line of its own, so that
the layout changes nothing else.
-/

namespace BoundSql

/-- A part of written SQL. -/
inductive Mark
  | text (s : String)
  | blank
  /-- The gap in front of a clause. -/
  | clause
  deriving DecidableEq, Repr

namespace Mark

/-- The characters of a mark. -/
def write (pretty : Bool) : Mark → List Char
  | text s => s.toList
  | blank => [' ']
  | clause => if pretty then ['\n'] else [' ']

end Mark

/-- A piece of written SQL. -/
abbrev Phrase := List Mark

namespace Phrase

/-- The characters of a phrase. -/
def write (pretty : Bool) (p : Phrase) : List Char := p.flatMap (Mark.write pretty)

@[simp] theorem write_nil (pretty : Bool) : write pretty [] = [] := rfl

@[simp] theorem write_cons (pretty : Bool) (m : Mark) (p : Phrase) :
    write pretty (m :: p) = m.write pretty ++ write pretty p := rfl

@[simp] theorem write_append (pretty : Bool) (p q : Phrase) :
    write pretty (p ++ q) = write pretty p ++ write pretty q := by
  simp [write]

/-- The phrases with a phrase between each two. -/
def sepBy (glue : Phrase) : List Phrase → Phrase
  | [] => []
  | [p] => p
  | p :: ps => p ++ glue ++ sepBy glue ps

/-- The phrases with commas between them. -/
def commas (ps : List Phrase) : Phrase := sepBy [.text ",", .blank] ps

/-- The texts with blanks between them. -/
def words (ws : List String) : Phrase := sepBy [.blank] (ws.map fun w => [.text w])

/-- The phrase between parentheses. -/
def parens (p : Phrase) : Phrase := .text "(" :: p ++ [.text ")"]

/-- A clause: its keywords and what stands behind them. -/
def clause (ws : List String) (p : Phrase) : Phrase := .clause :: words ws ++ .blank :: p

/-- Whether the phrase begins with a minus sign. -/
def opensWithMinus : Phrase → Bool
  | .text s :: p =>
    match s.toList with
    | [] => opensWithMinus p
    | c :: _ => c == '-'
  | _ => false

end Phrase

end BoundSql
