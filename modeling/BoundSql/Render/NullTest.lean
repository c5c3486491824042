import BoundSql.Render.Statement
import BoundSql.Tree.Rebuild

/-!
# Comparisons with NULL

In SQL `x = NULL` never holds. Before values are written, a comparison with a parameter that is
bound to NULL becomes `x IS NULL` or `x IS NOT NULL`; the new value of a column is marked instead.
A NULL that may not be bound is left alone, so that writing the statement reports it.
-/

namespace BoundSql

open Text

/-- Whether the parameter is written as NULL: it may be, and NULL is bound to it. -/
def ParamRef.holdsNull (params : ParamTable) (values : Bindings) (p : ParamRef) : Bool :=
  p.nullBound ||
    (match params.get? p.key with | some spec => spec.nullok | none => false) &&
      values.isNull p.key.display

namespace Expr

/-- The parameter that the expression is. -/
def param? : Expr → Option ParamRef
  | param p => some p
  | _ => none

/-- Whether the expression is a parameter written as NULL. -/
def isNullParam (isNull : ParamRef → Bool) (e : Expr) : Bool :=
  match e.param? with
  | some p => isNull p
  | none => false

/-- The side of a comparison that is left when the other is a parameter written as NULL. A
comparison of two parameters has none. -/
def comparedWithNull? (isNull : ParamRef → Bool) (a b : Expr) : Option Expr :=
  if b.isNullParam isNull && a.param?.isNone then some a
  else if a.isNullParam isNull && b.param?.isNone then some b
  else none

/-- A comparison with NULL as a test for NULL; any other expression as it is. -/
def testForNull (isNull : ParamRef → Bool) : Expr → Expr
  | operation .eq [a, b] =>
    match comparedWithNull? isNull a b with
    | some e => operation .isNull [e]
    | none => operation .eq [a, b]
  | operation .diff [a, b] =>
    match comparedWithNull? isNull a b with
    | some e => operation .isNotNull [e]
    | none => operation .diff [a, b]
  | e => e

/-- A parameter written as NULL with the mark that it is. -/
def markNull (isNull : ParamRef → Bool) : Expr → Expr
  | param p => if isNull p then param { p with nullBound := true } else param p
  | e => e

end Expr

namespace Fragment

/-- The text in front of a comparison, and the test for NULL that stands for it. -/
def splitComparison? (text : List Char) : Option (List Char × String) :=
  match (trimEnd text).reverse with
  | '=' :: '!' :: rest | '>' :: '<' :: rest => some (rest.reverse, "IS NOT NULL")
  | '=' :: '<' :: _ | '=' :: '>' :: _ | '=' :: ':' :: _ => none
  | '=' :: rest => some (rest.reverse, "IS NULL")
  | _ => none

/-- The text with the comparison at its end turned into a test for NULL, if it ends with one. -/
def testForNull? (text : String) : Option String :=
  (splitComparison? text.toList).map fun (kept, test) =>
    let gap := if (kept.getLast?.map isBlank).getD false then [] else [' ']
    String.ofList (kept ++ gap ++ test.toList)

/-- The fragments with the comparison at their end turned into a test for NULL, if they end with
one. -/
def endWithTest? : List Fragment → Option (List Fragment)
  | [] => none
  | [.text t] => (testForNull? t).map fun t => [.text t]
  | [.param _] => none
  | part :: parts => (endWithTest? parts).map (part :: ·)

/-- One more fragment: a parameter written as NULL behind a comparison turns it into a test. -/
def pushTested (isNull : ParamRef → Bool) (parts : List Fragment) : Fragment → List Fragment
  | .text t => pushText parts t
  | .param p =>
    match if isNull p then endWithTest? parts else none with
    | some parts => parts
    | none => parts ++ [.param p]

end Fragment

namespace Body

/-- What the statement itself holds next to its expressions: new values of an UPDATE that are NULL
are marked, and comparisons in kept text become tests. -/
def markNulls (isNull : ParamRef → Bool) : Body → Body
  | update u =>
    update { u with
      assignments := u.assignments.map fun a => { a with value := a.value.markNull isNull } }
  | verbatim parts => verbatim (parts.foldl (Fragment.pushTested isNull) [])
  | other => other

/-- The statement with comparisons with NULL turned into tests. -/
def testForNulls (isNull : ParamRef → Bool) (b : Body) : Body :=
  (b.markNulls isNull).map (Expr.testForNull isNull)

end Body

namespace Statement

/-- The statement with comparisons with parameters bound to NULL turned into tests for NULL. -/
def testForNulls (s : Statement) (values : Bindings) : Statement :=
  { s with body := s.body.testForNulls (ParamRef.holdsNull s.params values) }

/-- The text of the statement with values bound to its parameters. -/
def render (s : Statement) (values : Bindings) (settings : RenderSettings) (d : Dialect) :
    Except SqlError String :=
  ((s.testForNulls values).write values settings d).1

end Statement

end BoundSql
