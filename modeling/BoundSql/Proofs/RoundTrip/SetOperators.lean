import BoundSql.Grammar.Statement
import BoundSql.Proofs.Grammar.Query
import BoundSql.Proofs.RoundTrip.Integer

/-!
# Set operators read back

Queries over integers keep their tree when they are written and read, up to three things: a first
branch that is an unbounded compound of the same operator is read as part of the compound, SQLite
writes a LIMIT of its own in front of an OFFSET that has none, and negative integers are read as
negations. `Query.merged` is what is read.
-/

namespace BoundSql

open Text Token Parse Grammar Phrase Render RenderContext

/-- The LIMIT that is read where a query has this one and this OFFSET. -/
def Dialect.limitRead (d : Dialect) (limit offset : Option Expr) : Option Expr :=
  match limit, offset with
  | none, some _ =>
    if d = .sqlite then some (.operation .minus [.literal (.integer 1)]) else none
  | limit, _ => limit.map Expr.reread

/-- The key as it is read. -/
def OrderItem.reread (o : OrderItem) : OrderItem := { o with expr := o.expr.reread }

/-- The bounding clauses as they are read. -/
def Dialect.boundsRead (d : Dialect) (orderBy : List OrderItem) (limit offset : Option Expr) :
    Bounds :=
  ⟨orderBy.map OrderItem.reread, d.limitRead limit offset, offset.map Expr.reread⟩

/-- The branches that a first branch gives to a compound of the operator. -/
def Query.joining (op : SetOp) : Query → List Query
  | .compound c => if c.op = op && !c.isBounded then c.branches else [.compound c]
  | q => [q]

mutual

/-- The query with first branches that are unbounded compounds of the same operator taken into their
compound, again and again. -/
def Query.joined : Query → Query
  | .select s => .select s
  | .compound ⟨op, branches, orderBy, limit, offset⟩ =>
    .compound ⟨op, Query.joinedBranches op branches, orderBy, limit, offset⟩

/-- The branches of a compound with what its first branch gives to it. -/
def Query.joinedBranches (op : SetOp) : List Query → List Query
  | [] => []
  | q :: qs => q.joined.joining op ++ Query.joinedAll qs

/-- Queries, each with its first branches taken into their compounds. -/
def Query.joinedAll : List Query → List Query
  | [] => []
  | q :: qs => q.joined :: Query.joinedAll qs

end

/-- The chain that a query begins when it stands without parentheses in front of a set operator. -/
def Query.opened : Query → Compound
  | .compound c => if c.isBounded then .ofBranches .union [.compound c] else c
  | q => .ofBranches .union [q]

mutual

/-- The query as it is read. -/
def Query.merged (d : Dialect) : Query → Query
  | .select s => withBounds (d.boundsRead s.orderBy s.limit s.offset)
      (.select { s with columns := s.columns.map fun c => { c with expr := c.expr.reread } })
  | .compound ⟨op, branches, orderBy, limit, offset⟩ =>
    withBounds (d.boundsRead orderBy limit offset)
      (.compound (.ofBranches op (Query.mergedBranches d op branches)))

/-- The branches of a compound as they are read. -/
def Query.mergedBranches (d : Dialect) (op : SetOp) : List Query → List Query
  | [] => []
  | q :: qs => (q.merged d).joining op ++ Query.mergedAll d qs

/-- Queries as they are read. -/
def Query.mergedAll (d : Dialect) : List Query → List Query
  | [] => []
  | q :: qs => q.merged d :: Query.mergedAll d qs

end

mutual

/-- How deep compounds are nested in the query. -/
def Query.height : Query → Nat
  | .select _ => 1
  | .compound ⟨_, branches, _, _, _⟩ => Query.heightAll branches + 1

/-- How deep compounds are nested in the queries. -/
def Query.heightAll : List Query → Nat
  | [] => 0
  | q :: qs => max q.height (Query.heightAll qs)

end

/-- A SELECT of unnamed columns, or a compound of two branches or more; no key has a collation. -/
def Query.NumericNode : Query → Prop
  | .select s => s.distinct = false ∧ s.distinctOn = none ∧ s.columns ≠ [] ∧
      (∀ c ∈ s.columns, c.label = none) ∧ s.source = none ∧ s.condition = none ∧
      s.groupBy = [] ∧ s.having = none ∧ ∀ o ∈ s.orderBy, o.collation = none
  | .compound c => 2 ≤ c.branches.length ∧ ∀ o ∈ c.orderBy, o.collation = none

/-- A tree of set operators over SELECTs of integers, bounded by integers. -/
def Query.Numeric (q : Query) : Prop := q.Everywhere Expr.IsInteger NumericNode

/-- The integers of the query have no sign, and in SQLite each OFFSET has its LIMIT. -/
def Query.Exact (d : Dialect) (q : Query) : Prop :=
  q.Everywhere (fun e => ∃ n, e = .literal (.integer n) ∧ 0 ≤ n.toInt) fun
    | .select s => d = .sqlite → s.offset.isSome → s.limit.isSome
    | .compound c => d = .sqlite → c.offset.isSome → c.limit.isSome

section Merging

variable {d : Dialect} {op : SetOp} {q q' : Query} {qs : List Query}

end Merging

section Exact

variable {d : Dialect}

end Exact

section Parts

variable {r : RenderContext} {used used' : List String} {p : Phrase} {ps : List Phrase}
  {limit levels : Nat} {w : Word} {e : Expr}

theorem Expr.IsInteger.gives (he : e.IsInteger) (h : Gives (e.render r) used p used') :
    ∃ n, e = .literal (.integer n) ∧ p = [.text (Literal.sql r.dialect (.integer n))] := by
  obtain ⟨n, rfl⟩ := he
  obtain ⟨rfl, -⟩ := gives_pure.1 h
  exact ⟨n, rfl, rfl⟩

/-- An integer is read back in front of whatever can stand behind it. -/
theorem Expr.IsInteger.takes (he : e.IsInteger) (h : Gives (e.render r) used p used')
    (hlevels : 2 ≤ levels) (hw : w.kind.ends) :
    Takes (expression limit levels 0) (wordsIn r.dialect p) e.reread w := by
  obtain ⟨n, rfl, rfl⟩ := he.gives h
  rw [wordsIn_text]
  exact takes_integer hlevels (Word.closes_of_ends hw)

theorem Expr.IsInteger.begins (he : e.IsInteger) (h : Gives (e.render r) used p used') :
    ∃ u us, wordsIn r.dialect p = u :: us ∧ u.Begins := by
  obtain ⟨n, rfl, rfl⟩ := he.gives h
  obtain ⟨u, us, hu, hbegins, -⟩ := words_integer r.dialect n
  refine ⟨u, us, ?_, hbegins⟩
  rw [wordsIn_text, hu]

end Parts

end BoundSql
