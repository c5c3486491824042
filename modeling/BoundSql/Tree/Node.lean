import BoundSql.Tree.Statement

/-!
# The expressions of a statement as a forest

Below an expression stand its operands or, if it holds a query, the top-level expressions of the
query. `Node` makes this relation between expressions a tree of its own, in source order, from which
the orders of visiting are read off.
-/

namespace BoundSql

/-- An expression with the expressions directly below it. -/
inductive Node
  | mk (expr : Expr) (children : List Node)

namespace Node

/-- The expression. -/
def expr : Node → Expr
  | mk e _ => e

/-- What stands directly below. -/
def children : Node → List Node
  | mk _ cs => cs

mutual

/-- The node and all nodes below it, each in front of its children. -/
def preorder : Node → List Node
  | mk e cs => mk e cs :: preorderAll cs

/-- The nodes of a forest, each in front of its children. -/
def preorderAll : List Node → List Node
  | [] => []
  | n :: ns => preorder n ++ preorderAll ns

end

mutual

/-- The node and all nodes below it, each behind its children. -/
def postorder : Node → List Node
  | mk e cs => postorderAll cs ++ [mk e cs]

/-- The nodes of a forest, each behind its children. -/
def postorderAll : List Node → List Node
  | [] => []
  | n :: ns => postorder n ++ postorderAll ns

end

mutual

/-- For each node in `preorder` the index of the node it stands below. The index of this one and of
its parent are given. -/
def parents (parent : Option Nat) (index : Nat) : Node → List (Option Nat)
  | mk _ cs => parent :: parentsAll (some index) (index + 1) cs

/-- For each node of a forest the index of the node it stands below, the first index being given. -/
def parentsAll (parent : Option Nat) (index : Nat) : List Node → List (Option Nat)
  | [] => []
  | n :: ns =>
    let first := parents parent index n
    first ++ parentsAll parent (index + first.length) ns

end

end Node

mutual

/-- The node of an expression. -/
def Expr.node : Expr → Node
  | .literal l => ⟨.literal l, []⟩
  | .name i => ⟨.name i, []⟩
  | .param p => ⟨.param p, []⟩
  | .wildcard t => ⟨.wildcard t, []⟩
  | .call f d args => ⟨.call f d args, Node.ofExprs args⟩
  | .operation op operands => ⟨.operation op operands, Node.ofExprs operands⟩
  | .subquery q => ⟨.subquery q, q.nodes⟩
  | .cases base arms otherwise =>
    ⟨.cases base arms otherwise,
      (match base with | none => [] | some e => [e.node]) ++ Node.ofArms arms ++
      (match otherwise with | none => [] | some e => [e.node])⟩
  | .cast e t => ⟨.cast e t, [e.node]⟩

/-- The nodes of expressions in a row. -/
def Node.ofExprs : List Expr → List Node
  | [] => []
  | e :: es => e.node :: Node.ofExprs es

/-- The nodes of conditions and results. -/
def Node.ofArms : List (Expr × Expr) → List Node
  | [] => []
  | (w, t) :: arms => w.node :: t.node :: Node.ofArms arms

/-- The nodes of the top-level expressions of a query. -/
def Query.nodes : Query → List Node
  | .select s => s.nodes
  | .compound c => c.nodes

/-- The nodes of the top-level expressions of a SELECT. -/
def Select.nodes : Select → List Node
  | ⟨_, distinctOn, columns, source, condition, groupBy, having, orderBy, limit, offset⟩ =>
    (match distinctOn with | none => [] | some e => [e.node]) ++
    Node.ofColumns columns ++
    (match source with | none => [] | some f => f.nodes) ++
    (match condition with | none => [] | some e => [e.node]) ++
    Node.ofExprs groupBy ++
    (match having with | none => [] | some e => [e.node]) ++
    Node.ofOrder orderBy ++
    (match limit with | none => [] | some e => [e.node]) ++
    (match offset with | none => [] | some e => [e.node])

/-- The nodes of the top-level expressions of a compound. -/
def Compound.nodes : Compound → List Node
  | ⟨_, branches, orderBy, limit, offset⟩ =>
    Node.ofQueries branches ++ Node.ofOrder orderBy ++
    (match limit with | none => [] | some e => [e.node]) ++
    (match offset with | none => [] | some e => [e.node])

/-- The nodes of result columns. -/
def Node.ofColumns : List Column → List Node
  | [] => []
  | ⟨e, _⟩ :: cs => e.node :: Node.ofColumns cs

/-- The nodes of sort keys. -/
def Node.ofOrder : List OrderItem → List Node
  | [] => []
  | ⟨e, _, _⟩ :: os => e.node :: Node.ofOrder os

/-- The nodes of the top-level expressions of queries. -/
def Node.ofQueries : List Query → List Node
  | [] => []
  | q :: qs => q.nodes ++ Node.ofQueries qs

/-- The nodes of a FROM: those of its queries, then the conditions of its joins. -/
def FromClause.nodes : FromClause → List Node
  | ⟨targets, joins⟩ => Node.ofTargets targets ++ Node.ofJoins joins

/-- The nodes of the queries among targets. -/
def Node.ofTargets : List Target → List Node
  | [] => []
  | ⟨.table _, _⟩ :: ts => Node.ofTargets ts
  | ⟨.subquery q, _⟩ :: ts => q.nodes ++ Node.ofTargets ts

/-- The nodes of the conditions of joins. -/
def Node.ofJoins : List Join → List Node
  | [] => []
  | ⟨_, _, .none⟩ :: js => Node.ofJoins js
  | ⟨_, _, .predicate e⟩ :: js => e.node :: Node.ofJoins js
  | ⟨_, _, .columns _⟩ :: js => Node.ofJoins js

end

/-- The expressions directly below an expression. -/
def Expr.children (e : Expr) : List Expr := e.node.children.map Node.expr

/-- The top-level expressions of a query. -/
def Query.roots (q : Query) : List Expr := q.nodes.map Node.expr

/-- The node of an expression that may be missing. -/
def Node.ofOption (e : Option Expr) : List Node := (e.map Expr.node).toList

namespace Body

/-- The nodes of the top-level expressions of a statement. -/
def nodes : Body → List Node
  | select s => s.nodes
  | compound c => c.nodes
  | insert i =>
    match i.source with
    | .values rows => Node.ofExprs rows.flatten
    | .query q => q.nodes
    | .defaultValues => []
  | update u => Node.ofExprs (u.assignments.map (·.value)) ++ Node.ofOption u.condition
  | delete d => Node.ofOption d.condition
  | transaction _ | verbatim _ => []

/-- The top-level expressions of a statement. -/
def roots (b : Body) : List Expr := b.nodes.map Node.expr

/-- All expressions of a statement, each in front of those below it. -/
def exprs (b : Body) : List Expr := (Node.preorderAll b.nodes).map Node.expr

end Body

end BoundSql
