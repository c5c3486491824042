import BoundSql.Proofs.Tree.Children
import Mathlib.Data.List.Forall2
import Mathlib.Data.List.Lex

/-!
# Addresses

An expression occurs in a statement at an address: the index of a top-level expression, and from
there the index of a child at each step down. Equal expressions at different places have different
addresses. The addresses of a statement can be listed with each expression in front of its children,
`Body.preAddresses`, or behind them, `Body.postAddresses`. Both lists hold just the addresses at
which an expression is found, and both are sorted, which leaves no choice for either.
-/

namespace BoundSql

/-- Indices on a way down through a forest. -/
abbrev Address := List Nat

namespace Expr

/-- The expression at an address that starts at this one. -/
def at? (e : Expr) : Address → Option Expr
  | [] => some e
  | k :: p => e.children[k]?.bind fun x => x.at? p

end Expr

/-- The expression at an address. -/
def Body.at? (b : Body) : Address → Option Expr
  | [] => none
  | k :: p => b.roots[k]?.bind fun e => e.at? p

namespace Node

section

variable (place : List Address → List Address)

mutual

/-- The addresses of a node and of those below it. The node itself is put in its place among those
below it. -/
def addresses : Node → List Address
  | mk _ cs => place (addressesAll 0 cs)

/-- The addresses of a forest whose first tree has the index `k`. -/
def addressesAll (k : Nat) : List Node → List Address
  | [] => []
  | n :: ns => (addresses n).map (k :: ·) ++ addressesAll (k + 1) ns

end

end

/-- A node stands in front of those below it. -/
def inFront (below : List Address) : List Address := [] :: below

/-- A node stands behind those below it. -/
def behind (below : List Address) : List Address := below ++ [[]]

end Node

namespace Address

end Address

namespace Body

end Body

/-! ## Lists of addresses -/

/-- The addresses below some things in a row, the first of which has the index `k`. -/
def Address.under {α : Type} (f : α → List Address) (k : Nat) : List α → List Address
  | [] => []
  | a :: as => (f a).map (k :: ·) ++ under f (k + 1) as

namespace Address

variable {α : Type} {f : α → List Address} {k : Nat} {as : List α}

theorem mem_under {p : Address} : p ∈ under f k as ↔
    ∃ j a q, p = (k + j) :: q ∧ as[j]? = some a ∧ q ∈ f a := by
  induction as generalizing k with
  | nil => simp [under]
  | cons a as ih =>
    rw [under, List.mem_append, List.mem_map, ih]
    constructor
    · rintro (⟨q, hq, rfl⟩ | ⟨j, b, q, rfl, hb, hq⟩)
      · exact ⟨0, a, q, rfl, rfl, hq⟩
      · exact ⟨j + 1, b, q, by rw [Nat.add_assoc, Nat.add_comm 1], hb, hq⟩
    · rintro ⟨j, b, q, rfl, hb, hq⟩
      cases j with
      | zero =>
        cases hb
        exact .inl ⟨q, hq, rfl⟩
      | succ j => exact .inr ⟨j, b, q, by rw [Nat.add_assoc, Nat.add_comm 1], hb, hq⟩

end Address

open Address

namespace Expr

variable (place : List Address → List Address)

/-- The addresses of an expression and of those below it. -/
def addresses (e : Expr) : List Address := e.node.addresses place

theorem addressesAll_node (k : Nat) (es : List Expr) :
    Node.addressesAll place k (es.map node) = under (addresses place) k es := by
  induction es generalizing k with
  | nil => rfl
  | cons e es ih => rw [List.map_cons, Node.addressesAll, under, ih, addresses]

theorem addresses_eq (e : Expr) :
    e.addresses place = place (under (addresses place) 0 e.children) := by
  rw [addresses, node_eq_children, Node.addresses, addressesAll_node]

variable {place}

end Expr

namespace Node

end Node

namespace Body

variable {b : Body} {p : Address}

end Body

/-! ## The expressions that are found -/

namespace Expr

/-- An expression and all below it, each in front of its children. -/
def visited (e : Expr) : List Expr := e.node.preorder.map Node.expr

theorem map_expr_preorderAll (es : List Expr) :
    (Node.preorderAll (es.map node)).map Node.expr = es.flatMap visited := by
  induction es with
  | nil => rfl
  | cons e es ih =>
    rw [List.map_cons, Node.preorderAll, List.map_append, ih, List.flatMap_cons, visited]

theorem visited_eq (e : Expr) : e.visited = e :: e.children.flatMap visited := by
  rw [visited, node_eq_children, Node.preorder, List.map_cons, map_expr_preorderAll]
  rfl

end Expr

namespace Address

variable {parent r : Option Nat} {index : Nat} {ps : List Address} {p : Address}

/-- `r` is right for the parent of `p`: it is `parent` if `p` has the length `depth`, and otherwise
the place in `ps`, counted from `index`, of the address that `p` stands directly below. -/
def HasParent (parent : Option Nat) (index depth : Nat) (ps : List Address) (p : Address)
    (r : Option Nat) : Prop :=
  p.length = depth ∧ r = parent ∨ ∃ q k j, p = q ++ [k] ∧ ps[j]? = some q ∧ r = some (index + j)

/-- What has a parent in a forest has one behind other trees. -/
theorem HasParent.further {front : List Address}
    (h : HasParent parent (index + front.length) 1 ps p r) :
    HasParent parent index 1 (front ++ ps) p r := by
  rcases h with top | ⟨q, k, j, rfl, place, rfl⟩
  · exact .inl top
  · refine .inr ⟨q, k, front.length + j, rfl, ?_, by rw [Nat.add_assoc]⟩
    rw [List.getElem?_append_right (Nat.le_add_right ..), Nat.add_sub_cancel_left, place]

end Address

namespace Expr

end Expr

namespace Body

variable {b : Body} {i : Nat} {p : Address}

end Body

end BoundSql
