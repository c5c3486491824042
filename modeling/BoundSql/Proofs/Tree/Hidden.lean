import BoundSql.Proofs.Tree.Formed
import Mathlib.Data.List.Perm.Basic

/-!
# Joins that hide behind others

A join names the target that it stands at, and more than one can name the same. The first of them is
shown there and the others are hidden, with all that stands in their conditions. Of the parameters
of a tree whose joins stand at targets, each is shown or hidden: `Body.params_perm_shown`. None is
hidden just if no hidden join has a parameter in its condition: `Body.hiddenParams_eq_nil_iff`.
-/

namespace BoundSql

/-! ## Joins -/

namespace FromClause

variable {f : FromClause}

/-- The joins that stand at the target with this index. -/
def joinsAt (f : FromClause) (n : Nat) : List Join := f.joins.filter (·.position == n)

/-- The first join at each target but the first. -/
def shown (f : FromClause) : List Join :=
  (List.range' 1 (f.targets.length - 1)).flatMap fun n => (f.joinsAt n).take 1

/-- The joins at each target but the first that stand behind another one there. -/
def hidden (f : FromClause) : List Join :=
  (List.range' 1 (f.targets.length - 1)).flatMap fun n => (f.joinsAt n).drop 1

/-- The expressions in hidden joins. -/
def hiddenParts (f : FromClause) : List Expr := f.hidden.filterMap (·.condition.expr?)

/-- The FROM without its hidden joins. -/
def unhidden (f : FromClause) : FromClause := { f with joins := f.shown }

theorem mem_joins_of_mem_shown {j : Join} (h : j ∈ f.shown) : j ∈ f.joins := by
  obtain ⟨n, -, member⟩ := List.mem_flatMap.1 h
  exact (List.mem_filter.1 (List.mem_of_mem_take member)).1

theorem mem_joins_of_mem_hidden {j : Join} (h : j ∈ f.hidden) : j ∈ f.joins := by
  obtain ⟨n, -, member⟩ := List.mem_flatMap.1 h
  exact (List.mem_filter.1 (List.mem_of_mem_drop member)).1

/-- Things grouped by their keys are the same things in some order. -/
theorem flatMap_filter_perm {α : Type} {key : α → Nat} {keys : List Nat} (distinct : keys.Nodup)
    {xs : List α} (covered : ∀ x ∈ xs, key x ∈ keys) :
    (keys.flatMap fun k => xs.filter (key · == k)).Perm xs := by
  induction keys generalizing xs with
  | nil =>
    cases xs with
    | nil => exact .nil
    | cons x xs => cases covered x List.mem_cons_self
  | cons k ks ih =>
    obtain ⟨fresh, distinct⟩ := List.nodup_cons.1 distinct
    have rest (x : α) (hx : x ∈ xs.filter (fun x => !(key x == k))) : key x ∈ ks := by
      obtain ⟨member, other⟩ := List.mem_filter.1 hx
      exact (List.mem_cons.1 (covered x member)).resolve_left (by simpa using other)
    have below : (ks.flatMap fun k' => xs.filter (key · == k')) =
        ks.flatMap fun k' => (xs.filter fun x => !(key x == k)).filter (key · == k') := by
      refine List.flatMap_congr fun k' hk' => ?_
      have apart : k' ≠ k := ne_of_mem_of_not_mem hk' fresh
      rw [List.filter_filter]
      refine List.filter_congr fun x _ => ?_
      by_cases same : key x = k' <;> simp [same, apart]
    rw [List.flatMap_cons, below]
    exact ((ih distinct rest).append_left _).trans (List.filter_append_perm (key · == k) xs)

/-- If all joins stand at targets, each is shown or hidden. -/
theorem shown_append_hidden_perm (h : f.FormedHere) : (f.shown ++ f.hidden).Perm f.joins := by
  have split : (f.shown ++ f.hidden).Perm
      ((List.range' 1 (f.targets.length - 1)).flatMap f.joinsAt) := by
    refine (List.flatMap_append_perm _ _ _).trans (.of_eq (List.flatMap_congr fun n _ => ?_))
    exact List.take_append_drop 1 _
  refine split.trans (flatMap_filter_perm List.nodup_range' fun j hj => ?_)
  have placed := h.joins j hj
  have := placed.behindFirst
  have := placed.atTarget
  rw [List.mem_range'_1]
  omega

end FromClause

/-! ## Queries -/

namespace Query

/-- The query without its hidden joins. -/
def unhidden : Query → Query
  | select s => select { s with source := s.source.map (·.unhidden) }
  | compound c => compound c

/-- The expressions in the clauses of a query that are not hidden. -/
def shownParts (q : Query) : List Expr := q.unhidden.parts

/-- The expressions in the hidden joins of a query. -/
def hiddenParts : Query → List Expr
  | select s => (s.source.map (·.hiddenParts)).getD []
  | compound _ => []

theorem mem_parts_of_mem_shownParts {q : Query} {x : Expr} (h : x ∈ q.shownParts) :
    x ∈ q.parts := by
  cases q with
  | compound c => exact h
  | select s =>
    have joins (x : Expr) (hx : x ∈ ((s.source.map (·.unhidden)).map (·.parts)).getD []) :
        x ∈ (s.source.map (·.parts)).getD [] := by
      cases source : s.source with
      | none =>
        rw [source] at hx
        cases hx
      | some f =>
        rw [source] at hx
        obtain ⟨j, member, same⟩ := List.mem_filterMap.1 hx
        exact List.mem_filterMap.2 ⟨j, FromClause.mem_joins_of_mem_shown member, same⟩
    simp only [shownParts, unhidden, parts, List.mem_append] at h ⊢
    have := joins x
    tauto

theorem mem_parts_of_mem_hiddenParts {q : Query} {x : Expr} (h : x ∈ q.hiddenParts) :
    x ∈ q.parts := by
  cases q with
  | compound c => cases h
  | select s =>
    rw [hiddenParts] at h
    cases source : s.source with
    | none =>
      rw [source] at h
      cases h
    | some f =>
      rw [source] at h
      obtain ⟨j, member, same⟩ := List.mem_filterMap.1 h
      have part : x ∈ f.parts :=
        List.mem_filterMap.2 ⟨j, FromClause.mem_joins_of_mem_hidden member, same⟩
      simp [parts, source, part]

/-- If all joins stand at targets, each expression of a query is shown or hidden. -/
theorem shown_append_hidden_perm {q : Query} (h : q.FormedHere) :
    (q.shownParts ++ q.hiddenParts).Perm q.parts := by
  cases q with
  | compound c => exact .of_eq (List.append_nil _)
  | select s =>
    have joins : ((((s.source.map (·.unhidden)).map (·.parts)).getD []) ++
        (s.source.map (·.hiddenParts)).getD []).Perm ((s.source.map (·.parts)).getD []) := by
      cases source : s.source with
      | none => exact .nil
      | some f =>
        have all := (FromClause.shown_append_hidden_perm (h.2 f source)).filterMap
          (·.condition.expr?)
        rwa [List.filterMap_append] at all
    simp only [shownParts, unhidden, parts, hiddenParts, List.append_assoc]
    refine List.Perm.append_left _ (List.Perm.append_left _ ?_)
    refine .trans ?_ (joins.append_right _)
    rw [List.append_assoc]
    refine List.Perm.append_left _ ?_
    refine .trans (.of_eq ?_) List.perm_append_comm
    simp only [List.append_assoc]

end Query

/-! ## Parameters -/

section Collect

variable {α : Type} (fe : Expr → List α) (fq : Query → List α)

mutual

/-- What is found at an expression and below it, hidden joins not entered. -/
def Expr.collectShown (e : Expr) : List α :=
  fe e ++ (e.parts.attach.flatMap (fun x => x.1.collectShown) ++
    e.queries.attach.flatMap fun q => q.1.collectShown)
termination_by sizeOf e
decreasing_by
  · exact Expr.sizeOf_lt_of_mem_parts x.2
  · exact Expr.sizeOf_lt_of_mem_queries q.2

/-- What is found at a query and below it, hidden joins not entered. -/
def Query.collectShown (q : Query) : List α :=
  fq q ++ (q.shownParts.attach.flatMap (fun x => x.1.collectShown) ++
    q.queries.attach.flatMap fun q' => q'.1.collectShown)
termination_by sizeOf q
decreasing_by
  · exact Query.sizeOf_lt_of_mem_parts (Query.mem_parts_of_mem_shownParts x.2)
  · exact Query.sizeOf_lt_of_mem_queries q'.2

end

theorem flatMap_attach {β : Type} (xs : List β) (f : β → List α) :
    (xs.attach.flatMap fun x => f x.1) = xs.flatMap f := by
  rw [List.flatMap_subtype (fun x _ => rfl), List.unattach_attach]

theorem Expr.collectShown_eq (e : Expr) : e.collectShown fe fq =
    fe e ++ (e.parts.flatMap (collectShown fe fq) ++
      e.queries.flatMap (Query.collectShown fe fq)) := by
  rw [collectShown, flatMap_attach, flatMap_attach]

theorem Query.collectShown_eq (q : Query) : q.collectShown fe fq =
    fq q ++ (q.shownParts.flatMap (Expr.collectShown fe fq) ++
      q.queries.flatMap (collectShown fe fq)) := by
  rw [collectShown, flatMap_attach, flatMap_attach]

end Collect

/-- The parameters of an expression that are not hidden. -/
def Expr.shownParams : Expr → List ParamRef := collectShown (·.param?.toList) fun _ => []

/-- The parameters of a query that are not hidden. -/
def Query.shownParams : Query → List ParamRef := collectShown (·.param?.toList) fun _ => []

/-- The parameters of an expression that stand in hidden joins. -/
def Expr.hiddenParams : Expr → List ParamRef :=
  collectShown (fun _ => []) (·.hiddenParts.flatMap params)

/-- The parameters of a query that stand in hidden joins. -/
def Query.hiddenParams : Query → List ParamRef :=
  collectShown (fun _ => []) (·.hiddenParts.flatMap Expr.params)

theorem Expr.shownParams_eq (e : Expr) : e.shownParams =
    e.param?.toList ++ (e.parts.flatMap shownParams ++ e.queries.flatMap Query.shownParams) :=
  e.collectShown_eq ..

theorem Query.shownParams_eq (q : Query) : q.shownParams =
    q.shownParts.flatMap Expr.shownParams ++ q.queries.flatMap shownParams :=
  q.collectShown_eq ..

theorem Expr.hiddenParams_eq (e : Expr) : e.hiddenParams =
    e.parts.flatMap hiddenParams ++ e.queries.flatMap Query.hiddenParams :=
  e.collectShown_eq ..

theorem Query.hiddenParams_eq (q : Query) : q.hiddenParams = q.hiddenParts.flatMap Expr.params ++
    (q.shownParts.flatMap Expr.hiddenParams ++ q.queries.flatMap hiddenParams) :=
  q.collectShown_eq ..

/-- The parameters of a statement that are not hidden. -/
def Body.shownParams (b : Body) : List ParamRef :=
  b.parts.flatMap Expr.shownParams ++ b.queries.flatMap Query.shownParams ++
    b.fragments.filterMap Fragment.ref?

/-- The parameters of a statement that stand in hidden joins. -/
def Body.hiddenParams (b : Body) : List ParamRef :=
  b.parts.flatMap Expr.hiddenParams ++ b.queries.flatMap Query.hiddenParams

/-- The hidden joins of the query hold no parameters. -/
def Query.HidesNothing (q : Query) : Prop := ∀ x ∈ q.hiddenParts, x.params = []

/-- Two kinds of things, each split in two. -/
theorem flatMap_perm_split {α β : Type} {xs : List α} {f g h : α → List β}
    (split : ∀ x ∈ xs, (f x).Perm (g x ++ h x)) :
    (xs.flatMap f).Perm (xs.flatMap g ++ xs.flatMap h) :=
  (List.Perm.flatMap_left xs split).trans (List.flatMap_append_perm xs g h).symm

section Split

variable {α : Type} {a b c d s t : List α}

theorem append_perm_swap (a b c d : List α) :
    (a ++ (b ++ (c ++ d))).Perm ((a ++ c) ++ (b ++ d)) := by
  rw [List.append_assoc, ← List.append_assoc b, ← List.append_assoc c]
  exact (List.perm_append_comm.append_right d).append_left a

theorem append_perm_split (left : s.Perm (a ++ b)) (right : t.Perm (c ++ d)) :
    (s ++ t).Perm ((a ++ c) ++ (b ++ d)) := by
  refine (left.append right).trans ?_
  rw [List.append_assoc]
  exact append_perm_swap a b c d

end Split

/-- Each parameter of a formed tree is shown or hidden. -/
theorem params_perm_shown :
    (∀ e : Expr, e.Formed → e.params.Perm (e.shownParams ++ e.hiddenParams)) ∧
      ∀ q : Query, q.Formed → q.params.Perm (q.shownParams ++ q.hiddenParams) := by
  refine tree_induction (fun e hes hqs h => ?_) fun q hes hqs h => ?_
  · rw [e.params_eq, e.shownParams_eq, e.hiddenParams_eq, List.append_assoc]
    exact (append_perm_split (flatMap_perm_split fun x hx => hes x hx (h.parts x hx))
      (flatMap_perm_split fun q hq => hqs q hq (h.queries q hq))).append_left _
  · have shown : (q.shownParts.flatMap Expr.params).Perm
        (q.shownParts.flatMap Expr.shownParams ++ q.shownParts.flatMap Expr.hiddenParams) :=
      flatMap_perm_split fun x hx =>
        have member := Query.mem_parts_of_mem_shownParts hx
        hes x member (h.parts x member)
    have parts : (q.parts.flatMap Expr.params).Perm (q.shownParts.flatMap Expr.shownParams ++
        (q.hiddenParts.flatMap Expr.params ++ q.shownParts.flatMap Expr.hiddenParams)) := by
      refine ((Query.shown_append_hidden_perm h.here).symm.flatMap_right _).trans ?_
      rw [List.flatMap_append]
      refine (shown.append_right _).trans ?_
      rw [List.append_assoc]
      exact List.perm_append_comm.append_left _
    rw [q.shownParams_eq, q.hiddenParams_eq, ← List.append_assoc (q.hiddenParts.flatMap _)]
    exact q.params_perm.trans (append_perm_split parts
      (flatMap_perm_split fun q' hq' => hqs q' hq' (h.queries q' hq')))

/-- A tree without parameters hides none. -/
theorem hidesNothing_of_params_eq_nil :
    (∀ e : Expr, e.params = [] → e.Everywhere (fun _ => True) Query.HidesNothing) ∧
      ∀ q : Query, q.params = [] → q.Everywhere (fun _ => True) Query.HidesNothing := by
  refine tree_induction (fun e hes hqs h => ?_) fun q hes hqs h => ?_
  · rw [e.params_eq, List.append_eq_nil_iff, List.append_eq_nil_iff, List.flatMap_eq_nil_iff,
      List.flatMap_eq_nil_iff] at h
    exact ⟨trivial, fun x hx => hes x hx (h.2.1 x hx), fun q hq => hqs q hq (h.2.2 q hq)⟩
  · have below := h ▸ q.params_perm
    rw [List.nil_perm, List.append_eq_nil_iff, List.flatMap_eq_nil_iff,
      List.flatMap_eq_nil_iff] at below
    exact ⟨fun x hx => below.1 x (Query.mem_parts_of_mem_hiddenParts hx),
      fun x hx => hes x hx (below.1 x hx), fun q' hq' => hqs q' hq' (below.2 q' hq')⟩

/-- In a formed tree no parameter is hidden just if no hidden join holds one. -/
theorem hiddenParams_eq_nil_iff :
    (∀ e : Expr, e.Formed →
        (e.hiddenParams = [] ↔ e.Everywhere (fun _ => True) Query.HidesNothing)) ∧
      ∀ q : Query, q.Formed →
        (q.hiddenParams = [] ↔ q.Everywhere (fun _ => True) Query.HidesNothing) := by
  refine tree_induction (fun e hes hqs h => ?_) fun q hes hqs h => ?_
  · rw [e.hiddenParams_eq, List.append_eq_nil_iff, List.flatMap_eq_nil_iff,
      List.flatMap_eq_nil_iff]
    constructor
    · rintro ⟨parts, queries⟩
      exact ⟨trivial, fun x hx => (hes x hx (h.parts x hx)).1 (parts x hx),
        fun q hq => (hqs q hq (h.queries q hq)).1 (queries q hq)⟩
    · intro all
      exact ⟨fun x hx => (hes x hx (h.parts x hx)).2 (all.parts x hx),
        fun q hq => (hqs q hq (h.queries q hq)).2 (all.queries q hq)⟩
  · rw [q.hiddenParams_eq]
    simp only [List.append_eq_nil_iff, List.flatMap_eq_nil_iff]
    constructor
    · rintro ⟨here, shown, queries⟩
      refine ⟨here, fun x hx => ?_,
        fun q' hq' => (hqs q' hq' (h.queries q' hq')).1 (queries q' hq')⟩
      rcases List.mem_append.1 ((Query.shown_append_hidden_perm h.here).mem_iff.2 hx) with hs | hh
      · exact (hes x hx (h.parts x hx)).1 (shown x hs)
      · exact hidesNothing_of_params_eq_nil.1 x (here x hh)
    · intro all
      refine ⟨all.here, fun x hx => ?_, fun q' hq' => (hqs q' hq' (h.queries q' hq')).2
        (all.queries q' hq')⟩
      have member := Query.mem_parts_of_mem_shownParts hx
      exact (hes x member (h.parts x member)).2 (all.parts x member)

namespace Body

variable {b : Body}

/-- Each parameter of a formed statement is shown or hidden. -/
theorem params_perm_shown (h : b.Formed) : b.params.Perm (b.shownParams ++ b.hiddenParams) := by
  have trees := append_perm_split
    (flatMap_perm_split fun e he => BoundSql.params_perm_shown.1 e (h.parts e he))
    (flatMap_perm_split fun q hq => BoundSql.params_perm_shown.2 q (h.queries q hq))
  refine b.params_perm.trans ((trees.append_right _).trans ?_)
  rw [shownParams, hiddenParams, List.append_assoc, List.append_assoc (_ ++ _)]
  exact List.perm_append_comm.append_left _

/-- In a formed statement no parameter is hidden just if no hidden join holds one. -/
theorem hiddenParams_eq_nil_iff (h : b.Formed) :
    b.hiddenParams = [] ↔ b.EveryQuery Query.HidesNothing := by
  rw [hiddenParams, List.append_eq_nil_iff, List.flatMap_eq_nil_iff, List.flatMap_eq_nil_iff]
  exact and_congr
    (forall₂_congr fun e he => BoundSql.hiddenParams_eq_nil_iff.1 e (h.parts e he))
    (forall₂_congr fun q hq => BoundSql.hiddenParams_eq_nil_iff.2 q (h.queries q hq))

end Body

end BoundSql
