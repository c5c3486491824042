import BoundSql.Proofs.Grammar.KeyMarking
import BoundSql.Proofs.Tree.Order

/-!
# The order of visits

The expressions of a statement are visited clause by clause, in the order in which a tree keeps its
clauses. This is not always the order of the text: in a FROM the conditions of joins are visited
behind all targets, although each stands in front of the targets that are joined later, and LIMIT is
visited in front of OFFSET, although `LIMIT m, n` has the offset in front. Where this makes no
difference for certain parameters, a tree is worth just these parameters, in the order in which they
are visited: `Body.worth_of_visitsInOrder`.
-/

namespace BoundSql

open Worth

/-- The keys of the parameters of a statement, in the order in which they are visited. -/
def Body.visitedKeys (b : Body) : List ParamKey := (b.exprs.filterMap Expr.param?).map (·.key)

/-! ## Certain parameters -/

section

variable (among : ParamKey → Bool)

/-- None of the parameters is among certain ones. -/
def LacksAll (ps : List ParamRef) : Prop := ∀ p ∈ ps, among p.key = false

/-- Parameters in the condition of a join have no parameters in later targets behind them. -/
def FromClause.VisitsInOrder (f : FromClause) : Prop :=
  ∀ j ∈ f.joins, LacksAll among (j.condition.expr?.toList.flatMap Expr.params) ∨
    ∀ t ∈ f.targets.drop (j.position + 1),
      LacksAll among (t.rows.query?.toList.flatMap Query.params)

/-- The parameters in the FROM of the query are visited in the order of the text. -/
def Query.SourceInOrder : Query → Prop
  | select s => ∀ f ∈ s.source, f.VisitsInOrder among
  | compound _ => True

/-- The parameters in LIMIT, and those in OFFSET. -/
def Query.boundParams : Query → List ParamRef × List ParamRef
  | select s => (s.limit.toList.flatMap Expr.params, s.offset.toList.flatMap Expr.params)
  | compound c => (c.limit.toList.flatMap Expr.params, c.offset.toList.flatMap Expr.params)

/-- Parameters are not both in LIMIT and in OFFSET. -/
def Query.OneBound (q : Query) : Prop :=
  LacksAll among q.boundParams.1 ∨ LacksAll among q.boundParams.2

/-- Parameters that are both in LIMIT and in OFFSET stand in a text once, those in LIMIT first. -/
def Query.LimitFirst (text : List ParamKey) (q : Query) : Prop :=
  ∀ p ∈ q.boundParams.1, ∀ o ∈ q.boundParams.2, among p.key → among o.key →
    text.count p.key = 1 ∧ text.count o.key = 1 ∧ [p.key, o.key].Sublist text

/-- The statement has certain parameters only where they are visited in the order of its text, which
has these keys. -/
def Body.VisitsInOrder (text : List ParamKey) (b : Body) : Prop :=
  b.EveryQuery fun q => q.SourceInOrder among ∧ q.LimitFirst among text

/-- What certain parameters are worth: their keys, one after the other. -/
def keysAmong (ps : List ParamRef) : WithTop (Exact ParamKey) :=
  ↑(Exact.ofList ((ps.map (·.key)).filter among))

/-- Of all leaves of a tree just certain parameters are worth something. -/
def Weights.countAmong : Weights (Exact ParamKey) where
  name _ := 0
  function _ := 0
  wildcard _ := 0
  assigned _ := 0
  collation _ := 0
  type _ := 0
  param p := keysAmong among [p]
  join _ := 0

end

section

variable {among among' : ParamKey → Bool}

theorem LacksAll.mono {ps : List ParamRef} (fewer : ∀ k, among' k → among k)
    (h : LacksAll among ps) : LacksAll among' ps := by
  intro p hp
  rw [← Bool.not_eq_true]
  exact fun kept => Bool.false_ne_true ((h p hp).symm.trans (fewer _ kept))

theorem not_lacksAll {ps : List ParamRef} : ¬ LacksAll among ps ↔ ∃ p ∈ ps, among p.key := by
  simp [LacksAll]

theorem Query.SourceInOrder.mono {q : Query} (fewer : ∀ k, among' k → among k)
    (h : q.SourceInOrder among) : q.SourceInOrder among' := by
  cases q with
  | select s =>
    exact fun f hf j hj =>
      (h f hf j hj).imp (·.mono fewer) fun later t ht => (later t ht).mono fewer
  | compound c => trivial

@[simp] theorem keysAmong_nil : keysAmong among [] = 0 := rfl

@[simp] theorem keysAmong_append (ps qs : List ParamRef) :
    keysAmong among (ps ++ qs) = keysAmong among ps + keysAmong among qs := by
  rw [keysAmong, List.map_append, List.filter_append]
  rfl

theorem keysAmong_flatMap {α : Type} (f : α → List ParamRef) (xs : List α) :
    keysAmong among (xs.flatMap f) = (xs.map fun x => keysAmong among (f x)).sum := by
  induction xs with
  | nil => rfl
  | cons x xs ih => rw [List.flatMap_cons, keysAmong_append, ih, List.map_cons, List.sum_cons]

theorem LacksAll.keysAmong_eq {ps : List ParamRef} (h : LacksAll among ps) :
    keysAmong among ps = 0 := by
  have none : (ps.map (·.key)).filter among = [] := by
    rw [List.filter_eq_nil_iff, List.forall_mem_map]
    exact fun p hp => by rw [h p hp]; exact Bool.false_ne_true
  rw [keysAmong, none]
  rfl

theorem Weights.ofKeys_countAmong (among : ParamKey → Bool) :
    (Weights.countAmong among).OfKeys fun keys => Exact.ofList (keys.filter among) where
  nil := le_rfl
  param_le p keys := by
    have here : Exact.ofList ((p.key :: keys).filter among) =
        Exact.ofList ([p.key].filter among) + Exact.ofList (keys.filter among) := by
      rw [← Exact.ofList_append, ← List.filter_append]
      rfl
    rw [here, WithTop.coe_add]
    rfl
  name _ := le_rfl
  names parts := by simp [Weights.countAmong]
  function _ := le_rfl
  wildcard _ := le_rfl
  assigned _ := le_rfl
  collation _ := le_rfl
  type _ := le_rfl
  join _ := le_rfl

theorem Weights.names_countAmong (among : ParamKey → Bool) (parts : List String) :
    (countAmong among).names parts = 0 := by
  simp [countAmong]

theorem Weights.nameOption_countAmong (label : Option String) :
    (countAmong among).nameOption label = 0 := by
  cases label <;> simp [countAmong]

/-! ## Expressions -/

theorem Expr.worthOption_eq_sum (w : Weights (Exact ParamKey)) (o : Option Expr) :
    worthOption w o = (o.toList.map (worth w)).sum := by
  cases o <;> simp [worthOption]

theorem Expr.worthArms_eq_sum (w : Weights (Exact ParamKey)) (arms : List (Expr × Expr)) :
    worthArms w arms = ((arms.flatMap fun arm => [arm.1, arm.2]).map (worth w)).sum := by
  induction arms with
  | nil => rfl
  | cons arm arms ih =>
    obtain ⟨c, t⟩ := arm
    rw [worthArms, ih]
    simp [add_assoc]

theorem Expr.sum_worthAll (w : Weights (Exact ParamKey)) (rows : List (List Expr)) :
    (rows.map (worthAll w)).sum = worthAll w rows.flatten := by
  induction rows with
  | nil => rfl
  | cons row rows ih => rw [List.map_cons, List.sum_cons, ih, List.flatten_cons, worthAll_append]

/-- An expression is worth itself and what stands directly below it. -/
theorem Expr.worth_countAmong (e : Expr) : e.worth (.countAmong among) =
    keysAmong among e.param?.toList + ((e.parts.map (worth (.countAmong among))).sum +
      (e.queries.map (Query.worth (.countAmong among))).sum) := by
  cases e with
  | wildcard table => cases table <;> simp [worth, param?, parts, queries, Weights.countAmong]
  | name i => simp [worth, param?, parts, queries, Weights.names_countAmong]
  | cases base arms otherwise =>
    simp [worth, param?, parts, queries, worthOption_eq_sum, worthArms_eq_sum, add_assoc]
  | _ => simp [worth, param?, parts, queries, worthAll_eq_sum, Weights.countAmong]

/-- An expression of which each part is worth its parameters is worth its parameters. -/
theorem Expr.worth_eq_keysAmong {e : Expr}
    (hparts : ∀ x ∈ e.parts, x.worth (.countAmong among) = keysAmong among x.params)
    (hqueries : ∀ q ∈ e.queries, q.worth (.countAmong among) = keysAmong among q.params) :
    e.worth (.countAmong among) = keysAmong among e.params := by
  rw [worth_countAmong, params_eq, keysAmong_append, keysAmong_append, keysAmong_flatMap,
    keysAmong_flatMap, List.map_congr_left hparts, List.map_congr_left hqueries]

/-! ## Queries -/

/-- Where each condition is worth nothing or the targets behind it are, the targets can all stand in
front of the conditions. -/
theorem Worth.joined_eq {N : Type} [AddMonoid N] {ts : List (WithTop N)}
    {js : List (WithTop N × WithTop N)} (length : ts.length = js.length) (kinds : ∀ j ∈ js, j.1 = 0)
    (apart : ∀ i j, js[i]? = some j → j.2 = 0 ∨ ∀ t ∈ ts.drop (i + 1), t = 0) :
    joined ts js = ts.sum + (js.map Prod.snd).sum := by
  induction ts generalizing js with
  | nil =>
    obtain rfl := List.eq_nil_of_length_eq_zero length.symm
    simp [joined]
  | cons t ts ih =>
    obtain ⟨⟨kind, condition⟩, js, rfl⟩ := List.exists_cons_of_length_eq_add_one length.symm
    obtain ⟨none, kinds⟩ := List.forall_mem_cons.1 kinds
    have rest := ih (Nat.succ.inj length) kinds fun i => apart (i + 1)
    have here : condition + ts.sum = ts.sum + condition := by
      rcases apart 0 _ rfl with rfl | later
      · rw [zero_add, add_zero]
      · have nothing : ts.sum = 0 := List.sum_eq_zero later
        rw [nothing, zero_add, add_zero]
    obtain rfl : kind = 0 := none
    rw [joined, rest, zero_add, List.sum_cons, List.map_cons, List.sum_cons, add_assoc,
      ← add_assoc condition, here, add_assoc, add_assoc]

/-- A target is worth the parameters of its query. -/
theorem Target.worth_eq_keysAmong {t : Target}
    (h : ∀ q ∈ t.rows.query?, q.worth (.countAmong among) = keysAmong among q.params) :
    t.worth (.countAmong among) = keysAmong among (t.rows.query?.toList.flatMap Query.params) := by
  obtain ⟨rows, label⟩ := t
  rw [worth, Weights.nameOption_countAmong, add_zero]
  cases rows with
  | table i => exact Weights.names_countAmong among i.parts
  | subquery q =>
    rw [TableSource.worth, h q rfl]
    exact congrArg (keysAmong among) (List.flatMap_singleton ..).symm

/-- The condition of a join is worth its parameters. -/
theorem JoinCondition.worth_eq_keysAmong {c : JoinCondition}
    (h : ∀ e ∈ c.expr?, e.worth (.countAmong among) = keysAmong among e.params) :
    c.worth (.countAmong among) = keysAmong among (c.expr?.toList.flatMap Expr.params) := by
  cases c with
  | none => rfl
  | predicate e =>
    rw [worth, h e rfl]
    exact congrArg (keysAmong among) (List.flatMap_singleton ..).symm
  | columns names => exact Weights.names_countAmong among names

/-- A join stands at the target that it is listed for. -/
theorem FromClause.Ordered.position {f : FromClause} (h : f.Ordered) {i : Nat} {j : Join}
    (place : f.joins[i]? = some j) : j.position = i + 1 := by
  obtain ⟨inside, -⟩ := List.getElem?_eq_some_iff.1 place
  have positions := congrArg (·[i]?) h.positions
  rw [List.getElem?_map, place, List.getElem?_range' (by simpa using inside)] at positions
  simpa [Nat.add_comm] using positions

/-- The queries of a FROM and the conditions of its joins are worth their parameters. -/
structure FromClause.Counts (among : ParamKey → Bool) (f : FromClause) : Prop where
  query : ∀ t ∈ f.targets, t.worth (.countAmong among) =
    keysAmong among (t.rows.query?.toList.flatMap Query.params)
  condition : ∀ j ∈ f.joins, j.condition.worth (.countAmong among) =
    keysAmong among (j.condition.expr?.toList.flatMap Expr.params)

namespace FromClause

variable {f : FromClause}

theorem counts
    (hparts : ∀ x ∈ f.parts, x.worth (.countAmong among) = keysAmong among x.params)
    (hqueries : ∀ q ∈ f.queries, q.worth (.countAmong among) = keysAmong among q.params) :
    f.Counts among where
  query t ht := Target.worth_eq_keysAmong fun q hq => hqueries q (List.mem_filterMap.2 ⟨t, ht, hq⟩)
  condition j hj := JoinCondition.worth_eq_keysAmong fun e he =>
    hparts e (List.mem_filterMap.2 ⟨j, hj, he⟩)

theorem Counts.keysAmong_queries (h : f.Counts among) :
    keysAmong among (f.queries.flatMap Query.params) =
      (f.targets.map (Target.worth (.countAmong among))).sum := by
  rw [queries, List.filterMap_eq_flatMap_toList, List.flatMap_assoc, keysAmong_flatMap]
  exact congrArg List.sum (List.map_congr_left fun t ht => (h.query t ht).symm)

theorem Counts.keysAmong_parts (h : f.Counts among) :
    keysAmong among (f.parts.flatMap Expr.params) =
      (f.joins.map fun j => j.condition.worth (.countAmong among)).sum := by
  rw [parts, List.filterMap_eq_flatMap_toList, List.flatMap_assoc, keysAmong_flatMap]
  exact congrArg List.sum (List.map_congr_left fun j hj => (h.condition j hj).symm)

/-- A condition is worth nothing, or the targets behind it are. -/
theorem Counts.apart (h : f.Counts among) (ordered : f.Ordered) (inOrder : f.VisitsInOrder among)
    {i : Nat} {j : Join} (place : f.joins[i]? = some j) :
    j.condition.worth (.countAmong among) = 0 ∨
      ∀ t ∈ f.targets.drop (i + 2), t.worth (.countAmong among) = 0 := by
  have member := List.mem_of_getElem? place
  refine (inOrder j member).imp (fun lacks => ?_) fun later t ht => ?_
  · rw [h.condition j member, lacks.keysAmong_eq]
  · rw [ordered.position place] at later
    rw [h.query t (List.mem_of_mem_drop ht), (later t ht).keysAmong_eq]

/-- A FROM is worth the parameters in its targets and then those in its conditions. -/
theorem Counts.worth_eq (h : f.Counts among) (ordered : f.Ordered)
    (inOrder : f.VisitsInOrder among) : f.worth (.countAmong among) =
      keysAmong among (f.queries.flatMap Query.params ++ f.parts.flatMap Expr.params) := by
  rw [keysAmong_append, h.keysAmong_queries, h.keysAmong_parts]
  have apart {i : Nat} {j : Join} := h.apart ordered inOrder (i := i) (j := j)
  obtain ⟨targets, joins⟩ := f
  obtain ⟨first, targets, rfl⟩ := List.exists_cons_of_length_eq_add_one ordered.targets
  rw [worth, Target.worths_eq_map, Join.worths_eq_map, List.map_cons, Worth.source,
    Worth.joined_eq, List.sum_cons, List.map_map, add_assoc]
  · rfl
  · rw [List.length_map, List.length_map]
    exact Nat.succ.inj ordered.targets
  · exact List.forall_mem_map.2 fun _ _ => rfl
  · intro i w found
    rw [List.getElem?_map] at found
    obtain ⟨j, place, rfl⟩ := Option.map_eq_some_iff.1 found
    rw [← List.map_drop, List.forall_mem_map]
    exact apart place

end FromClause

theorem Query.params_select (s : Select) : (select s).params =
    s.distinctOn.toList.flatMap Expr.params ++ (s.columns.map (·.expr)).flatMap Expr.params ++
      s.source.toList.flatMap (fun f => f.queries.flatMap params ++ f.parts.flatMap Expr.params) ++
      s.condition.toList.flatMap Expr.params ++ s.groupBy.flatMap Expr.params ++
      s.having.toList.flatMap Expr.params ++ (s.orderBy.map (·.expr)).flatMap Expr.params ++
      s.limit.toList.flatMap Expr.params ++ s.offset.toList.flatMap Expr.params := by
  have source : Node.params (Node.ofFrom s.source) = s.source.toList.flatMap
      fun f => f.queries.flatMap params ++ f.parts.flatMap Expr.params := by
    rw [Node.ofFrom_eq, Node.params_append, Node.params_flatMap_nodes, Node.params_map_node]
    cases s.source <;> simp
  simp only [params, nodes_select, Node.params_append, source, Node.ofOption_eq, Node.ofColumns_eq,
    Node.ofExprs_eq, Node.ofOrder_eq, Node.params_map_node]

theorem Query.params_compound (c : Compound) : (compound c).params =
    c.branches.flatMap params ++ (c.orderBy.map (·.expr)).flatMap Expr.params ++
      c.limit.toList.flatMap Expr.params ++ c.offset.toList.flatMap Expr.params := by
  simp only [params, nodes_compound, Node.params_append, Node.ofOption_eq, Node.ofQueries_eq,
    Node.ofOrder_eq, Node.params_map_node, Node.params_flatMap_nodes]

/-! ### Clauses -/

/-- Expressions are worth their parameters. -/
def CountsAll (among : ParamKey → Bool) (es : List Expr) : Prop :=
  ∀ e ∈ es, e.worth (.countAmong among) = keysAmong among e.params

theorem CountsAll.sum {es : List Expr} (h : CountsAll among es) :
    (es.map (Expr.worth (.countAmong among))).sum = keysAmong among (es.flatMap Expr.params) := by
  rw [keysAmong_flatMap, List.map_congr_left h]

theorem CountsAll.option {o : Option Expr} (h : CountsAll among o.toList) :
    Expr.worthOption (.countAmong among) o = keysAmong among (o.toList.flatMap Expr.params) := by
  rw [Expr.worthOption_eq_sum, h.sum]

theorem CountsAll.list {es : List Expr} (h : CountsAll among es) :
    Expr.worthAll (.countAmong among) es = keysAmong among (es.flatMap Expr.params) := by
  rw [Expr.worthAll_eq_sum, h.sum]

theorem CountsAll.columns {cs : List Column} (h : CountsAll among (cs.map (·.expr))) :
    Column.worthAll (.countAmong among) cs =
      keysAmong among ((cs.map (·.expr)).flatMap Expr.params) := by
  have alone : Column.worth (.countAmong among) = fun c => c.expr.worth (.countAmong among) :=
    funext fun c => by rw [Column.worth, Weights.nameOption_countAmong, add_zero]
  rw [Column.worthAll_eq_sum, alone, ← h.sum, List.map_map]
  rfl

theorem CountsAll.order {os : List OrderItem} (h : CountsAll among (os.map (·.expr))) :
    OrderItem.worthAll (.countAmong among) os =
      keysAmong among ((os.map (·.expr)).flatMap Expr.params) := by
  have alone : OrderItem.worth (.countAmong among) = fun o => o.expr.worth (.countAmong among) := by
    funext o
    have nothing : (Weights.countAmong among).collationOption o.collation = 0 := by
      cases o.collation <;> simp [Weights.countAmong]
    rw [OrderItem.worth, nothing, add_zero]
  rw [OrderItem.worthAll_eq_sum, alone, ← h.sum, List.map_map]
  rfl

/-- LIMIT and OFFSET are worth their parameters, LIMIT first, if these are not in both. -/
theorem CountsAll.either {limit offset : Option Expr}
    (h : LacksAll among (limit.toList.flatMap Expr.params) ∨
      LacksAll among (offset.toList.flatMap Expr.params))
    (hlimit : CountsAll among limit.toList) (hoffset : CountsAll among offset.toList) :
    Worth.either (Expr.worthOption (.countAmong among) limit)
        (Expr.worthOption (.countAmong among) offset) =
      keysAmong among (limit.toList.flatMap Expr.params) +
        keysAmong among (offset.toList.flatMap Expr.params) := by
  rw [hlimit.option, hoffset.option]
  exact if_pos (h.imp LacksAll.keysAmong_eq LacksAll.keysAmong_eq)

/-- A query of which each part is worth its parameters is worth its parameters. -/
theorem Query.worth_eq_keysAmong {q : Query} (ordered : q.JoinsOrdered)
    (inOrder : q.SourceInOrder among ∧ q.OneBound among) (hparts : CountsAll among q.parts)
    (hqueries : ∀ q' ∈ q.queries, q'.worth (.countAmong among) = keysAmong among q'.params) :
    q.worth (.countAmong among) = keysAmong among q.params := by
  cases q with
  | select s =>
    obtain ⟨distinct, distinctOn, columns, source, condition, groupBy, having, orderBy, limit,
      offset⟩ := s
    obtain ⟨joins, bound⟩ := inOrder
    simp only [CountsAll, parts, List.forall_mem_append] at hparts
    obtain ⟨⟨⟨⟨⟨⟨⟨⟨hon, hcolumns⟩, hsource⟩, hcondition⟩, hgroup⟩, hhaving⟩, horder⟩, hlimit⟩,
      hoffset⟩ := hparts
    have from_eq : FromClause.worthOption (.countAmong among) source =
        keysAmong among (source.toList.flatMap
          fun f => f.queries.flatMap params ++ f.parts.flatMap Expr.params) := by
      cases source with
      | none => rfl
      | some f =>
        have here := (FromClause.counts hsource hqueries).worth_eq (ordered f rfl) (joins f rfl)
        rw [Option.toList_some, List.flatMap_singleton, ← here]
        cases f
        rfl
    rw [worth, Select.worth, params_select, CountsAll.option hon, CountsAll.columns hcolumns,
      from_eq, CountsAll.option hcondition, CountsAll.list hgroup, CountsAll.option hhaving,
      CountsAll.order horder, CountsAll.either bound hlimit hoffset]
    simp only [keysAmong_append, add_assoc]
  | compound c =>
    obtain ⟨op, branches, orderBy, limit, offset⟩ := c
    simp only [CountsAll, parts, List.forall_mem_append] at hparts
    obtain ⟨⟨horder, hlimit⟩, hoffset⟩ := hparts
    have branches_eq : Query.worthAll (.countAmong among) branches =
        keysAmong among (branches.flatMap params) := by
      rw [Query.worthAll_eq_sum, keysAmong_flatMap]
      exact congrArg List.sum (List.map_congr_left hqueries)
    rw [worth, Compound.worth, params_compound, branches_eq, CountsAll.order horder,
      CountsAll.either inOrder.2 hlimit hoffset]
    simp only [keysAmong_append, add_assoc]

/-! ## Queries in trees -/

theorem sublist_flatMap_of_mem {α β : Type} {f : α → List β} {l : List α} {a : α} (h : a ∈ l) :
    (f a).Sublist (l.flatMap f) := by
  rw [List.flatMap_def]
  exact List.sublist_flatten_of_mem (List.mem_map_of_mem h)

theorem Expr.params_sublist_of_mem_parts {e x : Expr} (h : x ∈ e.parts) :
    x.params.Sublist e.params := by
  rw [e.params_eq]
  exact (sublist_flatMap_of_mem h).trans
    ((List.sublist_append_left ..).trans (List.sublist_append_right ..))

theorem Expr.params_sublist_of_mem_queries {e : Expr} {q : Query} (h : q ∈ e.queries) :
    q.params.Sublist e.params := by
  rw [e.params_eq]
  exact (sublist_flatMap_of_mem h).trans
    ((List.sublist_append_right ..).trans (List.sublist_append_right ..))

theorem Query.params_sublist_of_mem_parts {q : Query} {x : Expr} (h : x ∈ q.parts) :
    x.params.Sublist q.params := by
  rw [q.params_eq]
  rw [← List.take_append_drop q.lead q.parts, List.mem_append] at h
  rcases h with front | behind
  · exact (sublist_flatMap_of_mem front).trans
      ((List.sublist_append_left ..).trans (List.sublist_append_left ..))
  · exact (sublist_flatMap_of_mem behind).trans (List.sublist_append_right ..)

theorem Query.params_sublist_of_mem_queries {q q' : Query} (h : q' ∈ q.queries) :
    q'.params.Sublist q.params := by
  rw [q.params_eq]
  exact (sublist_flatMap_of_mem h).trans
    ((List.sublist_append_right ..).trans (List.sublist_append_left ..))

/-- The parameters of every query in a tree stand there in their order. -/
theorem everywhere_sublist {Q : Query → Prop} {ps : List ParamRef} :
    (∀ e : Expr, e.params.Sublist ps → e.Everywhere (fun _ => True) Q →
      e.Everywhere (fun _ => True) fun q => Q q ∧ q.params.Sublist ps) ∧
    ∀ q : Query, q.params.Sublist ps → q.Everywhere (fun _ => True) Q →
      q.Everywhere (fun _ => True) fun q => Q q ∧ q.params.Sublist ps := by
  refine tree_induction (fun e hes hqs below h => ?_) fun q hes hqs below h => ?_
  · exact ⟨trivial,
      fun x hx => hes x hx ((Expr.params_sublist_of_mem_parts hx).trans below) (h.parts x hx),
      fun q hq => hqs q hq ((Expr.params_sublist_of_mem_queries hq).trans below) (h.queries q hq)⟩
  · exact ⟨⟨h.here, below⟩,
      fun x hx => hes x hx ((Query.params_sublist_of_mem_parts hx).trans below) (h.parts x hx),
      fun q' hq' =>
        hqs q' hq' ((Query.params_sublist_of_mem_queries hq').trans below) (h.queries q' hq')⟩

/-- LIMIT stands in front of OFFSET. -/
theorem Query.boundParams_sublist (q : Query) :
    (q.boundParams.1 ++ q.boundParams.2).Sublist q.params := by
  cases q with
  | select s =>
    rw [params_select, boundParams, List.append_assoc _ (s.limit.toList.flatMap _)]
    exact List.sublist_append_right ..
  | compound c =>
    rw [params_compound, boundParams, List.append_assoc _ (c.limit.toList.flatMap _)]
    exact List.sublist_append_right ..

/-! ## Whole trees -/

/-- Where certain parameters are visited in the order of the text, a tree is worth them in the order
of the visits. -/
theorem worth_of_visitsInOrder :
    (∀ e : Expr, e.Ordered →
        e.Everywhere (fun _ => True) (fun q => q.SourceInOrder among ∧ q.OneBound among) →
        e.worth (.countAmong among) = keysAmong among e.params) ∧
      ∀ q : Query, q.Ordered →
        q.Everywhere (fun _ => True) (fun q => q.SourceInOrder among ∧ q.OneBound among) →
        q.worth (.countAmong among) = keysAmong among q.params := by
  refine tree_induction (fun e hes hqs ordered inOrder => ?_) fun q hes hqs ordered inOrder => ?_
  · exact Expr.worth_eq_keysAmong
      (fun x hx => hes x hx (ordered.parts x hx) (inOrder.parts x hx))
      fun q hq => hqs q hq (ordered.queries q hq) (inOrder.queries q hq)
  · exact Query.worth_eq_keysAmong ordered.here inOrder.here
      (fun x hx => hes x hx (ordered.parts x hx) (inOrder.parts x hx))
      fun q' hq' => hqs q' hq' (ordered.queries q' hq') (inOrder.queries q' hq')

/-- The rows of an INSERT are worth the parameters in them. -/
theorem InsertSource.worth_eq_keysAmong {i : InsertSource} (hparts : CountsAll among i.parts)
    (hqueries : ∀ q ∈ i.queries, q.worth (.countAmong among) = keysAmong among q.params) :
    i.worth (.countAmong among) =
      keysAmong among (i.parts.flatMap Expr.params ++ i.queries.flatMap Query.params) := by
  cases i with
  | values rows =>
    rw [worth, Expr.sum_worthAll]
    exact (CountsAll.list hparts).trans (congrArg _ (List.append_nil _).symm)
  | query q =>
    exact (hqueries q (List.mem_singleton_self q)).trans
      (congrArg _ (List.flatMap_singleton ..).symm)
  | defaultValues => rfl

/-- New values are worth their parameters. -/
theorem CountsAll.assignments {as : List Assignment} (h : CountsAll among (as.map (·.value))) :
    (as.map fun a => (Weights.countAmong among).assigned a.column +
      a.value.worth (.countAmong among)).sum =
        keysAmong among ((as.map (·.value)).flatMap Expr.params) := by
  rw [← h.sum, List.map_map]
  exact congrArg List.sum (List.map_congr_left fun a _ => zero_add _)

namespace Body

variable {b : Body}

theorem visited_eq (b : Body) : b.exprs.filterMap Expr.param? =
    b.parts.flatMap Expr.params ++ b.queries.flatMap Query.params :=
  List.append_cancel_right b.params_eq

/-- A statement that is taken apart is worth certain parameters in the order of the visits, if the
tree tells that this is the order of the text. -/
theorem worth_of_visitsInOrder (taken : ∀ parts, b ≠ .verbatim parts) (ordered : b.Ordered)
    (inOrder : b.EveryQuery fun q => q.SourceInOrder among ∧ q.OneBound among) :
    b.worth (.countAmong among) = keysAmong among (b.exprs.filterMap Expr.param?) := by
  have hparts : CountsAll among b.parts := fun e he =>
    BoundSql.worth_of_visitsInOrder.1 e (ordered.1 e he) (inOrder.1 e he)
  have hqueries : ∀ q ∈ b.queries, q.worth (.countAmong among) = keysAmong among q.params :=
    fun q hq => BoundSql.worth_of_visitsInOrder.2 q (ordered.2 q hq) (inOrder.2 q hq)
  rw [visited_eq]
  cases b with
  | select | compound =>
    exact (hqueries _ (List.mem_singleton_self _)).trans
      (congrArg _ (List.flatMap_singleton ..).symm)
  | insert i =>
    have columns : (Weights.countAmong among).columns i.columns = 0 :=
      Weights.names_countAmong among i.columns
    rw [worth, Weights.names_countAmong, columns, zero_add, zero_add]
    exact InsertSource.worth_eq_keysAmong hparts hqueries
  | update u =>
    simp only [CountsAll, parts, List.forall_mem_append] at hparts
    rw [worth, Weights.names_countAmong, zero_add, CountsAll.assignments hparts.1,
      CountsAll.option hparts.2]
    simp [parts, queries]
  | delete d =>
    rw [worth, Weights.names_countAmong, zero_add, CountsAll.option hparts]
    simp [parts, queries]
  | transaction t =>
    rw [worth, Transaction.worth, Weights.nameOption_countAmong]
    simp [parts, queries]
  | verbatim parts => exact absurd rfl (taken parts)

/-- Of a statement that is taken apart, all parameters are visited. -/
theorem visitedKeys_eq (taken : ∀ parts, b ≠ .verbatim parts) :
    b.visitedKeys = b.params.map (·.key) := by
  have none : b.fragments = [] := by
    cases b with
    | verbatim parts => exact absurd rfl (taken parts)
    | _ => rfl
  rw [visitedKeys, visited_eq, params_eq, none, List.filterMap_nil, List.append_nil]

/-- The parameters of every query are visited in their order. -/
theorem EveryQuery.sublist {Q : Query → Prop} (h : b.EveryQuery Q) :
    b.EveryQuery fun q => Q q ∧ q.params.Sublist (b.exprs.filterMap Expr.param?) := by
  rw [visited_eq]
  refine ⟨fun e he => everywhere_sublist.1 e ?_ (h.1 e he),
    fun q hq => everywhere_sublist.2 q ?_ (h.2 q hq)⟩
  · exact (sublist_flatMap_of_mem he).trans (List.sublist_append_left ..)
  · exact (sublist_flatMap_of_mem hq).trans (List.sublist_append_right ..)

end Body

end

end BoundSql
