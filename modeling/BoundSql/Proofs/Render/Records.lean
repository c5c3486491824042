import BoundSql.Proofs.Render.Failure
import BoundSql.Proofs.Tree.Hidden

/-!
# What writing records

Writing any tree, whatever targets its joins name, either fails for an error of a place in it or
records the parameters of the tree that are not hidden: `RenderContext.records_body`.
`Records E ps c` says this of a computation, `E` being the errors and `ps` the parameters. There is
a rule for each way in which computations are put together, and from these one lemma for each
construct of a tree.
-/

namespace BoundSql

namespace Render

variable {α β : Type} {E : SqlError → Prop} {ps more : List ParamRef} {c : Render α}

/-- The computation fails with one of the errors, or records the names of the parameters in some
order. -/
structure Records (E : SqlError → Prop) (ps : List ParamRef) (c : Render α) : Prop where
  fails : ∀ used used' e, c.run.run used = (.error e, used') → E e
  gives : ∀ used used' a, Gives c used a used' →
    used'.Perm (used ++ ps.map (·.key.display))

theorem records_pure (a : α) : Records E [] (pure a) := by
  refine ⟨?_, fun used used' b given => ?_⟩
  · rintro used used' e ⟨⟩
  · rw [(gives_pure.1 given).2, List.map_nil, List.append_nil]

theorem records_lift {c : Except SqlError α} (h : ∀ e, c = .error e → E e) :
    Records E [] (liftM c : Render α) := by
  refine ⟨fun used used' e failed => ?_, fun used used' b given => ?_⟩
  · cases c with
    | ok a => cases failed
    | error e' =>
      cases failed
      exact h e rfl
  · rw [(gives_lift.1 given).2, List.map_nil, List.append_nil]

/-- One computation behind another. -/
theorem Records.bind {f : α → Render β} (hc : Records E ps c) (hf : ∀ a, Records E more (f a)) :
    Records E (ps ++ more) (c >>= f) := by
  refine ⟨fun used used' e failed => ?_, fun used used' b given => ?_⟩
  · rw [run_bind] at failed
    cases first : c.run.run used with
    | mk answer behind =>
      rw [first] at failed
      cases answer with
      | error e' =>
        cases failed
        exact hc.fails used used' e first
      | ok a => exact (hf a).fails behind used' e failed
  · obtain ⟨a, behind, first, second⟩ := gives_bind.1 given
    refine ((hf a).gives behind used' b second).trans ?_
    rw [List.map_append, ← List.append_assoc]
    exact (hc.gives used behind a first).append_right _

/-- The same parameters in another order. -/
theorem Records.perm (h : Records E ps c) (same : ps.Perm more) : Records E more c :=
  ⟨h.fails, fun used used' a given =>
    (h.gives used used' a given).trans ((same.map _).append_left used)⟩

theorem Records.congr (h : Records E ps c) (same : ps = more) : Records E more c :=
  h.perm (.of_eq same)

/-- What is made of the answer is of no account. -/
theorem records_map {f : α → β} : Records E ps (f <$> c) ↔ Records E ps c := by
  have failed (used used' : List String) (e : SqlError) :
      (f <$> c).run.run used = (.error e, used') ↔ c.run.run used = (.error e, used') := by
    rw [← bind_pure_comp, run_bind]
    generalize c.run.run used = outcome
    obtain ⟨answer, behind⟩ := outcome
    cases answer with
    | error e' => constructor <;> rintro ⟨⟩ <;> rfl
    | ok a => constructor <;> rintro ⟨⟩
  constructor
  · intro h
    exact ⟨fun used used' e failed' => h.fails used used' e ((failed used used' e).2 failed'),
      fun used used' a given => h.gives used used' (f a) (gives_map.2 ⟨a, given, rfl⟩)⟩
  · intro h
    refine ⟨fun used used' e failed' => h.fails used used' e ((failed used used' e).1 failed'),
      fun used used' b given => ?_⟩
    obtain ⟨a, given, -⟩ := gives_map.1 given
    exact h.gives used used' a given

theorem Records.map (f : α → β) (h : Records E ps c) : Records E ps (do return f (← c)) := by
  have mapped := records_map (f := f).2 h
  rwa [← bind_pure_comp] at mapped

theorem records_throw {e : SqlError} (h : E e) : Records E ps (throw e : Render α) := by
  refine ⟨?_, fun used used' a given => absurd given gives_throw⟩
  rintro used used' e' ⟨⟩
  exact h

/-- A step that may fail but writes nothing, in front of another. -/
theorem Records.behind {c : Except SqlError α} {f : α → Render β} (hc : ∀ e, c = .error e → E e)
    (hf : ∀ a, Records E ps (f a)) : Records E ps ((liftM c : Render α) >>= f) :=
  (records_lift hc).bind hf

theorem records_mapM {ι : Type} {xs : List ι} {params : ι → List ParamRef} {f : ι → Render β}
    (h : ∀ x ∈ xs, Records E (params x) (f x)) : Records E (xs.flatMap params) (xs.mapM f) := by
  induction xs with
  | nil => exact records_pure []
  | cons x xs ih =>
    obtain ⟨head, tail⟩ := List.forall_mem_cons.1 h
    rw [List.mapM_cons, List.flatMap_cons]
    exact head.bind fun y => .map _ (ih tail)

end Render

open Phrase Render RenderContext

section Tree

variable {r : RenderContext} {E : SqlError → Prop}

/-- Writing the expression fails with one of the errors, or records what is not hidden. -/
def Expr.Recorded (r : RenderContext) (E : SqlError → Prop) (e : Expr) : Prop :=
  Records E e.shownParams (e.render r)

/-- Writing the query fails with one of the errors, or records what is not hidden. -/
def Query.Recorded (r : RenderContext) (E : SqlError → Prop) (q : Query) : Prop :=
  Records E q.shownParams (q.render r)

/-- What stands in the expression fails by itself with these errors only. -/
def Expr.FailsOnly (r : RenderContext) (E : SqlError → Prop) (e : Expr) : Prop :=
  e.Everywhere (fun x => ∀ err, x.FailsHere r err → E err) fun q => ∀ err, q.FailsHere r err → E err

/-- What stands in the query fails by itself with these errors only. -/
def Query.FailsOnly (r : RenderContext) (E : SqlError → Prop) (q : Query) : Prop :=
  q.Everywhere (fun x => ∀ err, x.FailsHere r err → E err) fun q => ∀ err, q.FailsHere r err → E err

/-- What stands in the statement fails by itself with these errors only, and so does the statement. -/
structure Body.FailsOnly (r : RenderContext) (E : SqlError → Prop) (b : Body) : Prop where
  here : ∀ err, b.FailsHere r err → E err
  parts : ∀ e ∈ b.parts, e.FailsOnly r E
  queries : ∀ q ∈ b.queries, q.FailsOnly r E

/-- A statement fails with some error or other. -/
theorem Body.failsOnly_true (r : RenderContext) (b : Body) : b.FailsOnly r fun _ => True := by
  have everywhere := everywhere_of_forall (P := fun e => ∀ err, e.FailsHere r err → True)
    (Q := fun q => ∀ err, q.FailsHere r err → True) (fun _ _ _ => trivial) fun _ _ _ => trivial
  exact ⟨fun _ _ => trivial, fun e _ => everywhere.1 e, fun q _ => everywhere.2 q⟩

/-- A parameter that is written is recorded. -/
theorem RenderContext.records_param {p : ParamRef} (h : ∀ err, r.Refuses p err → E err) :
    Records E [p] (r.param p) := by
  refine ⟨fun used used' err failed => h err ?_, fun used used' a given => ?_⟩
  · have risks := risks_param r p used
    rwa [failed] at risks
  · simp only [RenderContext.param, gives_bind, gives_recorded, gives_lift, gives_record,
      gives_pure] at given
    obtain ⟨names, _, ⟨rfl, rfl⟩, text, _, ⟨-, rfl⟩, u, _, rfl, -, rfl⟩ := given
    exact .refl _

/-! ## Expressions -/

namespace Expr

theorem records_renderOption {o : Option Expr} (h : ∀ e ∈ o.toList, e.Recorded r E) :
    Records E (o.toList.flatMap shownParams) (renderOption r o) := by
  cases o with
  | none => exact records_pure none
  | some e =>
    rw [renderOption, Option.toList_some, List.flatMap_singleton]
    exact .map some (h e (by simp))

theorem records_renderAll {es : List Expr} (h : ∀ e ∈ es, e.Recorded r E) :
    Records E (es.flatMap shownParams) (renderAll r es) := by
  rw [renderAll_eq_mapM]
  exact records_mapM h

theorem records_renderOperands {op : Operator} {es : List Expr} (h : ∀ e ∈ es, e.Recorded r E) :
    Records E (es.flatMap shownParams) (renderOperands r op es) := by
  rw [renderOperands_eq_mapM]
  exact records_mapM fun e he => .map _ (h e he)

theorem records_renderArms {arms : List (Expr × Expr)}
    (h : ∀ e ∈ arms.flatMap fun arm => [arm.1, arm.2], e.Recorded r E) :
    Records E ((arms.flatMap fun arm => [arm.1, arm.2]).flatMap shownParams)
      (renderArms r arms) := by
  induction arms with
  | nil => exact records_pure []
  | cons arm arms ih =>
    obtain ⟨condition, result⟩ := arm
    rw [List.flatMap_cons] at h ⊢
    obtain ⟨both, tail⟩ := List.forall_mem_append.1 h
    have first := both condition (by simp)
    have second := both result (by simp)
    rw [renderArms]
    exact (first.bind fun w => second.bind fun t => .map _ (ih tail)).congr (by simp)

@[simp] theorem shownParams_subquery (q : Query) : (subquery q).shownParams = q.shownParams := by
  simp [shownParams_eq (subquery q), param?, parts, queries]

/-- A query in place of an expression is written as the query. -/
theorem recorded_subquery {q : Query} : (subquery q).Recorded r E ↔ q.Recorded r E := by
  have render : Expr.render r (subquery q) = parens <$> q.render r := by
    rw [Expr.render.eq_def]
    dsimp only
    rw [bind_pure_comp]
  rw [Recorded, shownParams_subquery, render, records_map]
  rfl

/-- An operation records its operands, if it can be written with them. -/
theorem recorded_operation {op : Operator} {operands : List Expr}
    (here : ∀ err, (operation op operands).FailsHere r err → E err)
    (h : ∀ e ∈ operands, e.Recorded r E) : (operation op operands).Recorded r E := by
  have params : (operation op operands).shownParams = operands.flatMap shownParams := by
    simp [shownParams_eq (operation op operands), param?, parts, queries]
  rw [Recorded, params, Expr.render.eq_def]
  refine .behind (fun err failed => here err (.operator failed)) fun _ => ?_
  split
  case h_1 e shape | h_2 e shape | h_3 e shape | h_4 e shape =>
    rw [List.flatMap_singleton]
    exact .map _ (h e (by simp))
  case h_5 e list shape =>
    obtain ⟨operand, others⟩ := List.forall_mem_cons.1 h
    rw [List.flatMap_cons]
    refine operand.bind fun p => ?_
    dsimp only
    split
    · have query := recorded_subquery.1 (others _ (List.mem_singleton_self _))
      rw [List.flatMap_singleton, shownParams_subquery]
      exact .map _ query
    · exact .map _ (records_map.2 (records_renderAll others))
  case h_6 e low high shape =>
    simp only [List.forall_mem_cons] at h
    exact (h.1.bind fun p => h.2.1.bind fun lowest => .map _ h.2.2.1).congr (by simp)
  case h_7 first second others _ _ =>
    simp only [List.forall_mem_cons] at h
    exact (h.1.bind fun p => h.2.1.bind fun q => .map _ (records_renderOperands h.2.2)).congr
      (by simp)
  case h_8 operands _ _ chain _ _ _ _ _ _ =>
    have unwritten : op.isWritten operands.length = false := by
      rcases operands with _ | ⟨e, _ | ⟨e', es⟩⟩
      · rfl
      · cases shape : op.shape <;> simp_all [Operator.isWritten]
      · exact absurd rfl (chain e e' es)
    exact records_throw (here _ (.operands unwritten))

theorem recorded_call {function : String} {distinct : Bool} {args : List Expr}
    (h : ∀ e ∈ args, e.Recorded r E) : (call function distinct args).Recorded r E := by
  have params : (call function distinct args).shownParams = args.flatMap shownParams := by
    simp [shownParams_eq (call function distinct args), param?, parts, queries]
  rw [Recorded, params, Expr.render.eq_def]
  dsimp only
  split
  · have query := recorded_subquery.1 (h _ (List.mem_singleton_self _))
    rw [List.flatMap_singleton, shownParams_subquery]
    split
    all_goals exact .map _ query
  · exact .map _ (records_renderAll h)

/-- Writing an expression records what is not hidden, if this is so of what stands directly
below. -/
theorem recorded {e : Expr} (here : ∀ err, e.FailsHere r err → E err)
    (hparts : ∀ x ∈ e.parts, x.Recorded r E) (hqueries : ∀ q ∈ e.queries, q.Recorded r E) :
    e.Recorded r E := by
  have leaf {e : Expr} (written : Records E [] (e.render r)) (noParam : e.param? = none)
      (noParts : e.parts = []) (noQueries : e.queries = []) : e.Recorded r E :=
    written.congr (by simp [shownParams_eq e, noParam, noParts, noQueries])
  cases e with
  | literal l =>
    refine leaf ?_ rfl rfl rfl
    rw [Expr.render.eq_def]
    exact records_pure _
  | name i =>
    refine leaf ?_ rfl rfl rfl
    rw [Expr.render.eq_def]
    exact records_pure _
  | wildcard t =>
    refine leaf ?_ rfl rfl rfl
    rw [Expr.render.eq_def]
    cases t <;> exact records_pure _
  | param p =>
    rw [Recorded, Expr.render.eq_def]
    exact (records_param fun err refused => here err (.param refused)).congr
      (by simp [shownParams_eq (Expr.param p), param?, parts, queries])
  | call function distinct args => exact recorded_call hparts
  | operation op operands => exact recorded_operation here hparts
  | subquery q => exact recorded_subquery.2 (hqueries q (List.mem_singleton_self q))
  | cases base arms otherwise =>
    have params : (Expr.cases base arms otherwise).shownParams =
        base.toList.flatMap shownParams ++ ((arms.flatMap fun arm => [arm.1, arm.2]).flatMap
          shownParams ++ otherwise.toList.flatMap shownParams) := by
      simp [shownParams_eq (Expr.cases base arms otherwise), param?, parts, queries]
    simp only [parts, List.forall_mem_append] at hparts
    obtain ⟨⟨hbase, harms⟩, hotherwise⟩ := hparts
    rw [Recorded, params, Expr.render.eq_def]
    exact (records_renderOption hbase).bind fun base => (records_renderArms harms).bind
      fun arms => .map _ (records_renderOption hotherwise)
  | cast e type =>
    have params : (Expr.cast e type).shownParams = e.shownParams := by
      simp [shownParams_eq (Expr.cast e type), param?, parts, queries]
    rw [Recorded, params, Expr.render.eq_def]
    exact .map _ (hparts e (List.mem_singleton_self e))

end Expr

/-! ## Queries -/

theorem Column.records_renderAll {cs : List Column}
    (h : ∀ e ∈ cs.map (·.expr), e.Recorded r E) :
    Records E ((cs.map (·.expr)).flatMap Expr.shownParams) (Column.renderAll r cs) := by
  rw [renderAll_eq_mapM, List.flatMap_map]
  exact records_mapM fun c hc => .map _ (h c.expr (List.mem_map_of_mem hc))

theorem OrderItem.records_renderAll {os : List OrderItem}
    (h : ∀ e ∈ os.map (·.expr), e.Recorded r E) :
    Records E ((os.map (·.expr)).flatMap Expr.shownParams) (OrderItem.renderAll r os) := by
  rw [renderAll_eq_mapM, List.flatMap_map]
  exact records_mapM fun o ho => .map _ (h o.expr (List.mem_map_of_mem ho))

/-- The branches from index `n` on record what is not hidden in them. -/
theorem Query.records_renderBranches {op : SetOp} {qs : List Query} (n : Nat)
    (here : ∀ k q err, qs[k]? = some q → r.branch op (n + k) q [] = .error err → E err)
    (h : ∀ q ∈ qs, q.Recorded r E) :
    Records E (qs.flatMap shownParams) (renderBranches r op n qs) := by
  induction qs generalizing n with
  | nil => exact records_pure []
  | cons q qs ih =>
    obtain ⟨head, tail⟩ := List.forall_mem_cons.1 h
    have next := ih (n + 1) (fun k q' err at' failed => here (k + 1) q' err at'
      (by rwa [Nat.add_assoc, Nat.add_comm 1] at failed)) tail
    rw [renderBranches, List.flatMap_cons]
    refine Records.bind head fun p => .behind (fun err failed => here 0 q err rfl ?_) fun p' =>
      .map _ next
    have same := accounts_branch r op n q p
    rwa [failed] at same

theorem Target.records_part {t : Target} (h : ∀ q ∈ t.rows.query?, q.Recorded r E) :
    Records E (t.rows.query?.toList.flatMap Query.shownParams) (t.part r) := by
  obtain ⟨rows, label⟩ := t
  cases rows with
  | table i => exact records_pure _
  | subquery q => exact (Records.map _ (h q rfl)).congr (List.flatMap_singleton ..).symm

theorem Join.records_part {j : Join} (h : ∀ e ∈ j.condition.expr?, e.Recorded r E) :
    Records E (j.condition.expr?.toList.flatMap Expr.shownParams) (j.part r).condition := by
  obtain ⟨kind, position, condition⟩ := j
  cases condition with
  | none | columns => exact records_pure _
  | predicate e => exact (Records.map _ (h e rfl)).congr (List.flatMap_singleton ..).symm

namespace FromClause

variable {f : FromClause}

/-- The join that is written at a target is the one that is shown there. -/
theorem take_joinsAt (f : FromClause) (n : Nat) :
    (f.joinsAt n).take 1 = (f.joins.find? (·.position == n)).toList := by
  rw [joinsAt, ← List.head?_filter]
  cases f.joins.filter (·.position == n) <;> rfl

/-- The targets from index `n + 1` on record their queries, and the joins that are shown there. -/
theorem records_joinTargets (ts : List Target) (n : Nat)
    (htargets : ∀ t ∈ ts, Records E (t.rows.query?.toList.flatMap Query.shownParams) (t.part r))
    (hkinds : ∀ j ∈ f.joins, ∀ err, r.checkJoin j.kind = .error err → E err)
    (hjoins : ∀ j ∈ f.joins, ∀ e ∈ j.condition.expr?, e.Recorded r E) :
    Records E ((ts.filterMap (·.rows.query?)).flatMap Query.shownParams ++
        (((List.range' (n + 1) ts.length).flatMap fun k => (f.joinsAt k).take 1).filterMap
          (·.condition.expr?)).flatMap Expr.shownParams)
      (r.joinTargets (f.joins.map (Join.part r)) (n + 1) (ts.map (Target.part r))) := by
  induction ts generalizing n with
  | nil => exact records_pure []
  | cons t ts ih =>
    obtain ⟨target, targets⟩ := List.forall_mem_cons.1 htargets
    have next := ih (n + 1) targets
    have later : (n + 1 == 0) = false := rfl
    have found : (f.joins.map (Join.part r)).find? (·.position == n + 1) =
        (f.joins.find? (·.position == n + 1)).map (Join.part r) := List.find?_map
    have member (j : Join) (h : f.joins.find? (·.position == n + 1) = some j) : j ∈ f.joins :=
      List.mem_of_find?_eq_some h
    have queries : (t :: ts).filterMap (·.rows.query?) =
        t.rows.query?.toList ++ ts.filterMap (·.rows.query?) := by
      cases read : t.rows.query? <;> simp [read]
    rw [List.map_cons, joinTargets, found, queries, List.length_cons, List.range'_succ,
      List.flatMap_cons, take_joinsAt, List.flatMap_append, List.filterMap_append,
      List.flatMap_append]
    simp only [later, Bool.false_eq_true, if_false]
    -- The join is written behind its own target, but counted with the other joins.
    refine Records.perm ?_ (append_perm_swap ..)
    refine target.bind fun p => ?_
    generalize f.joins.find? (·.position == n + 1) = join at member ⊢
    cases join with
    | none =>
      simp only [Option.map_none, pure_bind]
      exact next.map _
    | some j =>
      have condition := Join.records_part (hjoins j (member j rfl))
      have shown : (some j).toList.filterMap (·.condition.expr?) = j.condition.expr?.toList := by
        cases read : j.condition.expr? <;> simp [read]
      simp only [Option.map_some, pure_bind, shown]
      exact .behind (hkinds j (member j rfl)) fun _ => condition.bind fun c => .map _ next

/-- A FROM records its queries, and the joins that are shown. -/
theorem records_render (hkinds : ∀ j ∈ f.joins, ∀ err, r.checkJoin j.kind = .error err → E err)
    (hparts : ∀ e ∈ f.parts, e.Recorded r E) (hqueries : ∀ q ∈ f.queries, q.Recorded r E) :
    Records E (f.queries.flatMap Query.shownParams ++ f.unhidden.parts.flatMap Expr.shownParams)
      (f.render r) := by
  have rows (t : Target) (ht : t ∈ f.targets) :
      Records E (t.rows.query?.toList.flatMap Query.shownParams) (t.part r) :=
    Target.records_part fun q hq => hqueries q (List.mem_filterMap.2 ⟨t, ht, hq⟩)
  have conditions (j : Join) (hj : j ∈ f.joins) : ∀ e ∈ j.condition.expr?, e.Recorded r E :=
    fun e he => hparts e (List.mem_filterMap.2 ⟨j, hj, he⟩)
  have behind (ts : List Target) (hts : ∀ t ∈ ts, t ∈ f.targets) :=
    records_joinTargets ts 0 (fun t ht => rows t (hts t ht)) hkinds conditions
  obtain ⟨targets, joins⟩ := f
  rw [render.eq_def]
  dsimp only
  rw [Target.parts_eq_map, Join.parts_eq_map]
  cases targets with
  | nil => exact records_pure _
  | cons t ts =>
    rw [List.map_cons, joinTargets]
    simp only [BEq.rfl, if_true, pure_bind]
    have first := rows t List.mem_cons_self
    have others := behind ts fun t' => List.mem_cons_of_mem t
    refine (first.bind fun p => .map _ others).congr ?_
    cases read : t.rows.query? <;> simp [queries, unhidden, parts, shown, read]

theorem records_renderOption {o : Option FromClause}
    (hkinds : ∀ f ∈ o, ∀ j ∈ f.joins, ∀ err, r.checkJoin j.kind = .error err → E err)
    (hparts : ∀ e ∈ (o.map (·.parts)).getD [], e.Recorded r E)
    (hqueries : ∀ q ∈ (o.map (·.queries)).getD [], q.Recorded r E) :
    Records E (((o.map (·.queries)).getD []).flatMap Query.shownParams ++
        (((o.map (·.unhidden)).map (·.parts)).getD []).flatMap Expr.shownParams)
      (renderOption r o) := by
  cases o with
  | none => exact records_pure none
  | some f =>
    rw [renderOption.eq_def]
    exact .map some (records_render (hkinds f rfl) hparts hqueries)

end FromClause

/-- Writing a query records what is not hidden, if this is so of what stands directly below. -/
theorem Query.recorded {q : Query} (here : ∀ err, q.FailsHere r err → E err)
    (hparts : ∀ x ∈ q.parts, x.Recorded r E) (hqueries : ∀ q' ∈ q.queries, q'.Recorded r E) :
    q.Recorded r E := by
  cases q with
  | select s =>
    obtain ⟨distinct, distinctOn, columns, source, condition, groupBy, having, orderBy, limit,
      offset⟩ := s
    simp only [parts, List.forall_mem_append] at hparts
    obtain ⟨⟨⟨⟨⟨⟨⟨⟨hon, hcolumns⟩, hsource⟩, hcondition⟩, hgroup⟩, hhaving⟩, horder⟩, hlimit⟩,
      hoffset⟩ := hparts
    rw [Recorded, Query.render.eq_def]
    dsimp only
    rw [Select.render.eq_def]
    refine Records.perm (.behind (fun err failed => here err (.distinctOn failed)) fun _ =>
      (Expr.records_renderOption hon).bind fun _ =>
      (Column.records_renderAll hcolumns).bind fun _ =>
      (FromClause.records_renderOption (fun f source j member err failed =>
        here err (.join source member failed)) hsource hqueries).bind fun _ =>
      (Expr.records_renderOption hcondition).bind fun _ =>
      (Expr.records_renderAll hgroup).bind fun _ =>
      (Expr.records_renderOption hhaving).bind fun _ =>
      (OrderItem.records_renderAll horder).bind fun _ =>
      (Expr.records_renderOption hlimit).bind fun _ =>
      .map _ (Expr.records_renderOption hoffset)) ?_
    rw [shownParams_eq]
    simp only [shownParts, unhidden, parts, queries, List.flatMap_append, List.append_assoc]
    refine (List.perm_append_comm.trans (.of_eq ?_)).append_left _ |>.append_left _
    simp only [List.append_assoc]
  | compound c =>
    obtain ⟨op, branches, orderBy, limit, offset⟩ := c
    simp only [parts, List.forall_mem_append] at hparts
    obtain ⟨⟨horder, hlimit⟩, hoffset⟩ := hparts
    rw [Recorded, Query.render.eq_def]
    dsimp only
    rw [Compound.render.eq_def]
    refine Records.perm (.behind (fun err failed => here err (.setOp failed)) fun _ =>
      (records_renderBranches 0 (fun n q err at' failed => here err (.branch at'
        (by rwa [Nat.zero_add] at failed))) hqueries).bind fun _ =>
      (OrderItem.records_renderAll horder).bind fun _ =>
      (Expr.records_renderOption hlimit).bind fun _ =>
      .map _ (Expr.records_renderOption hoffset)) ?_
    rw [shownParams_eq]
    simp only [shownParts, unhidden, parts, queries, List.flatMap_append, List.append_assoc]
    refine List.perm_append_comm.trans (.of_eq ?_)
    simp only [List.append_assoc]

/-- Writing a tree fails for an error of a place in it, or records what is not hidden. -/
theorem recorded_of_failsOnly :
    (∀ e : Expr, e.FailsOnly r E → e.Recorded r E) ∧
      ∀ q : Query, q.FailsOnly r E → q.Recorded r E := by
  refine tree_induction (fun e hes hqs h => ?_) fun q hes hqs h => ?_
  · exact Expr.recorded h.here (fun x hx => hes x hx (h.parts x hx))
      fun q hq => hqs q hq (h.queries q hq)
  · exact Query.recorded h.here (fun x hx => hes x hx (h.parts x hx))
      fun q' hq' => hqs q' hq' (h.queries q' hq')

/-! ## Statements -/

namespace RenderContext

theorem records_insertSource {s : InsertSource} (hparts : ∀ e ∈ s.parts, e.Recorded r E)
    (hqueries : ∀ q ∈ s.queries, q.Recorded r E) :
    Records E (s.parts.flatMap Expr.shownParams ++ s.queries.flatMap Query.shownParams)
      (r.insertSource s) := by
  cases s with
  | values rows =>
    have row (row : List Expr) (hrow : row ∈ rows) : Records E (row.flatMap Expr.shownParams)
        (do return parens (commas (← Expr.renderAll r row))) :=
      .map _ (Expr.records_renderAll fun e he => hparts e (List.mem_flatten.2 ⟨row, hrow, he⟩))
    refine (Records.map _ (records_mapM row)).congr ?_
    rw [InsertSource.parts, InsertSource.queries, List.flatMap_nil, List.append_nil,
      ← List.flatMap_id, List.flatMap_assoc]
    rfl
  | query q =>
    refine Records.congr (hqueries q (List.mem_singleton_self q)) ?_
    simp [InsertSource.parts, InsertSource.queries]
  | defaultValues => exact records_pure _

theorem records_condition {o : Option Expr} (h : ∀ e ∈ o.toList, e.Recorded r E) :
    Records E (o.toList.flatMap Expr.shownParams) (r.condition o) := by
  cases o with
  | none => exact records_pure _
  | some e =>
    rw [Option.toList_some, List.flatMap_singleton]
    exact .map _ (h e (List.mem_singleton_self e))

theorem records_fragment {part : Fragment}
    (h : ∀ p, part = .param p → ∀ err, r.Refuses p err → E err) :
    Records E part.ref?.toList (r.fragment part) := by
  cases part with
  | text t => exact records_pure _
  | param p => exact records_param (h p rfl)

theorem records_update {u : Update} (here : ∀ err, r.updateWords u.onConflict = .error err → E err)
    (hvalues : ∀ e ∈ u.assignments.map (·.value), e.Recorded r E)
    (hcondition : ∀ e ∈ u.condition.toList, e.Recorded r E) :
    Records E (u.assignments.flatMap (·.value.shownParams) ++
      u.condition.toList.flatMap Expr.shownParams) (r.update u) := by
  have assignments : Records E (u.assignments.flatMap fun a => a.value.shownParams)
      (u.assignments.mapM r.assignment) :=
    records_mapM fun a ha => .map _ (hvalues a.value (List.mem_map.2 ⟨a, ha, rfl⟩))
  exact .behind here fun _ => assignments.bind fun _ => .map _ (records_condition hcondition)

theorem records_fragments {parts : List Fragment}
    (h : ∀ p, .param p ∈ parts → ∀ err, r.Refuses p err → E err) :
    Records E (parts.filterMap Fragment.ref?) (parts.mapM r.fragment) := by
  rw [List.filterMap_eq_flatMap_toList]
  exact records_mapM fun part member =>
    records_fragment fun p same err refused => h p (same ▸ member) err refused

/-- Writing a statement fails for an error of a place in it, or records what is not hidden. -/
theorem records_body {b : Body} (h : b.FailsOnly r E) : Records E b.shownParams (r.body b) := by
  have here := h.here
  have hparts (e : Expr) (he : e ∈ b.parts) : e.Recorded r E :=
    recorded_of_failsOnly.1 e (h.parts e he)
  have hqueries (q : Query) (hq : q ∈ b.queries) : q.Recorded r E :=
    recorded_of_failsOnly.2 q (h.queries q hq)
  cases b with
  | select s =>
    have query := hqueries (.select s) (List.mem_singleton_self _)
    rw [Query.Recorded, Query.render.eq_def] at query
    exact Records.congr query (by simp [Body.shownParams, Body.parts, Body.queries, Body.fragments])
  | compound c =>
    have query := hqueries (.compound c) (List.mem_singleton_self _)
    rw [Query.Recorded, Query.render.eq_def] at query
    exact Records.congr query (by simp [Body.shownParams, Body.parts, Body.queries, Body.fragments])
  | insert i =>
    refine (Records.map _ (records_insertSource hparts hqueries)).congr ?_
    simp [Body.shownParams, Body.parts, Body.queries, Body.fragments]
  | update u =>
    simp only [Body.parts, List.forall_mem_append] at hparts
    refine (records_update (fun err failed => here err (.update failed)) hparts.1 hparts.2).congr ?_
    simp [Body.shownParams, Body.parts, Body.queries, Body.fragments, List.flatMap_map]
  | delete d =>
    refine (Records.map _ (records_condition hparts)).congr ?_
    simp [Body.shownParams, Body.parts, Body.queries, Body.fragments]
  | transaction t => exact records_lift fun err failed => here err (.transaction failed)
  | verbatim parts =>
    have pieces : Records E (parts.filterMap Fragment.ref?) (parts.mapM r.fragment) :=
      records_fragments fun p member err refused => here err (.fragment member refused)
    refine (Records.map _ pieces).congr ?_
    simp [Body.shownParams, Body.parts, Body.queries, Body.fragments]

end RenderContext

end Tree

end BoundSql
