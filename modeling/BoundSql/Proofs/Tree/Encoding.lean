import BoundSql.Proofs.Json.ReadBack
import BoundSql.Proofs.Token.Number
import BoundSql.Proofs.Tree.Induction
import BoundSql.Tree.Encoding
import Mathlib.Data.List.Nodup

/-!
# The JSON text of every statement reads back

The encoding of a tree holds no numbers, and no object of it repeats a key: the keys of an object
are picked, in order, from a fixed list, the operands are numbered, and the type of a cast joins an
object that has none yet. So whatever the strings of a statement are, its text is JSON and stands
for exactly the encoding.
-/

namespace BoundSql

namespace Json

/-- Members whose keys are picked in order from `keys` and whose values are textual. -/
structure Fields (keys : List String) (members : List (String × Json)) : Prop where
  picked : (members.map (·.1)).Sublist keys
  all : ∀ m ∈ members, m.2.Textual

namespace Fields

variable {keys keys' : List String} {members members' : List (String × Json)}

theorem none (keys : List String) : Fields keys [] := ⟨List.nil_sublist _, by simp⟩

theorem one (key : String) {value : Json} (h : value.Textual) : Fields [key] [(key, value)] :=
  ⟨List.Sublist.refl _, by simpa using h⟩

theorem append (h : Fields keys members) (h' : Fields keys' members') :
    Fields (keys ++ keys') (members ++ members') where
  picked := by
    rw [List.map_append]
    exact h.picked.append h'.picked
  all m hm := (List.mem_append.1 hm).elim (h.all m) (h'.all m)

theorem cons (key : String) {value : Json} (hvalue : value.Textual) (h : Fields keys members) :
    Fields (key :: keys) ((key, value) :: members) :=
  (one key hvalue).append h

/-- Keys that differ make an object. -/
theorem object (h : Fields keys members) (hkeys : keys.Nodup) : (object members).Textual :=
  .object (hkeys.sublist h.picked) h.all

end Fields

theorem fields_textMember (key : String) (text : Option String) :
    Fields [key] (textMember key text) := by
  cases text with
  | none => exact .none _
  | some text => exact .one key (.string text)

theorem textual_optionText (text : Option String) : (optionText text).Textual := by
  cases text with
  | none => exact .null
  | some text => exact .string text

theorem textual_texts (names : List String) : (texts names).Textual := by
  refine .array fun item h => ?_
  obtain ⟨name, -, rfl⟩ := List.mem_map.1 h
  exact .string name

/-- The text of members with one more behind them. -/
theorem writeMembers_concat {members : List (String × Json)} (h : members ≠ []) (key : String)
    (value : Json) (rest : List Char) :
    writeMembers rest (members ++ [(key, value)]) =
      writeMembers [] members ++
        ',' :: (quoted true key.toList ++ ':' :: writeBefore rest value) := by
  induction members with
  | nil => exact absurd rfl h
  | cons m members ih =>
    cases members with
    | nil =>
      simp only [List.cons_append, List.nil_append, writeMembers]
      rw [writeBefore_eq, writeBefore_eq rest, writeBefore_eq []]
      simp
    | cons next members =>
      have ih := ih (by simp)
      simp only [List.cons_append, writeMembers] at ih ⊢
      rw [ih, writeBefore_eq, writeBefore_eq (',' :: _)]
      simp

/-- An array with one more item. -/
theorem Textual.cons {item : Json} {items : List Json} (h : item.Textual)
    (h' : (Json.array items).Textual) : (Json.array (item :: items)).Textual := by
  cases h' with
  | array all => exact .array (List.forall_mem_cons.2 ⟨h, all⟩)

theorem textual_nil : (Json.array []).Textual := .array (by simp)

theorem textual_sqlName (text : String) : (sqlName text).Textual :=
  (Fields.cons "value" (.string text) (.one "sqlident" (.bool true))).object (by decide)

end Json

open Json

theorem Literal.textual_toJson (l : Literal) : l.toJson.Textual := by
  cases l with
  | null => exact .null
  | _ => exact .string _

theorem ParamRef.textual_toJson (params : ParamTable) (p : ParamRef) :
    (p.toJson params).Textual := by
  have hspec := ((Fields.one "name" (.string p.key.display)).append
    ((Fields.one "descr" (textual_optionText ((params.get? p.key).bind (·.descr)))).append
    ((Fields.one "type" (textual_optionText ((params.get? p.key).bind (·.typeName)))).append
    ((Fields.one "is_param" (.bool true)).append
    (Fields.one "nullok" (.bool (((params.get? p.key).map (·.nullok)).getD false))))))).object
      (by decide)
  refine ((Fields.one "value" ?_).append (.one "param_spec" hspec)).object (by decide)
  cases p.default with
  | none => exact .null
  | some l => exact l.textual_toJson

/-! ## Expressions -/

/-- Equal keys of operands have equal numbers. -/
theorem operandKey_injective : Function.Injective fun n : Nat => s!"operand{n}" := by
  intro m n h
  have hdigits : (toString m).toList = (toString n).toList := by
    simpa using congrArg String.toList h
  rw [show (toString m).toList = Nat.toDigits 10 m from Nat.toList_repr,
    show (toString n).toList = Nat.toDigits 10 n from Nat.toList_repr] at hdigits
  simpa [digitsValue_toDigits] using congrArg digitsValue hdigits

theorem operandKey_ne_operator (n : Nat) : s!"operand{n}" ≠ "operator" := by
  intro h
  have htake := congrArg (fun s : String => s.toList.take 7) h
  change ("operand" ++ Nat.repr n).toList.take 7 = _ at htake
  rw [String.toList_append, List.take_append_of_le_length (by decide)] at htake
  exact absurd htake (by decide)

section

variable (params : ParamTable)

namespace Expr

theorem allToJson_eq_map (es : List Expr) : allToJson params es = es.map (·.toJson params) := by
  induction es with
  | nil => rfl
  | cons e es ih => rw [allToJson, ih, List.map_cons]

theorem armsToJson_eq_map (arms : List (Expr × Expr)) :
    armsToJson params arms =
      arms.map fun arm => .object [("when", arm.1.toJson params), ("then", arm.2.toJson params)] := by
  induction arms with
  | nil => rfl
  | cons arm arms ih => rw [armsToJson, ih, List.map_cons]

theorem keys_operandsToJson (n : Nat) (operands : List Expr) :
    (operandsToJson params n operands).map (·.1) =
      (List.range' n operands.length).map fun i => s!"operand{i}" := by
  induction operands generalizing n with
  | nil => rfl
  | cons e es ih =>
    rw [operandsToJson, List.map_cons, ih, List.length_cons, List.range'_succ, List.map_cons]

theorem values_operandsToJson (n : Nat) (operands : List Expr) :
    (operandsToJson params n operands).map (·.2) = operands.map (·.toJson params) := by
  induction operands generalizing n with
  | nil => rfl
  | cons e es ih => rw [operandsToJson, List.map_cons, ih, List.map_cons]

theorem textual_all {es : List Expr} (h : ∀ e ∈ es, (e.toJson params).Textual) :
    (Json.array (allToJson params es)).Textual := by
  rw [allToJson_eq_map]
  exact .array (by simpa using h)

theorem textual_operands (op : String) {operands : List Expr}
    (h : ∀ e ∈ operands, (e.toJson params).Textual) :
    (Json.object (("operator", .string op) :: operandsToJson params 0 operands)).Textual := by
  refine .object ?_ fun m hm => ?_
  · rw [List.map_cons, keys_operandsToJson, List.nodup_cons]
    refine ⟨fun hmem => ?_, List.Nodup.map operandKey_injective List.nodup_range'⟩
    obtain ⟨n, -, hn⟩ := List.mem_map.1 hmem
    exact operandKey_ne_operator n hn
  · rcases List.mem_cons.1 hm with rfl | hm
    · exact .string op
    · have hvalue := List.mem_map_of_mem (f := (·.2)) hm
      rw [values_operandsToJson] at hvalue
      obtain ⟨e, he, hvalue⟩ := List.mem_map.1 hvalue
      exact hvalue ▸ h e he

theorem textual_arms {arms : List (Expr × Expr)}
    (h : ∀ arm ∈ arms, (arm.1.toJson params).Textual ∧ (arm.2.toJson params).Textual) :
    (Json.array (armsToJson params arms)).Textual := by
  rw [armsToJson_eq_map]
  refine .array fun item hitem => ?_
  obtain ⟨arm, harm, rfl⟩ := List.mem_map.1 hitem
  exact ((Fields.one "when" (h arm harm).1).append (.one "then" (h arm harm).2)).object (by decide)

theorem textual_option {o : Option Expr} (h : ∀ e ∈ o.toList, (e.toJson params).Textual) :
    (optionToJson params o).Textual := by
  cases o with
  | none => exact .null
  | some e => exact h e (by simp)

end Expr

/-- Unless it is a cast, an expression is encoded as an object that has members, none of them for a
type. -/
theorem Expr.toJson_eq_object {e : Expr} (h : e.isCast = false) :
    ∃ members, e.toJson params = .object members ∧ members ≠ [] ∧ "cast" ∉ members.map (·.1) := by
  cases e with
  | cast => cases h
  | wildcard table => cases table <;> exact ⟨_, rfl, by simp, by simp⟩
  | _ => exact ⟨_, rfl, by simp, by simp⟩

/-- The type of a cast makes no key appear twice. -/
theorem Expr.textual_withCast {e : Expr} (h : (e.toJson params).Textual) (type : DataType) :
    (Json.withCast e.isCast (e.toJson params) type).Textual := by
  have hnested :=
    ((Fields.one "expr" h).append (.one "cast" (.string type.sql))).object (by decide)
  cases hcast : e.isCast with
  | true => simpa [Json.withCast] using hnested
  | false =>
    obtain ⟨members, hobject, -, hnew⟩ := e.toJson_eq_object params hcast
    rw [hobject] at h ⊢
    cases h with
    | object unique all =>
      refine .object ?_ fun m hm => ?_
      · rw [List.map_append, List.nodup_append]
        refine ⟨unique, by simp, ?_⟩
        rintro key hkey _ hcast rfl
        simp at hcast
        exact hnew (hcast ▸ hkey)
      · rcases List.mem_append.1 hm with hm | hm
        · exact all m hm
        · obtain rfl : m = _ := List.mem_singleton.1 hm
          exact .string type.sql

/-- An expression is textual if the expressions and queries directly below it are. -/
theorem Expr.textual_step (e : Expr) (parts : ∀ x ∈ e.parts, (x.toJson params).Textual)
    (queries : ∀ q ∈ e.queries, (q.toJson params).Textual) : (e.toJson params).Textual := by
  cases e with
  | literal l => exact (Fields.one "value" l.textual_toJson).object (by decide)
  | name i => exact textual_sqlName _
  | param p => exact p.textual_toJson params
  | call f distinct args =>
    have hdistinct :
        Fields ["distinct"] (if distinct then [("distinct", Json.bool true)] else []) := by
      cases distinct with
      | true => exact .one "distinct" (.bool true)
      | false => exact .none _
    exact (Fields.one "func" (((Fields.one "function_name" (.string f)).append
      ((Fields.one "function_args" (textual_all params parts)).append hdistinct)).object
        (by decide))).object (by decide)
  | operation op operands =>
    exact (Fields.one "operation" (textual_operands params op.sql parts)).object (by decide)
  | subquery q => exact (Fields.one "select" (queries q (by simp [Expr.queries]))).object (by decide)
  | cases base arms otherwise =>
    simp only [Expr.parts, List.mem_append, List.mem_flatMap] at parts
    have hbase := textual_option params fun x hx => parts x (.inl (.inl hx))
    have harms := textual_arms params fun arm harm =>
      ⟨parts arm.1 (.inl (.inr ⟨arm, harm, by simp⟩)),
        parts arm.2 (.inl (.inr ⟨arm, harm, by simp⟩))⟩
    have hotherwise := textual_option params fun x hx => parts x (.inr hx)
    exact (Fields.one "case" (((Fields.one "base_expr" hbase).append
      ((Fields.one "body" harms).append (.one "else_expr" hotherwise))).object
        (by decide))).object (by decide)
  | cast e type => exact textual_withCast params (parts e (by simp [Expr.parts])) type
  | wildcard table => cases table <;> exact textual_sqlName _

/-- The text of a cast is that of its operand up to the last brace, and the type. -/
theorem Expr.write_cast {e : Expr} (h : e.isCast = false) (type : DataType) :
    ((cast e type).toJson params).write =
      (e.toJson params).write.dropLast ++
        ',' :: (quoted true "cast".toList ++ ':' :: quoted true type.sql.toList ++ ['\x7d']) := by
  obtain ⟨members, hobject, hne, -⟩ := e.toJson_eq_object params h
  have hcast : (cast e type).toJson params = .object (members ++ [("cast", .string type.sql)]) := by
    rw [toJson, hobject, h, Json.withCast]
  rw [hcast, hobject, write_object, write_object, List.dropLast_concat, writeMembers_concat hne]
  simp [writeBefore, atom]

theorem Column.textual_all {cs : List Column}
    (h : ∀ e ∈ cs.map (·.expr), (e.toJson params).Textual) :
    (Json.array (Column.allToJson params cs)).Textual := by
  induction cs with
  | nil => exact textual_nil
  | cons c cs ih =>
    obtain ⟨e, label⟩ := c
    obtain ⟨he, hcs⟩ := List.forall_mem_cons.1 h
    exact (((Fields.one "expr" he).append (fields_textMember "alias" label)).object
      (by decide)).cons (ih hcs)

theorem OrderItem.textual_all {os : List OrderItem}
    (h : ∀ e ∈ os.map (·.expr), (e.toJson params).Textual) :
    (Json.array (OrderItem.allToJson params os)).Textual := by
  induction os with
  | nil => exact textual_nil
  | cons o os ih =>
    obtain ⟨e, order, collation⟩ := o
    obtain ⟨he, hos⟩ := List.forall_mem_cons.1 h
    exact (((Fields.cons "expr" he (.one "sort" (.string order.sql))).append
      (fields_textMember "collation" collation)).object (by decide)).cons (ih hos)

theorem OrderItem.fields_clause {os : List OrderItem}
    (h : ∀ e ∈ os.map (·.expr), (e.toJson params).Textual) :
    Fields ["order_by"] (OrderItem.clauseToJson params os) := by
  cases os with
  | nil => exact .none _
  | cons o os =>
    obtain ⟨e, order, collation⟩ := o
    exact .one "order_by" (OrderItem.textual_all params h)

theorem Query.textual_all {qs : List Query} (h : ∀ q ∈ qs, (q.toJson params).Textual) :
    (Json.array (Query.allToJson params qs)).Textual := by
  induction qs with
  | nil => exact textual_nil
  | cons q qs ih =>
    obtain ⟨hq, hqs⟩ := List.forall_mem_cons.1 h
    exact hq.cons (ih hqs)

theorem Target.textual_all {ts : List Target}
    (h : ∀ q ∈ ts.filterMap (·.rows.query?), (q.toJson params).Textual) :
    (Json.array (Target.allToJson params ts)).Textual := by
  induction ts with
  | nil => exact textual_nil
  | cons t ts ih =>
    obtain ⟨rows, label⟩ := t
    cases rows with
    | table i =>
      exact (((Fields.one "table_name" (.string i.dotted)).append
        (fields_textMember "as" label)).object (by decide)).cons (ih h)
    | subquery q =>
      obtain ⟨hq, hts⟩ := List.forall_mem_cons.1 h
      exact (((Fields.one "select" hq).append (fields_textMember "as" label)).object
        (by decide)).cons (ih hts)

theorem Join.textual_all {js : List Join}
    (h : ∀ e ∈ js.filterMap (·.condition.expr?), (e.toJson params).Textual) :
    (Json.array (Join.allToJson params js)).Textual := by
  induction js with
  | nil => exact textual_nil
  | cons j js ih =>
    obtain ⟨kind, position, condition⟩ := j
    have hplace := Fields.cons "join_type" (.string kind.name)
      (.one "join_pos" (.string (toString position)))
    cases condition with
    | none => exact (hplace.object (by decide)).cons (ih h)
    | predicate e =>
      obtain ⟨he, hjs⟩ := List.forall_mem_cons.1 h
      exact ((hplace.append (.one "on_cond" he)).object (by decide)).cons (ih hjs)
    | columns names =>
      exact ((hplace.append (.one "using" (textual_texts names))).object (by decide)).cons (ih h)

theorem FromClause.textual_toJson {f : FromClause} (parts : ∀ e ∈ f.parts, (e.toJson params).Textual)
    (queries : ∀ q ∈ f.queries, (q.toJson params).Textual) : (f.toJson params).Textual := by
  obtain ⟨targets, joins⟩ := f
  have htargets := Target.textual_all params queries
  cases joins with
  | nil => exact (Fields.one "targets" htargets).object (by decide)
  | cons j js =>
    exact ((Fields.one "targets" htargets).append
      (.one "joins" (Join.textual_all params parts))).object (by decide)

/-! ## Queries -/

theorem Expr.fields_clause (key : String) {o : Option Expr}
    (h : ∀ e ∈ o.toList, (e.toJson params).Textual) :
    Fields [key] (Expr.clauseToJson params key o) := by
  cases o with
  | none => exact .none _
  | some e => exact .one key (h e (by simp))

theorem Expr.fields_groupBy {es : List Expr} (h : ∀ e ∈ es, (e.toJson params).Textual) :
    Fields ["group_by"] (Expr.groupByToJson params es) := by
  cases es with
  | nil => exact .none _
  | cons e es => exact .one "group_by" (Expr.textual_all params h)

theorem FromClause.fields_clause {source : Option FromClause}
    (parts : ∀ e ∈ (source.map (·.parts)).getD [], (e.toJson params).Textual)
    (queries : ∀ q ∈ (source.map (·.queries)).getD [], (q.toJson params).Textual) :
    Fields ["from"] (FromClause.clauseToJson params source) := by
  cases source with
  | none => exact .none _
  | some f => exact .one "from" (f.textual_toJson params parts queries)

/-- A query is textual if the expressions and queries directly below it are. -/
theorem Query.textual_step (q : Query) (parts : ∀ x ∈ q.parts, (x.toJson params).Textual)
    (queries : ∀ q' ∈ q.queries, (q'.toJson params).Textual) : (q.toJson params).Textual := by
  cases q with
  | select s =>
    obtain ⟨distinct, distinctOn, columns, source, condition, groupBy, having, orderBy, limit,
      offset⟩ := s
    simp only [Query.parts, List.forall_mem_append] at parts
    obtain ⟨⟨⟨⟨⟨⟨⟨⟨hdistinctOn, hcolumns⟩, hsource⟩, hcondition⟩, hgroupBy⟩, hhaving⟩, horderBy⟩,
      hlimit⟩, hoffset⟩ := parts
    have hfields := (((((((((Fields.one "distinct" (.bool distinct)).append
      (Expr.fields_clause params "distinct_on" hdistinctOn)).append
      (.one "fields" (Column.textual_all params hcolumns))).append
      (FromClause.fields_clause params hsource queries)).append
      (Expr.fields_clause params "where" hcondition)).append
      (Expr.fields_groupBy params hgroupBy)).append
      (Expr.fields_clause params "having" hhaving)).append
      (OrderItem.fields_clause params horderBy)).append
      (Expr.fields_clause params "limit" hlimit)).append
      (Expr.fields_clause params "offset" hoffset)
    exact hfields.object (by decide)
  | compound c =>
    obtain ⟨op, branches, orderBy, limit, offset⟩ := c
    simp only [Query.parts, List.forall_mem_append] at parts
    obtain ⟨⟨horderBy, hlimit⟩, hoffset⟩ := parts
    have hfields := (((Fields.cons "compound_type" (.string op.name)
      (.one "select" (Query.textual_all params queries))).append
      (OrderItem.fields_clause params horderBy)).append
      (Expr.fields_clause params "limit" hlimit)).append
      (Expr.fields_clause params "offset" hoffset)
    exact hfields.object (by decide)

/-- Every expression and every query is textual. -/
theorem textual_tree :
    (∀ e : Expr, (e.toJson params).Textual) ∧ ∀ q : Query, (q.toJson params).Textual :=
  tree_induction (Expr.textual_step params) (Query.textual_step params)

theorem Expr.textual_toJson (e : Expr) : (e.toJson params).Textual := (textual_tree params).1 e

theorem Query.textual_toJson (q : Query) : (q.toJson params).Textual := (textual_tree params).2 q

/-! ## Statements -/

theorem Fragment.textual_toJson (part : Fragment) : (part.toJson params).Textual := by
  cases part with
  | text t => exact (Fields.one "value" (.string t)).object (by decide)
  | param p => exact p.textual_toJson params

theorem Json.textual_map {α : Type} (f : α → Json) (h : ∀ x, (f x).Textual) (items : List α) :
    (Json.array (items.map f)).Textual := by
  refine .array fun item hitem => ?_
  obtain ⟨x, -, rfl⟩ := List.mem_map.1 hitem
  exact h x

theorem InsertSource.fields_toJson (source : InsertSource) :
    Fields ["values", "select"] (source.toJson params) := by
  cases source with
  | values rows =>
    exact (Fields.one "values" (textual_map _ (fun row =>
      textual_map _ (Expr.textual_toJson params) row) rows)).append (.none ["select"])
  | query q => exact (Fields.none ["values"]).append (.one "select" (q.textual_toJson params))
  | defaultValues => exact .none _

theorem Transaction.textual_toJson (t : Transaction) : t.toJson.Textual :=
  ((((Fields.one "trans_type" (.string t.kind.name)).append
    (fields_textMember "trans_mode" (t.mode.map TransactionMode.sql))).append
    (fields_textMember "isolation_level" (t.isolation.map IsolationLevel.sql))).append
    (fields_textMember "trans_name" t.name)).object (by decide)

theorem Expr.textual_optionToJson (o : Option Expr) : (Expr.optionToJson params o).Textual :=
  Expr.textual_option params fun e _ => e.textual_toJson params

theorem Body.textual_toJson (b : Body) : (b.toJson params).Textual := by
  cases b with
  | select s => exact (Query.select s).textual_toJson params
  | compound c => exact (Query.compound c).textual_toJson params
  | insert i =>
    have hfields := ((Fields.cons "table" (.string i.table.dotted)
      (.one "fields" (textual_texts i.columns))).append (i.source.fields_toJson params)).append
      (fields_textMember "on_conflict" i.onConflict)
    exact hfields.object (by decide)
  | update u =>
    have hfields := ((Fields.one "table" (.string u.table.dotted)).append
      (fields_textMember "on_conflict" u.onConflict)).append
      (.cons "fields" (textual_texts (u.assignments.map (·.column)))
        (.cons "expressions"
          (textual_map _ (fun a : Assignment => a.value.textual_toJson params) u.assignments)
          (.one "condition" (Expr.textual_optionToJson params u.condition))))
    exact hfields.object (by decide)
  | delete d =>
    exact (Fields.cons "table" (.string d.table.dotted)
      (.one "condition" (Expr.textual_optionToJson params d.condition))).object (by decide)
  | transaction t => exact t.textual_toJson
  | verbatim parts =>
    exact (Fields.one "expressions" (textual_map _ (Fragment.textual_toJson params) parts)).object
      (by decide)

end

namespace Statement

theorem textual_toJson (s : Statement) : s.toJson.Textual :=
  (Fields.cons "sql" (.string s.sql) (.cons "stmt_type" (.string s.body.typeName)
    (.one "contents" (s.body.textual_toJson s.params)))).object (by decide)

end Statement

end BoundSql
