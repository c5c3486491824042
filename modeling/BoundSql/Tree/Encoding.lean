import BoundSql.Json.Value
import BoundSql.Tree.Statement

/-!
# Statements as JSON

The canonical JSON value of a statement. The members of an object stand in a fixed order, and
clauses that are missing are left out, so that equal statements have equal texts.
-/

namespace BoundSql

namespace Json

/-- A text that may be missing. -/
def optionText : Option String → Json
  | none => null
  | some text => string text

/-- Names in a row. -/
def texts (names : List String) : Json := array (names.map string)

/-- A member with a text, unless the text is missing. -/
def textMember (key : String) : Option String → List (String × Json)
  | none => []
  | some text => [(key, string text)]

/-- A value whose text is a name of SQL. -/
def sqlName (text : String) : Json := object [("value", string text), ("sqlident", bool true)]

end Json

/-- A constant in its SQL spelling; NULL is `null`. -/
def Literal.toJson : Literal → Json
  | .null => .null
  | other => .string (other.sql .standard)

/-- A place of a parameter with what is declared about it. -/
def ParamRef.toJson (params : ParamTable) (p : ParamRef) : Json :=
  let spec := params.get? p.key
  .object
    [ ("value", match p.default with | none => .null | some l => l.toJson),
      ("param_spec", .object
        [ ("name", .string p.key.display),
          ("descr", .optionText (spec.bind (·.descr))),
          ("type", .optionText (spec.bind (·.typeName))),
          ("is_param", .bool true),
          ("nullok", .bool ((spec.map (·.nullok)).getD false)) ]) ]

/-- A value with the type it is cast to. The type joins the members of the value, unless that is a
cast itself. -/
def Json.withCast (isCast : Bool) (value : Json) (type : DataType) : Json :=
  match isCast, value with
  | false, .object members => .object (members ++ [("cast", .string type.sql)])
  | _, value => .object [("expr", value), ("cast", .string type.sql)]

/-- Whether the expression is a cast. -/
def Expr.isCast : Expr → Bool
  | .cast _ _ => true
  | _ => false

mutual

/-- An expression. -/
def Expr.toJson (params : ParamTable) : Expr → Json
  | .literal l => .object [("value", l.toJson)]
  | .name i => .sqlName i.dotted
  | .wildcard none => .sqlName "*"
  | .wildcard (some table) => .sqlName (table ++ ".*")
  | .param p => p.toJson params
  | .call function distinct args =>
    .object [("func", .object
      ([("function_name", .string function), ("function_args", .array (Expr.allToJson params args))] ++
        if distinct then [("distinct", .bool true)] else []))]
  | .operation op operands =>
    .object [("operation", .object
      (("operator", .string op.sql) :: Expr.operandsToJson params 0 operands))]
  | .subquery q => .object [("select", q.toJson params)]
  | .cases base arms otherwise =>
    .object [("case", .object
      [ ("base_expr", Expr.optionToJson params base),
        ("body", .array (Expr.armsToJson params arms)),
        ("else_expr", Expr.optionToJson params otherwise) ])]
  | .cast e type => .withCast e.isCast (e.toJson params) type

/-- An expression that may be missing. -/
def Expr.optionToJson (params : ParamTable) : Option Expr → Json
  | none => .null
  | some e => e.toJson params

/-- The member for a clause, unless it is missing. -/
def Expr.clauseToJson (params : ParamTable) (key : String) : Option Expr → List (String × Json)
  | none => []
  | some e => [(key, e.toJson params)]

/-- Expressions in a row. -/
def Expr.allToJson (params : ParamTable) : List Expr → List Json
  | [] => []
  | e :: es => e.toJson params :: Expr.allToJson params es

/-- Operands as members, numbered from `n`. -/
def Expr.operandsToJson (params : ParamTable) (n : Nat) : List Expr → List (String × Json)
  | [] => []
  | e :: es => (s!"operand{n}", e.toJson params) :: Expr.operandsToJson params (n + 1) es

/-- Conditions and results. -/
def Expr.armsToJson (params : ParamTable) : List (Expr × Expr) → List Json
  | [] => []
  | (w, t) :: arms =>
    .object [("when", w.toJson params), ("then", t.toJson params)] :: Expr.armsToJson params arms

/-- The member for GROUP BY, unless there is none. -/
def Expr.groupByToJson (params : ParamTable) : List Expr → List (String × Json)
  | [] => []
  | e :: es => [("group_by", .array (e.toJson params :: Expr.allToJson params es))]

/-- A query. -/
def Query.toJson (params : ParamTable) : Query → Json
  | .select s => s.toJson params
  | .compound c => c.toJson params

/-- A SELECT. -/
def Select.toJson (params : ParamTable) : Select → Json
  | ⟨distinct, distinctOn, columns, source, condition, groupBy, having, orderBy, limit, offset⟩ =>
    .object
      ([("distinct", .bool distinct)] ++
        Expr.clauseToJson params "distinct_on" distinctOn ++
        [("fields", .array (Column.allToJson params columns))] ++
        FromClause.clauseToJson params source ++
        Expr.clauseToJson params "where" condition ++
        Expr.groupByToJson params groupBy ++
        Expr.clauseToJson params "having" having ++
        OrderItem.clauseToJson params orderBy ++
        Expr.clauseToJson params "limit" limit ++
        Expr.clauseToJson params "offset" offset)

/-- A compound. -/
def Compound.toJson (params : ParamTable) : Compound → Json
  | ⟨op, branches, orderBy, limit, offset⟩ =>
    .object
      ([("compound_type", .string op.name), ("select", .array (Query.allToJson params branches))] ++
        OrderItem.clauseToJson params orderBy ++
        Expr.clauseToJson params "limit" limit ++
        Expr.clauseToJson params "offset" offset)

/-- Queries in a row. -/
def Query.allToJson (params : ParamTable) : List Query → List Json
  | [] => []
  | q :: qs => q.toJson params :: Query.allToJson params qs

/-- Result columns. -/
def Column.allToJson (params : ParamTable) : List Column → List Json
  | [] => []
  | ⟨e, label⟩ :: cs =>
    .object (("expr", e.toJson params) :: Json.textMember "alias" label) ::
      Column.allToJson params cs

/-- Sort keys. -/
def OrderItem.allToJson (params : ParamTable) : List OrderItem → List Json
  | [] => []
  | ⟨e, order, collation⟩ :: os =>
    .object ([("expr", e.toJson params), ("sort", .string order.sql)] ++
        Json.textMember "collation" collation) ::
      OrderItem.allToJson params os

/-- The member for ORDER BY, unless there is none. -/
def OrderItem.clauseToJson (params : ParamTable) : List OrderItem → List (String × Json)
  | [] => []
  | ⟨e, order, collation⟩ :: os =>
    [("order_by", .array
      (.object ([("expr", e.toJson params), ("sort", .string order.sql)] ++
          Json.textMember "collation" collation) ::
        OrderItem.allToJson params os))]

/-- A FROM. -/
def FromClause.toJson (params : ParamTable) : FromClause → Json
  | ⟨targets, []⟩ => .object [("targets", .array (Target.allToJson params targets))]
  | ⟨targets, j :: js⟩ =>
    .object
      [ ("targets", .array (Target.allToJson params targets)),
        ("joins", .array (Join.allToJson params (j :: js))) ]

/-- The member for FROM, unless there is none. -/
def FromClause.clauseToJson (params : ParamTable) : Option FromClause → List (String × Json)
  | none => []
  | some f => [("from", f.toJson params)]

/-- Targets of FROM. -/
def Target.allToJson (params : ParamTable) : List Target → List Json
  | [] => []
  | ⟨.table i, label⟩ :: ts =>
    .object (("table_name", .string i.dotted) :: Json.textMember "as" label) ::
      Target.allToJson params ts
  | ⟨.subquery q, label⟩ :: ts =>
    .object (("select", q.toJson params) :: Json.textMember "as" label) ::
      Target.allToJson params ts

/-- Joins. -/
def Join.allToJson (params : ParamTable) : List Join → List Json
  | [] => []
  | ⟨kind, position, .none⟩ :: js =>
    .object [("join_type", .string kind.name), ("join_pos", .string (toString position))] ::
      Join.allToJson params js
  | ⟨kind, position, .predicate e⟩ :: js =>
    .object
      [ ("join_type", .string kind.name), ("join_pos", .string (toString position)),
        ("on_cond", e.toJson params) ] ::
      Join.allToJson params js
  | ⟨kind, position, .columns names⟩ :: js =>
    .object
      [ ("join_type", .string kind.name), ("join_pos", .string (toString position)),
        ("using", .texts names) ] ::
      Join.allToJson params js

end

/-- The member for the rows of an INSERT. -/
def InsertSource.toJson (params : ParamTable) : InsertSource → List (String × Json)
  | .values rows => [("values", .array (rows.map fun row => .array (row.map (·.toJson params))))]
  | .query q => [("select", q.toJson params)]
  | .defaultValues => []

/-- A command about transactions. -/
def Transaction.toJson (t : Transaction) : Json :=
  .object
    ([("trans_type", .string t.kind.name)] ++
      Json.textMember "trans_mode" (t.mode.map (·.sql)) ++
      Json.textMember "isolation_level" (t.isolation.map (·.sql)) ++
      Json.textMember "trans_name" t.name)

/-- A piece of a statement that is kept as text. -/
def Fragment.toJson (params : ParamTable) : Fragment → Json
  | .text t => .object [("value", .string t)]
  | .param p => p.toJson params

/-- The tree of a statement. -/
def Body.toJson (params : ParamTable) : Body → Json
  | .select s => s.toJson params
  | .compound c => c.toJson params
  | .insert i =>
    .object
      ([("table", .string i.table.dotted), ("fields", .texts i.columns)] ++
        i.source.toJson params ++ Json.textMember "on_conflict" i.onConflict)
  | .update u =>
    .object
      ([("table", .string u.table.dotted)] ++ Json.textMember "on_conflict" u.onConflict ++
        [ ("fields", .texts (u.assignments.map (·.column))),
          ("expressions", .array (u.assignments.map (·.value.toJson params))),
          ("condition", Expr.optionToJson params u.condition) ])
  | .delete d =>
    .object [("table", .string d.table.dotted), ("condition", Expr.optionToJson params d.condition)]
  | .transaction t => t.toJson
  | .verbatim parts => .object [("expressions", .array (parts.map (·.toJson params)))]

namespace Statement

/-- A statement: its text, its type and its tree. -/
def toJson (s : Statement) : Json :=
  .object
    [ ("sql", .string s.sql), ("stmt_type", .string s.body.typeName),
      ("contents", s.body.toJson s.params) ]

/-- The canonical text of a statement. -/
def serialize (s : Statement) : String := s.toJson.toText

/-- The statements of a script; `null` stands for none. -/
def allToJson (statements : List Statement) : Json :=
  .object [("statements", if statements.isEmpty then .null else .array (statements.map toJson))]

/-- The canonical text of the statements of a script. -/
def serializeAll (statements : List Statement) : String := (allToJson statements).toText

end Statement

end BoundSql
