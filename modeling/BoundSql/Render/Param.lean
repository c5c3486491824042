import BoundSql.Error
import BoundSql.Param.Bindings
import BoundSql.Render.Name
import BoundSql.Render.Phrase
import BoundSql.Settings

/-!
# Writing parameters

A parameter is written as its value, or as a placeholder in one of several notations. `Render`
computations fail or yield what is written, and record the names of the parameters in the order in
which they are written, also up to a failure.
-/

namespace BoundSql

/-- What the text of a statement depends on beside its tree. -/
structure RenderContext where
  dialect : Dialect
  settings : RenderSettings
  params : ParamTable
  values : Bindings

/-- A computation that writes SQL and records the names of the parameters written. -/
abbrev Render (α : Type) := ExceptT SqlError (StateM (List String)) α

namespace Render

/-- Records the name of a parameter. -/
def record (name : String) : Render Unit := modify (· ++ [name])

/-- The names recorded so far. -/
def recorded : Render (List String) := get

/-- The answer of a computation, and the names it records. -/
def start {α : Type} (c : Render α) : Except SqlError α × List String := c.run.run []

end Render

/-- The different names, in order of first appearance. -/
def distinctNames : List String → List String
  | [] => []
  | name :: names => name :: (distinctNames names).filter (· != name)

/-- The number, counted from one, of a parameter among the different ones written so far. -/
def ordinalOf (name : String) (used : List String) : Nat :=
  let seen := distinctNames used
  match seen.findIdx? (· == name) with
  | some n => n + 1
  | none => seen.length + 1

namespace RenderContext

/-- The rule for delimiting names. -/
def quoting (r : RenderContext) : QuotingRule :=
  { caseSensitive := r.settings.caseSensitive, always := r.settings.forceQuotes }

/-- A single name. -/
def name (r : RenderContext) (text : String) : Mark := .text (r.dialect.writeName r.quoting text)

/-- Names with points between them. -/
def dotted (r : RenderContext) (parts : List String) : Phrase :=
  Phrase.sepBy [.text "."] (parts.map fun p => [r.name p])

/-- A name with its qualifiers. -/
def qualified (r : RenderContext) (i : Identifier) : Phrase := r.dotted i.parts

/-- The error of a construct that the dialect does not have. -/
def unsupported {α : Type} (r : RenderContext) (what : String) : Except SqlError α :=
  .error (.render (.unsupported what r.dialect))

/-- Whether NULL may be bound to the parameter. -/
def nullok (r : RenderContext) (key : ParamKey) : Bool :=
  ((r.params.get? key).map (·.nullok)).getD false

/-- Why the value bound to a parameter cannot be written in place of it. -/
def objection? (r : RenderContext) (key : ParamKey) (value : Value) : Option BindReason :=
  if value.isNull && !r.nullok key then some .nullForbidden
  else
    match r.params.get? key with
    | some spec =>
      if spec.valueType.accepts value then value.notFinite?.map .noLiteral
      else some (.wrongType spec.valueType value.type)
    | none => value.notFinite?.map .noLiteral

/-- The value of a parameter: the one bound to it, else its default, else NULL if that may be
bound. -/
def resolve (r : RenderContext) (p : ParamRef) : Except SqlError Value :=
  match r.values.get? p.key.display with
  | some value =>
    match r.objection? p.key value with
    | some reason => .error (.bind p.key.display reason)
    | none => .ok value
  | none =>
    match p.default with
    | some l => .ok (.ofLiteral l)
    | none => if r.nullok p.key then .ok .null else .error (.bind p.key.display .unbound)

/-- The text between double quotes, the quotes inside it doubled. -/
def quoteAttribute (text : String) : String := String.ofList (Dialect.delimited '"' text.toList)

/-- The notation `##name::type::NULL`. -/
def shortText (r : RenderContext) (key : ParamKey) : String :=
  let typeName := (r.params.get? key).bind (·.typeName)
  "##" ++ key.display ++
    (match typeName with | some t => "::" ++ t | none => if r.nullok key then "::" else "") ++
    (if r.nullok key then "::NULL" else "")

/-- The notation as a comment. -/
def longText (r : RenderContext) (key : ParamKey) : String :=
  let spec := r.params.get? key
  "## /* name:" ++ quoteAttribute key.display ++
    (match spec.bind (·.typeName) with | some t => " type:" ++ t | none => "") ++
    (match spec.bind (·.descr) with | some d => " descr:" ++ quoteAttribute d | none => "") ++
    (if r.nullok key then " nullok:true" else "") ++ " */"

/-- The text of a parameter, the names of those written before being given. -/
def paramText (r : RenderContext) (p : ParamRef) (used : List String) : Except SqlError String :=
  if p.nullBound then .ok "NULL"
  else
    match r.settings.style with
    | .inline => (r.resolve p).map (·.sql r.dialect r.settings.gmt)
    | .short => .ok (r.shortText p.key)
    | .long => .ok (r.longText p.key)
    | .colon => .ok (":" ++ p.key.display)
    | .dollar => .ok s!"${ordinalOf p.key.display used}"
    | .qmark => .ok s!"?{ordinalOf p.key.display used}"
    | .uqmark => .ok "?"

/-- Writes a parameter. -/
def param (r : RenderContext) (p : ParamRef) : Render Phrase := do
  let text ← r.paramText p (← Render.recorded)
  Render.record p.key.display
  return [.text text]

end RenderContext

end BoundSql
