import BoundSql.Dialect
import BoundSql.Json.Value
import BoundSql.Number.Width

/-!
# Settings

How statements are read and how they are written, and how the settings are read from JSON. A
setting that is not mentioned has its default; one that does not exist is refused.
-/

namespace BoundSql

/-- How statements are read. -/
structure ParseSettings where
  dialect : Dialect := .standard
  /-- The bytes that a statement may have. -/
  maxLength : Nat := 1048576
  /-- How deep expressions and queries may nest. -/
  maxDepth : Nat := 64
  /-- Refuse a parameter that is declared with two types. -/
  strictTypes : Bool := false
  deriving DecidableEq, Repr

/-- How a parameter is written. -/
inductive ParamStyle
  /-- Its value, as a literal. -/
  | inline
  /-- `##name::type::NULL` -/
  | short
  /-- A comment with all that is declared. -/
  | long
  /-- `:name` -/
  | colon
  /-- `$1`, numbered by parameter. -/
  | dollar
  /-- `?1`, numbered by parameter. -/
  | qmark
  /-- `?` -/
  | uqmark
  deriving DecidableEq, Repr

namespace ParamStyle

/-- All styles. -/
def all : List ParamStyle := [inline, short, long, colon, dollar, qmark, uqmark]

/-- The lower case name. -/
def name : ParamStyle → String
  | inline => "inline"
  | short => "short"
  | long => "long"
  | colon => "colon"
  | dollar => "dollar"
  | qmark => "qmark"
  | uqmark => "uqmark"

/-- The style with exactly this name. -/
def ofName? (text : String) : Option ParamStyle := all.find? (·.name == text)

end ParamStyle

/-- How statements are written. -/
structure RenderSettings where
  style : ParamStyle := .inline
  /-- Write timestamps that have an offset in UTC. -/
  gmt : Bool := false
  /-- Put each clause on a line of its own. -/
  pretty : Bool := false
  /-- Delimit all names. -/
  forceQuotes : Bool := false
  /-- Delimit names with upper case characters. -/
  caseSensitive : Bool := false
  deriving DecidableEq, Repr

namespace Json

/-- The text of a string, or the key of an object whose only member is null: the two ways of writing
one of several names. -/
def choice? : Json → Option String
  | string name => some name
  | object [(name, null)] => some name
  | _ => none

/-- A truth value. -/
def flag? : Json → Option Bool
  | bool b => some b
  | _ => none

/-- A natural number of at most 64 bits. -/
def count? : Json → Option Nat
  | int n => if fitsUnsigned 64 n then some n.toNat else none
  | _ => none

/-- The settings that an object gives by their keys, all of which must be known, or an array in the
order of the keys. -/
def settings? (keys : List String) : Json → Option (List (String × Json))
  | object members => if members.all fun m => keys.contains m.1 then some members else none
  | array items => if items.length ≤ keys.length then some (keys.zip items) else none
  | _ => none

/-- The setting with this key as `read` understands it, or the default. -/
def setting? {α : Type} (members : List (String × Json)) (key : String) (read : Json → Option α)
    (default : α) : Option α :=
  match members.find? (·.1 == key) with
  | some m => read m.2
  | none => some default

end Json

/-- The settings that a JSON value describes. -/
def ParseSettings.ofJson? (j : Json) : Option ParseSettings := do
  let given ← j.settings? ["dialect", "max_statement_len", "max_depth", "strict_param_types"]
  let usual : ParseSettings := {}
  let dialect ← Json.setting? given "dialect" (·.choice?.bind Dialect.ofName?) usual.dialect
  let maxLength ← Json.setting? given "max_statement_len" (·.count?) usual.maxLength
  let maxDepth ← Json.setting? given "max_depth" (·.count?) usual.maxDepth
  let strictTypes ← Json.setting? given "strict_param_types" (·.flag?) usual.strictTypes
  return { dialect, maxLength, maxDepth, strictTypes }

/-- The settings that a JSON value describes. -/
def RenderSettings.ofJson? (j : Json) : Option RenderSettings := do
  let given ← j.settings? ["param_style", "gmt", "pretty", "force_quotes", "meta_store_convention"]
  let usual : RenderSettings := {}
  let style ← Json.setting? given "param_style" (·.choice?.bind ParamStyle.ofName?) usual.style
  let gmt ← Json.setting? given "gmt" (·.flag?) usual.gmt
  let pretty ← Json.setting? given "pretty" (·.flag?) usual.pretty
  let forceQuotes ← Json.setting? given "force_quotes" (·.flag?) usual.forceQuotes
  let caseSensitive ← Json.setting? given "meta_store_convention" (·.flag?) usual.caseSensitive
  return { style, gmt, pretty, forceQuotes, caseSensitive }

end BoundSql
