import BoundSql.Param.ValueType
import BoundSql.Token.Basic

/-!
# The parameter table of a statement

Each placeholder of a statement declares a parameter. The table has one entry for every key, in the
order in which the keys first appear; later declarations of a key are merged into its entry.
-/

namespace BoundSql

/-- A declared parameter. -/
structure ParamSpec where
  key : ParamKey
  descr : Option String
  /-- The type as written. -/
  typeName : Option String
  /-- NULL may be bound. -/
  nullok : Bool
  deriving DecidableEq, Repr

namespace ParamSpec

/-- The canonical type of the parameter. -/
def valueType (s : ParamSpec) : ValueType :=
  match s.typeName with
  | some name => .ofName name
  | none => .unknown

/-- How the parameter is shown. -/
def name (s : ParamSpec) : String := s.key.display

/-- What a placeholder declares. -/
def ofPlaceholder (p : Placeholder) : ParamSpec :=
  { key := p.key, descr := p.descr, typeName := p.typeName, nullok := p.nullok }

/-- What a placeholder of a database driver declares: a name and nothing else. -/
def ofHost (name : String) : ParamSpec :=
  { key := .named name, descr := none, typeName := none, nullok := false }

/-- The parameter that a token declares. -/
def ofToken? (t : Token) : Option ParamSpec :=
  match t.kind with
  | .param p => some (ofPlaceholder p)
  | .hostParam name => some (ofHost name)
  | _ => none

/-- Whether both declare a type and the types differ, the case of letters aside. -/
def clashes (kept other : ParamSpec) : Bool :=
  match kept.typeName, other.typeName with
  | some a, some b => !Text.sameWord a.toList b.toList
  | _, _ => false

/-- One entry for two declarations of a parameter. The first type and description are kept, and NULL
may be bound if either says so. -/
def merge (kept other : ParamSpec) : ParamSpec :=
  { key := kept.key
    descr := kept.descr.or other.descr
    typeName := kept.typeName.or other.typeName
    nullok := kept.nullok || other.nullok }

end ParamSpec

/-- Two declarations of one parameter with different types. -/
structure ParamConflict where
  key : ParamKey
  kept : Option String
  other : Option String
  deriving DecidableEq, Repr

/-- The parameters of a statement. -/
structure ParamTable where
  /-- One entry for each key, in order of first appearance. -/
  specs : List ParamSpec
  /-- The clashes of types, in order of appearance. -/
  conflicts : List ParamConflict
  deriving DecidableEq, Repr

namespace ParamTable

/-- A table without parameters. -/
def empty : ParamTable := ⟨[], []⟩

/-- The entry of a key. -/
def get? (t : ParamTable) (key : ParamKey) : Option ParamSpec :=
  t.specs.find? (·.key == key)

/-- The clash that a further declaration causes. -/
def conflict? (t : ParamTable) (spec : ParamSpec) : Option ParamConflict :=
  match t.get? spec.key with
  | some kept =>
    if kept.clashes spec then
      some { key := spec.key, kept := kept.typeName, other := spec.typeName }
    else none
  | none => none

/-- Adds a declaration: a new entry, or one merged into the entry of its key. -/
def insert (t : ParamTable) (spec : ParamSpec) : ParamTable :=
  { specs :=
      if (t.get? spec.key).isSome then
        t.specs.map fun s => if s.key == spec.key then s.merge spec else s
      else t.specs ++ [spec]
    conflicts := t.conflicts ++ (t.conflict? spec).toList }

/-- The table of these declarations. -/
def ofSpecs (specs : List ParamSpec) : ParamTable := specs.foldl insert empty

/-- The table of the placeholders among these tokens. -/
def ofTokens (tokens : List Token) : ParamTable := ofSpecs (tokens.filterMap ParamSpec.ofToken?)

/-- How the parameters are shown, in order. -/
def names (t : ParamTable) : List String := t.specs.map (·.name)

/-- The entry of the parameter with this name. -/
def byName? (t : ParamTable) (name : String) : Option ParamSpec := t.get? (.named name)

end ParamTable

end BoundSql
