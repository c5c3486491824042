import BoundSql.Calendar.Reading
import BoundSql.Json.Value
import BoundSql.Number.Width
import BoundSql.Value

/-!
# Bindings

The values that a caller gives to parameters by name, in the order of their names, and how they are
read from JSON.
-/

namespace BoundSql

/-- Why a value cannot be bound to a parameter. -/
inductive BindReason
  | notAnObject
  | array
  | notOneKey
  | unknownKind (kind : String)
  | invalidDate (text : String) (e : Calendar.ReadError)
  | invalidTime (text : String) (e : Calendar.ReadError)
  | invalidTimestamp (text : String) (e : Calendar.ReadError)
  | invalidBlob (text : String)
  | unbound
  | nullForbidden
  | wrongType (expected got : ValueType)
  | noLiteral (x : Double)
  deriving DecidableEq, Repr

namespace BindReason

/-- The text shown to users. -/
def message : BindReason → String
  | notAnObject => "parameter values must be a JSON object"
  | array => "arrays cannot be bound"
  | notOneKey => "typed values must be objects with exactly one key"
  | unknownKind kind => s!"unknown value type '{kind}'"
  | invalidDate text e => s!"invalid date '{text}': {e.message}"
  | invalidTime text e => s!"invalid time '{text}': {e.message}"
  | invalidTimestamp text e => s!"invalid timestamp '{text}': {e.message}"
  | invalidBlob text => s!"invalid hex blob '{text}'"
  | unbound => "no value bound"
  | nullForbidden => "NULL bound to a parameter declared NOT NULL"
  | wrongType expected got => s!"expected {expected.name}, got {got.name}"
  | noLiteral x => s!"{x.toText} has no SQL literal"

end BindReason

/-- The byte that two characters stand for: two hexadecimal digits, or a plus sign and one. -/
def hexPair? (a b : Char) : Option UInt8 :=
  if Text.isHexDigit b then
    if Text.isHexDigit a then some (UInt8.ofNat (16 * Text.hexValue a + Text.hexValue b))
    else if a = '+' then some (UInt8.ofNat (Text.hexValue b))
    else none
  else none

/-- The bytes that pairs of characters stand for. -/
def readHex? : List Char → Option (List UInt8)
  | [] => some []
  | [_] => none
  | a :: b :: cs => do
    let byte ← hexPair? a b
    return byte :: (← readHex? cs)

namespace Value

/-- A timestamp with an offset, or else one without. -/
def readTimestamp (text : String) : Except BindReason Value :=
  match ZonedDateTime.read text.toList with
  | .ok t => .ok (zoned t)
  | .error _ =>
    match DateTime.read text.toList with
    | .ok t => .ok (timestamp t)
    | .error e => .error (.invalidTimestamp text e)

/-- The value of a type that JSON does not have, by the name of the type. -/
def ofTagged (kind text : String) : Except BindReason Value :=
  match kind with
  | "date" => (Date.read text.toList).map date |>.mapError (.invalidDate text)
  | "time" => (TimeOfDay.read text.toList).map time |>.mapError (.invalidTime text)
  | "timestamp" => readTimestamp text
  | "blob" =>
    match readHex? text.toList with
    | some bytes => .ok (blob bytes)
    | none => .error (.invalidBlob text)
  | "default" => .ok columnDefault
  | other => .error (.unknownKind other)

/-- An integer as a value; beyond 64 bits it is a double. -/
def ofInt (n : Int) : Value :=
  if fitsSigned 64 n then int (Int64.ofInt n) else float (Double.ofInt n)

/-- The value that a JSON value stands for. -/
def ofJson : Json → Except BindReason Value
  | .null => .ok null
  | .bool b => .ok (bool b)
  | .int n => .ok (ofInt n)
  | .float x => .ok (float x)
  | .string s => .ok (text s)
  | .array _ => .error .array
  | .object [(kind, value)] => ofTagged kind (value.text?.getD "")
  | .object _ => .error .notOneKey

end Value

/-- Values bound to names, in the order of the names. -/
structure Bindings where
  entries : List (String × Value)
  deriving DecidableEq, Repr

namespace Bindings

/-- No value at all. -/
def empty : Bindings := ⟨[]⟩

/-- The entries with one more; it takes the place of an entry of the same name. -/
def putEntry (name : String) (value : Value) : List (String × Value) → List (String × Value)
  | [] => [(name, value)]
  | (n, v) :: rest =>
    if name = n then (name, value) :: rest
    else if name < n then (name, value) :: (n, v) :: rest
    else (n, v) :: putEntry name value rest

/-- Binds a value to a name. -/
def set (b : Bindings) (name : String) (value : Value) : Bindings :=
  ⟨putEntry name value b.entries⟩

/-- The value bound to a name. -/
def get? (b : Bindings) (name : String) : Option Value :=
  (b.entries.find? (·.1 == name)).map (·.2)

/-- Whether NULL is bound to a name. -/
def isNull (b : Bindings) (name : String) : Bool :=
  match b.get? name with
  | some v => v.isNull
  | none => false

/-- The names. -/
def names (b : Bindings) : List String := b.entries.map (·.1)

/-- Binds the members of a JSON object, in order. -/
def ofMembers : Bindings → List (String × Json) → Except (String × BindReason) Bindings
  | b, [] => .ok b
  | b, (name, j) :: rest =>
    match Value.ofJson j with
    | .ok v => ofMembers (b.set name v) rest
    | .error e => .error (name, e)

/-- The bindings that a JSON object describes. Its members are taken in the order of their names, so
that the first wrong one in that order is the error. -/
def ofJson : Json → Except (String × BindReason) Bindings
  | .object members => ofMembers empty (members.mergeSort fun a b => decide (a.1 ≤ b.1))
  | _ => .error ("*", .notAnObject)

end Bindings

end BoundSql
