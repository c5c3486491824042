import BoundSql.Number.Shortest
import BoundSql.Text.Basic

/-!
# JSON values and their text

An object keeps its members in the order in which they are written. `Json.write` is the compact text
of a value, in which a slash is escaped; `Json.pretty` sets members and items on lines of their own
and leaves slashes alone.
-/

namespace BoundSql

/-- A JSON value. A number is an integer if it is written without fraction and exponent and is small
enough, and otherwise a double. -/
inductive Json
  | null
  | bool (b : Bool)
  | int (n : Int)
  | float (x : Double)
  | string (text : String)
  | array (items : List Json)
  | object (members : List (String × Json))

namespace Json

/-- Four lower case hexadecimal digits. -/
def hex4 (n : Nat) : List Char :=
  let digits := Nat.toDigits 16 n
  List.replicate (4 - digits.length) '0' ++ digits

/-- A character as it stands inside a JSON string. -/
def escapeChar (slash : Bool) (c : Char) : List Char :=
  if c = '"' then ['\\', '"']
  else if c = '\\' then ['\\', '\\']
  else if c = '/' && slash then ['\\', '/']
  else if c = Char.ofNat 8 then ['\\', 'b']
  else if c = Char.ofNat 12 then ['\\', 'f']
  else if c = '\n' then ['\\', 'n']
  else if c = '\r' then ['\\', 'r']
  else if c = '\t' then ['\\', 't']
  else if c.toNat < 0x20 then '\\' :: 'u' :: hex4 c.toNat
  else [c]

/-- A text as a JSON string. -/
def quoted (slash : Bool) (text : List Char) : List Char :=
  '"' :: text.flatMap (escapeChar slash) ++ ['"']

/-- The text as a JSON string in which slashes are escaped. -/
def quote (text : String) : String := String.ofList (quoted true text.toList)

/-- The text of a value that has no parts. -/
def atom (slash : Bool) : Json → List Char
  | null => "null".toList
  | bool b => (if b then "true" else "false").toList
  | int n => (toString n).toList
  | float x => x.toText.toList
  | string text => quoted slash text.toList
  | array _ => ['[', ']']
  | object _ => ['\x7b', '\x7d']

mutual

/-- The compact text of a value in front of a text. -/
def writeBefore (rest : List Char) : Json → List Char
  | array items => '[' :: writeItems (']' :: rest) items
  | object members => '\x7b' :: writeMembers ('\x7d' :: rest) members
  | other => atom true other ++ rest

/-- Values with commas between them in front of a text. -/
def writeItems (rest : List Char) : List Json → List Char
  | [] => rest
  | [item] => writeBefore rest item
  | item :: items => writeBefore (',' :: writeItems rest items) item

/-- Members with commas between them in front of a text. -/
def writeMembers (rest : List Char) : List (String × Json) → List Char
  | [] => rest
  | [(key, value)] => quoted true key.toList ++ ':' :: writeBefore rest value
  | (key, value) :: members =>
    quoted true key.toList ++ ':' :: writeBefore (',' :: writeMembers rest members) value

end

/-- The compact text of a value. -/
def write (j : Json) : List Char := j.writeBefore []

mutual

/-- Nothing of a value's text depends on what follows. -/
theorem writeBefore_append (rest more : List Char) :
    (j : Json) → writeBefore (rest ++ more) j = writeBefore rest j ++ more
  | array items => by simpa [writeBefore] using writeItems_append (']' :: rest) more items
  | object members => by simpa [writeBefore] using writeMembers_append ('\x7d' :: rest) more members
  | null => by simp [writeBefore]
  | bool _ => by simp [writeBefore]
  | int _ => by simp [writeBefore]
  | float _ => by simp [writeBefore]
  | string _ => by simp [writeBefore]

theorem writeItems_append (rest more : List Char) :
    (items : List Json) → writeItems (rest ++ more) items = writeItems rest items ++ more
  | [] => by simp [writeItems]
  | [item] => by simp [writeItems, writeBefore_append rest more item]
  | item :: next :: items => by
    have h := writeBefore_append (',' :: writeItems rest (next :: items)) more item
    simp only [writeItems, writeItems_append rest more (next :: items)] at h ⊢
    simpa using h

theorem writeMembers_append (rest more : List Char) :
    (members : List (String × Json)) →
      writeMembers (rest ++ more) members = writeMembers rest members ++ more
  | [] => by simp [writeMembers]
  | [(_, value)] => by simp [writeMembers, writeBefore_append rest more value]
  | (_, value) :: next :: members => by
    have h := writeBefore_append (',' :: writeMembers rest (next :: members)) more value
    simp only [writeMembers, writeMembers_append rest more (next :: members)] at h ⊢
    simp at h
    simp [h]

end

/-- In front of a text stands exactly the text of the value. -/
theorem writeBefore_eq (rest : List Char) (j : Json) : writeBefore rest j = write j ++ rest :=
  writeBefore_append [] rest j

/-- The compact text of a value, as a string. -/
def toText (j : Json) : String := String.ofList j.write

/-- A line break and the indentation of the given depth. -/
def newline (depth : Nat) : List Char := '\n' :: List.replicate (2 * depth) ' '

mutual

/-- The text of a value on several lines, indented by two blanks a level. -/
def prettyAt (depth : Nat) : Json → List Char
  | array [] => ['[', ']']
  | array (item :: items) =>
    '[' :: prettyItems (depth + 1) (item :: items) ++ newline depth ++ [']']
  | object [] => ['\x7b', '\x7d']
  | object (m :: members) =>
    '\x7b' :: prettyMembers (depth + 1) (m :: members) ++ newline depth ++ ['\x7d']
  | other => atom false other

/-- Items on lines of their own. -/
def prettyItems (depth : Nat) : List Json → List Char
  | [] => []
  | [item] => newline depth ++ prettyAt depth item
  | item :: items => newline depth ++ prettyAt depth item ++ ',' :: prettyItems depth items

/-- Members on lines of their own. -/
def prettyMembers (depth : Nat) : List (String × Json) → List Char
  | [] => []
  | [(key, value)] => newline depth ++ quoted false key.toList ++ ':' :: ' ' :: prettyAt depth value
  | (key, value) :: members =>
    newline depth ++ quoted false key.toList ++ ':' :: ' ' :: prettyAt depth value ++
      ',' :: prettyMembers depth members

end

/-- The text of a value on several lines. -/
def pretty (j : Json) : String := String.ofList (prettyAt 0 j)

/-- The member of an object with this key. -/
def get? (j : Json) (key : String) : Option Json :=
  match j with
  | object members => (members.find? (·.1 == key)).map (·.2)
  | _ => none

/-- The text of a string. -/
def text? : Json → Option String
  | string text => some text
  | _ => none

/-- The members without those of earlier equal keys, which give their place to the later value. -/
def putMember (members : List (String × Json)) (key : String) (value : Json) :
    List (String × Json) :=
  if members.any (·.1 == key) then
    members.map fun m => if m.1 == key then (key, value) else m
  else members ++ [(key, value)]

end Json

end BoundSql
