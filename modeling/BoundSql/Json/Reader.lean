import BoundSql.Json.Numeral
import BoundSql.Text.Basic

/-!
# Reading JSON

A strict reader: nothing but blanks may follow the value, strings hold no bare control characters
and no half of a surrogate pair, numbers too large for a double are refused, and arrays and objects
nest only to a given depth. Equal keys in an object are refused, or the last value counts; `Rules`
say which, how deep, and how a number becomes a double.
-/

namespace BoundSql.Json

/-- The blanks of JSON. -/
def isSpace (c : Char) : Bool := c == ' ' || c == '\n' || c == '\t' || c == '\r'

/-- The text without the blanks it starts with. -/
def skipSpace (cs : List Char) : List Char := cs.dropWhile isSpace

/-- The value of four hexadecimal digits at the beginning of a text. -/
def unit? : List Char → Option (Nat × List Char)
  | a :: b :: c :: d :: cs =>
    if [a, b, c, d].all Text.isHexDigit then
      some ([a, b, c, d].foldl (fun n x => 16 * n + Text.hexValue x) 0, cs)
    else none
  | _ => none

/-- Whether a 16-bit unit is the first half of a surrogate pair. -/
def isHigh (n : Nat) : Bool := 0xD800 ≤ n && n < 0xDC00

/-- Whether a 16-bit unit is the second half of a surrogate pair. -/
def isLow (n : Nat) : Bool := 0xDC00 ≤ n && n < 0xE000

/-- The character behind `\u`, which takes a second escape if it begins with a high surrogate. -/
def unicode? (cs : List Char) : Option (Char × List Char) := do
  let (n, rest) ← unit? cs
  if isLow n then none
  else if isHigh n then
    match rest with
    | '\\' :: 'u' :: more =>
      let (m, rest) ← unit? more
      if isLow m then some (Char.ofNat (0x10000 + (n - 0xD800) * 0x400 + (m - 0xDC00)), rest)
      else none
    | _ => none
  else some (Char.ofNat n, rest)

/-- What a backslash and this character stand for, `u` excepted. -/
def simpleEscape? : Char → Option Char
  | '"' => some '"'
  | '\\' => some '\\'
  | '/' => some '/'
  | 'b' => some (Char.ofNat 8)
  | 'f' => some (Char.ofNat 12)
  | 'n' => some '\n'
  | 'r' => some '\r'
  | 't' => some '\t'
  | _ => none

/-- Reads a string from behind its opening quote; `fuel` bounds the number of its characters. -/
def stringBody : Nat → List Char → Option (List Char × List Char)
  | 0, _ => none
  | _, [] => none
  | _ + 1, '"' :: cs => some ([], cs)
  | fuel + 1, '\\' :: 'u' :: cs => do
    let (c, rest) ← unicode? cs
    let (text, rest) ← stringBody fuel rest
    some (c :: text, rest)
  | fuel + 1, '\\' :: e :: cs => do
    let c ← simpleEscape? e
    let (text, rest) ← stringBody fuel cs
    some (c :: text, rest)
  | fuel + 1, c :: cs =>
    if c == '\\' || c.toNat < 0x20 then none
    else (stringBody fuel cs).map fun (text, rest) => (c :: text, rest)

/-- What a reader allows. -/
structure Rules where
  /-- Whether equal keys in an object are refused. -/
  unique : Bool := false
  /-- How deep arrays and objects nest. -/
  depth : Nat := 127
  /-- How a number that is no integer becomes a double. -/
  rounding : Rounding := .scaled

/-- Reads a number. -/
def number? (rounding : Rounding) (cs : List Char) : Option (Json × List Char) := do
  let (x, rest) ← Numeral.read? cs
  some (← x.value? rounding, rest)

/-- The members with one more. A repeated key is refused if keys are to be `unique`, and otherwise
gives its place to the later value. -/
def addMember? (unique : Bool) (members : List (String × Json)) (key : String) (value : Json) :
    Option (List (String × Json)) :=
  if unique && members.any (·.1 == key) then none else some (putMember members key value)

mutual

/-- Reads one value, in which arrays and objects nest at most `depth` deep. -/
def value? (rules : Rules) : (fuel depth : Nat) → List Char → Option (Json × List Char)
  | 0, _, _ => none
  | fuel + 1, depth, cs =>
    match skipSpace cs with
    | 'n' :: 'u' :: 'l' :: 'l' :: rest => some (null, rest)
    | 't' :: 'r' :: 'u' :: 'e' :: rest => some (bool true, rest)
    | 'f' :: 'a' :: 'l' :: 's' :: 'e' :: rest => some (bool false, rest)
    | '"' :: rest =>
      (stringBody (rest.length + 1) rest).map fun (text, rest) =>
        (string (String.ofList text), rest)
    | '[' :: rest =>
      if depth = 0 then none
      else match skipSpace rest with
        | ']' :: rest => some (array [], rest)
        | rest =>
          (items? rules fuel (depth - 1) rest).map fun (items, rest) => (array items, rest)
    | '\x7b' :: rest =>
      if depth = 0 then none
      else match skipSpace rest with
        | '\x7d' :: rest => some (object [], rest)
        | rest =>
          (members? rules fuel (depth - 1) [] rest).map fun (ms, rest) => (object ms, rest)
    | other => number? rules.rounding other

/-- Reads values with commas between them, and the bracket behind them. -/
def items? (rules : Rules) : (fuel depth : Nat) → List Char → Option (List Json × List Char)
  | 0, _, _ => none
  | fuel + 1, depth, cs =>
    match value? rules fuel depth cs with
    | none => none
    | some (item, rest) =>
      match skipSpace rest with
      | ',' :: rest => (items? rules fuel depth rest).map fun (items, rest) => (item :: items, rest)
      | ']' :: rest => some ([item], rest)
      | _ => none

/-- Reads members with commas between them, and the brace behind them. -/
def members? (rules : Rules) : (fuel depth : Nat) → List (String × Json) → List Char →
    Option (List (String × Json) × List Char)
  | 0, _, _, _ => none
  | fuel + 1, depth, found, cs =>
    match skipSpace cs with
    | '"' :: rest =>
      match stringBody (rest.length + 1) rest with
      | none => none
      | some (key, rest) =>
        match skipSpace rest with
        | ':' :: rest =>
          match value? rules fuel depth rest with
          | none => none
          | some (value, rest) =>
            match addMember? rules.unique found (String.ofList key) value, skipSpace rest with
            | some found, ',' :: rest => members? rules fuel depth found rest
            | some found, '\x7d' :: rest => some (found, rest)
            | _, _ => none
        | _ => none
    | _ => none

end

/-- Reads a text that is one JSON value. -/
def read? (text : List Char) (rules : Rules := {}) : Option Json :=
  match value? rules (2 * text.length + 2) rules.depth text with
  | some (value, rest) => if (skipSpace rest).isEmpty then some value else none
  | none => none

end BoundSql.Json
