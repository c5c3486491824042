import BoundSql.Token.Basic
import BoundSql.Token.Comment
import BoundSql.Token.Quoted

/-!
# Placeholders

Two notations declare a parameter: `##name::type::null`, and a comment such as
`/* name:x type:int descr:"An example" nullok:true */`. The comment may follow `##`, or stand alone
behind the literal that is the default of the parameter.
-/

namespace BoundSql.Placeholder

open Text Token

/-- The attributes found in a comment; a later one of the same name replaces an earlier one. -/
structure Attributes where
  name : Option (List Char)
  typeName : Option (List Char)
  descr : Option (List Char)
  nullok : Bool

namespace Attributes

/-- No attribute at all. -/
def empty : Attributes := ⟨none, none, none, false⟩

/-- Sets one attribute; unknown ones are ignored. -/
def put (a : Attributes) (key value : List Char) : Attributes :=
  match String.ofList key with
  | "name" => { a with name := some value }
  | "type" => { a with typeName := some value }
  | "descr" => { a with descr := some value }
  | "nullok" => { a with nullok := sameWord value "true".toList }
  | _ => a

end Attributes

/-- An attribute value, quoted or up to the next blank, and the number of its characters. -/
def attributeValue : List Char → Except LexicalError (List Char × Nat)
  | '"' :: cs =>
    match quotedBody '"' false cs with
    | some (value, n) => .ok (value, n + 1)
    | none => .error .unterminatedAttribute
  | cs =>
    let value := cs.takeWhile fun c => !isBlank c
    .ok (value, value.length)

/-- Reads attributes, blanks between them, and adds them to those found so far. -/
def readAttributes (found : Attributes) (cs : List Char) : Except LexicalError Attributes :=
  match cs with
  | [] => .ok found
  | c :: rest =>
    match _h : (c :: rest).dropWhile (· != ':') with
    | [] => .error (.invalidAttribute (c :: rest))
    | _ :: afterColon =>
      match attributeValue afterColon with
      | .error e => .error e
      | .ok (value, n) =>
        readAttributes (found.put (trim ((c :: rest).takeWhile (· != ':'))) value)
          (trimStart (afterColon.drop n))
termination_by cs.length
decreasing_by
  have h₁ := (List.dropWhile_sublist (l := c :: rest) (· != ':')).length_le
  have h₂ := (List.dropWhile_sublist (l := afterColon.drop n) isBlank).length_le
  rw [_h] at h₁
  simp only [List.length_cons, List.length_drop] at *
  simp only [trimStart]
  omega

/-- The text if it is not empty. -/
def nonempty? (cs : List Char) : Option (List Char) :=
  if cs.isEmpty then none else some cs

/-- The placeholder that a comment with this content declares. -/
def ofComment (content : List Char) (attached : Bool) : Except LexicalError Placeholder := do
  let a ← readAttributes .empty (trim content)
  match a.name.bind nonempty? with
  | none => .error .missingAttributeName
  | some name =>
    .ok { key := .read name
          typeName := (a.typeName.bind nonempty?).map String.ofList
          descr := a.descr.map String.ofList
          nullok := a.nullok
          attached }

/-- The pieces of a text between the marks `::`. -/
def sections : List Char → List (List Char)
  | [] => [[]]
  | ':' :: ':' :: cs => [] :: sections cs
  | c :: cs =>
    match sections cs with
    | [] => [[c]]
    | first :: others => (c :: first) :: others

/-- Whether the third section of a placeholder says that NULL may be bound. -/
def modifier : List (List Char) → Except LexicalError Bool
  | _ :: _ :: m :: _ => if sameWord m "null".toList then .ok true else .error (.invalidModifier m)
  | _ => .ok false

/-- The placeholder that the text behind `##` declares. -/
def ofBody (body : List Char) : Except LexicalError Placeholder := do
  if body.isEmpty then throw .missingPlaceholderName
  let parts := sections body
  let nullok ← modifier parts
  if 3 < parts.length then throw (.tooManySections body)
  let name := parts.headD []
  if name.isEmpty then throw .missingPlaceholderName
  match ParamKey.read name with
  | .named _ => if ParamKey.isSigned name then throw (.invalidOffset name)
  | .offset _ => pure ()
  return { key := .read name
           typeName := (parts[1]?.bind nonempty?).map String.ofList
           descr := none
           nullok
           attached := false }

/-- What the body of a placeholder may consist of, behind an optional sign. -/
def isBodyChar (c : Char) : Bool :=
  isAlphanumeric c || c == '_' || c == '.' || c == ':' || c == '|' || c == '@' || c == '?'

/-- The body of a placeholder at the beginning of a text. -/
def bodyOf : List Char → List Char
  | c :: cs =>
    if c == '+' || c == '-' then c :: cs.takeWhile isBodyChar
    else (c :: cs).takeWhile isBodyChar
  | [] => []

/-- The token for a placeholder or for what is wrong with it. -/
def toKind : Except LexicalError Placeholder → TokenKind
  | .ok p => .param p
  | .error e => .error e

/-- Reads from behind `##`: the token and the number of its characters. -/
def scan (cs : List Char) : TokenKind × Nat :=
  let blanks := (cs.takeWhile fun c => c == ' ' || c == '\t').length
  match cs.drop blanks with
  | '/' :: '*' :: inner =>
    match commentBody 0 inner with
    | some (content, n) => (toKind (ofComment content false), blanks + 2 + n)
    | none => (.error .unterminatedComment, cs.length)
  | _ =>
    let body := bodyOf cs
    (toKind (ofBody body), body.length)

end BoundSql.Placeholder
