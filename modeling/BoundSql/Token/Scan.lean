import BoundSql.Dialect
import BoundSql.Token.Placeholder

/-!
# The token at the beginning of a text

Each function of this module looks at a text whose first character is known and says what token it
opens with and how many *more* characters belong to it. A token thus never is empty.
-/

namespace BoundSql.Token

open Text

/-- What the lexical rules depend on: the dialect, and the statement delimiter where it is not the
semicolon. -/
structure Lexicon where
  dialect : Dialect
  /-- The custom delimiter; empty if a semicolon ends statements. -/
  delimiter : List Char := []
  deriving Repr

namespace Lexicon

/-- Uses a delimiter; a semicolon or nothing means the usual one. -/
def withDelimiter (lx : Lexicon) (delimiter : List Char) : Lexicon :=
  if delimiter = [';'] then lx else { lx with delimiter }

/-- Whether the custom delimiter opens the text. -/
def atDelimiter (lx : Lexicon) (cs : List Char) : Bool :=
  !lx.delimiter.isEmpty && opens lx.delimiter cs

end Lexicon

/-- The characters of an undelimited name at the beginning of a text; a custom delimiter ends it. -/
def nameLength (lx : Lexicon) : List Char → Nat
  | [] => 0
  | c :: cs =>
    if isNameChar c && !lx.atDelimiter (c :: cs) then nameLength lx cs + 1 else 0

/-- A keyword, or else a name. -/
def word (text : List Char) : TokenKind :=
  match Keyword.ofWord? text with
  | some k => .keyword k
  | none => .identifier (String.ofList text)

/-- A name or keyword that begins with `c`. -/
def scanName (lx : Lexicon) (c : Char) (cs : List Char) : TokenKind × Nat :=
  let more := nameLength lx cs
  (word (c :: cs.take more), more)

/-- A string behind its opening quote. -/
def scanString (d : Dialect) (quote : Char) (cs : List Char) : TokenKind × Nat :=
  match quotedBody quote d.backslashEscapes cs with
  | some (text, n) => (.string (String.ofList text), n)
  | none => (.error .unterminatedString, cs.length)

/-- A delimited name behind its opening quote; it keeps its delimiters. -/
def scanDelimited (quote : Char) (cs : List Char) : TokenKind × Nat :=
  match quotedBody quote false cs with
  | some (_, n) => (.identifier (String.ofList (quote :: cs.take n)), n)
  | none => (.error .unterminatedName, cs.length)

/-- The bytes that pairs of hexadecimal digits stand for. -/
def hexBytes : List Char → List UInt8
  | a :: b :: cs => UInt8.ofNat (16 * hexValue a + hexValue b) :: hexBytes cs
  | _ => []

/-- A blob behind its `X`, the text beginning with the opening quote. Blanks between the digits do
not count. -/
def scanBlob (cs : List Char) : TokenKind × Nat :=
  let body := cs.tail.takeWhile fun c => isHexDigit c || isBlank c
  let digits := body.filter isHexDigit
  match cs.tail.drop body.length with
  | [] => (.error .unterminatedBlob, cs.length)
  | '\'' :: _ =>
    if digits.length % 2 = 0 then (.blob (hexBytes digits), body.length + 2)
    else (.error .oddBlobDigits, body.length + 2)
  | _ => (.error .invalidBlobCharacter, body.length + 2)

/-- The fraction at the beginning of a text: a point and at least one digit. -/
def fractionOf : List Char → List Char
  | '.' :: d :: cs => if d.isDigit then '.' :: (d :: cs).takeWhile Char.isDigit else []
  | _ => []

/-- The exponent at the beginning of a text. After a sign it may lack digits, which makes the number
invalid. -/
def exponentOf : List Char → List Char
  | e :: d :: cs =>
    if e != 'e' && e != 'E' then []
    else if d == '+' || d == '-' then e :: d :: cs.takeWhile Char.isDigit
    else if d.isDigit then e :: (d :: cs).takeWhile Char.isDigit
    else []
  | _ => []

/-- What a number without or with a fraction or exponent means. An integer that does not fit in 64
bits is read as a float. -/
def number (text : List Char) (whole : Bool) : TokenKind :=
  match if whole then readInt64? text else none with
  | some n => .integer n
  | none =>
    match Double.ofDigits? text with
    | some x => .float x
    | none => .error (.invalidNumber text)

/-- A number whose first character is given. -/
def scanNumber (text : List Char) : TokenKind × Nat :=
  let whole := text.takeWhile Char.isDigit
  let afterWhole := text.drop whole.length
  let decimals := fractionOf afterWhole
  let exponent := exponentOf (afterWhole.drop decimals.length)
  let lexeme := whole ++ decimals ++ exponent
  (number lexeme (decimals.isEmpty && exponent.isEmpty), lexeme.length - 1)

/-- A dollar-quoted string behind its first `$`, if the text opens with a tag. -/
def scanDollar? (cs : List Char) : Option (TokenKind × Nat) :=
  let name := cs.takeWhile isWordChar
  match cs.drop name.length with
  | '$' :: body =>
    if (name.head?.map Char.isDigit).getD false then none
    else
      let tag := '$' :: name ++ ['$']
      match find? tag body with
      | some n => some (.string (String.ofList (body.take n)), n + 2 * name.length + 3)
      | none => some (.error .unterminatedDollarString, cs.length)
  | _ => none

/-- A driver placeholder behind its sign: a number or, except after `?`, a name. A bare `?` is
numbered; any other bare sign means nothing. -/
def scanHost (ordinal : Nat) (sign : Char) (cs : List Char) : TokenKind × Nat :=
  let name :=
    if (cs.head?.map Char.isDigit).getD false then cs.takeWhile Char.isDigit
    else if sign = '?' then []
    else cs.takeWhile isWordChar
  if !name.isEmpty then (.hostParam (String.ofList name), name.length)
  else if sign = '?' then (.hostParam s!"?{ordinal + 1}", 0)
  else (.symbol sign, 0)

/-- An operator, separator or symbol that begins with `c`. -/
def scanPunct (lx : Lexicon) (c : Char) (cs : List Char) : TokenKind × Nat :=
  match c, cs with
  | '(', _ => (.punct .leftParen, 0)
  | ')', _ => (.punct .rightParen, 0)
  | '[', _ => (.punct .leftBracket, 0)
  | ']', _ => (.punct .rightBracket, 0)
  | ',', _ => (.punct .comma, 0)
  | ';', _ => (.punct (if lx.delimiter.isEmpty then .semicolon else .blockSemicolon), 0)
  | '+', _ => (.punct .plus, 0)
  | '-', _ => (.punct .minus, 0)
  | '*', _ => (.punct .star, 0)
  | '/', _ => (.punct .slash, 0)
  | '%', _ => (.punct .percent, 0)
  | '&', _ => (.punct .bitAnd, 0)
  | '.', _ => (.punct .dot, 0)
  | ':', ':' :: _ => (.punct .doubleColon, 1)
  | ':', _ => (.punct .colon, 0)
  | '~', '*' :: _ => if lx.dialect.regexpOperators then (.punct .regexpCi, 1) else (.punct .bitNot, 0)
  | '~', _ => if lx.dialect.regexpOperators then (.punct .regexp, 0) else (.punct .bitNot, 0)
  | '=', '=' :: _ => (.punct .eq, 1)
  | '=', _ => (.punct .eq, 0)
  | '<', '=' :: _ => (.punct .ltEq, 1)
  | '<', '>' :: _ => (.punct .notEq, 1)
  | '<', '<' :: _ => (.punct .leftShift, 1)
  | '<', _ => (.punct .lt, 0)
  | '>', '=' :: _ => (.punct .gtEq, 1)
  | '>', '>' :: _ => (.punct .rightShift, 1)
  | '>', _ => (.punct .gt, 0)
  | '!', '=' :: _ => (.punct .notEq, 1)
  | '!', '~' :: '*' :: _ =>
    if lx.dialect.regexpOperators then (.punct .notRegexpCi, 2) else (.symbol '!', 0)
  | '!', '~' :: _ =>
    if lx.dialect.regexpOperators then (.punct .notRegexp, 1) else (.symbol '!', 0)
  | '|', '|' :: _ => (.punct .concat, 1)
  | '|', _ => (.punct .bitOr, 0)
  | c, _ => (.symbol c, 0)

/-- A system variable such as `@@session.name` behind its first `@`. -/
def scanSystem (cs : List Char) : TokenKind × Nat :=
  let name := cs.tail.takeWhile fun c => isWordChar c || c == '.'
  (.identifier (String.ofList ('@' :: '@' :: name)), name.length + 1)

/-- Whether a text begins with a letter or underscore. -/
def startsName : List Char → Bool
  | c :: _ => isAlphabetic c || c == '_'
  | [] => false

/-- Whether a text begins with a digit. -/
def startsDigit : List Char → Bool
  | c :: _ => c.isDigit
  | [] => false

/-- The token that is no comment, delimiter, quotation or number. -/
def scanPlain (lx : Lexicon) (ordinal : Nat) (c : Char) (cs : List Char) : TokenKind × Nat :=
  if startsName [c] then scanName lx c cs
  else if c = '@' && cs.head? == some '@' then scanSystem cs
  else if c = '?' || c = '$' || c = '@' || (c = ':' && startsName cs) then scanHost ordinal c cs
  else scanPunct lx c cs

/-- The token that the text `c :: cs` opens with, `ordinal` bare placeholders standing before it,
and the number of its characters after the first. -/
def scan (lx : Lexicon) (ordinal : Nat) (c : Char) (cs : List Char) : TokenKind × Nat :=
  match commentLead lx.dialect.hashComments (c :: cs) with
  | .unterminated => (.error .unterminatedComment, cs.length)
  | .placeholder content more => (Placeholder.toKind (Placeholder.ofComment content true), more)
  | _ =>
    if lx.atDelimiter (c :: cs) then (.punct .semicolon, lx.delimiter.length - 1)
    else if c = '#' && cs.head? == some '#' then
      let (kind, n) := Placeholder.scan cs.tail
      (kind, n + 1)
    else if c = '\'' then scanString lx.dialect '\'' cs
    else if c = '"' then
      if lx.dialect.doubleQuotedStrings then scanString lx.dialect '"' cs else scanDelimited '"' cs
    else if c = '\x60' && lx.dialect.backtickIdentifiers then scanDelimited '\x60' cs
    else if (c = 'X' || c = 'x') && cs.head? == some '\'' then scanBlob cs
    else if c.isDigit || (c = '.' && startsDigit cs) then scanNumber (c :: cs)
    else
      match if c = '$' && lx.dialect.dollarQuotedStrings then scanDollar? cs else none with
      | some answer => answer
      | none => scanPlain lx ordinal c cs

end BoundSql.Token
