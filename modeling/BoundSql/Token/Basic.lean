import BoundSql.Number.Shortest
import BoundSql.Param.Key
import BoundSql.Text.Position
import BoundSql.Token.Keyword

/-!
# Tokens

A `Token` is a piece of SQL text with what it means, where it stands and the blanks and comments in
front of it, so that the tokens of a text spell the whole text.
-/

namespace BoundSql

/-- Why a piece of text is no token. -/
inductive LexicalError
  | unterminatedComment
  | unterminatedName
  | unterminatedString
  | unterminatedDollarString
  | unterminatedBlob
  | invalidBlobCharacter
  | oddBlobDigits
  | invalidNumber (text : List Char)
  | missingPlaceholderName
  | invalidModifier (modifier : List Char)
  | tooManySections (body : List Char)
  | invalidOffset (name : List Char)
  | missingAttributeName
  | invalidAttribute (rest : List Char)
  | unterminatedAttribute
  deriving DecidableEq, Repr

namespace LexicalError

/-- The text shown to users. -/
def message : LexicalError → String
  | unterminatedComment => "Unterminated comment"
  | unterminatedName => "Unterminated quoted identifier"
  | unterminatedString => "Unterminated string literal"
  | unterminatedDollarString => "Unterminated dollar-quoted string"
  | unterminatedBlob => "Unterminated blob literal"
  | invalidBlobCharacter => "Invalid character in blob literal"
  | oddBlobDigits => "Odd number of hex digits in blob literal"
  | invalidNumber text => s!"Invalid number {String.ofList text}: invalid float literal"
  | missingPlaceholderName => "Missing parameter name after ##"
  | invalidModifier modifier => s!"Invalid parameter modifier '{String.ofList modifier}'"
  | tooManySections body => s!"Too many '::' sections in parameter '{String.ofList body}'"
  | invalidOffset name => s!"Invalid parameter offset '{String.ofList name}'"
  | missingAttributeName => "Missing parameter name"
  | invalidAttribute rest => s!"Invalid parameter attribute '{String.ofList rest}'"
  | unterminatedAttribute => "Unterminated quoted parameter attribute"

end LexicalError

/-- Operators and separators. -/
inductive Punct
  | plus | minus | star | slash | percent
  | eq | notEq | lt | ltEq | gt | gtEq
  | concat | bitAnd | bitOr | bitNot | leftShift | rightShift
  | regexp | regexpCi | notRegexp | notRegexpCi
  | leftParen | rightParen | leftBracket | rightBracket
  | comma
  /-- The statement delimiter. -/
  | semicolon
  /-- A semicolon that does not end the statement. -/
  | blockSemicolon
  | dot | colon | doubleColon
  deriving DecidableEq, Repr

namespace Punct

/-- The name of the sign. -/
def name : Punct → String
  | plus => "Plus"
  | minus => "Minus"
  | star => "Star"
  | slash => "Slash"
  | percent => "Percent"
  | eq => "Eq"
  | notEq => "NotEq"
  | lt => "Lt"
  | ltEq => "LtEq"
  | gt => "Gt"
  | gtEq => "GtEq"
  | concat => "Concat"
  | bitAnd => "BitAnd"
  | bitOr => "BitOr"
  | bitNot => "BitNot"
  | leftShift => "LeftShift"
  | rightShift => "RightShift"
  | regexp => "Regexp"
  | regexpCi => "RegexpCi"
  | notRegexp => "NotRegexp"
  | notRegexpCi => "NotRegexpCi"
  | leftParen => "LeftParen"
  | rightParen => "RightParen"
  | leftBracket => "LeftBracket"
  | rightBracket => "RightBracket"
  | comma => "Comma"
  | semicolon => "Semicolon"
  | blockSemicolon => "BlockSemicolon"
  | dot => "Dot"
  | colon => "Colon"
  | doubleColon => "DoubleColon"

end Punct

/-- A placeholder with its declared properties. -/
structure Placeholder where
  key : ParamKey
  typeName : Option String
  descr : Option String
  nullok : Bool
  /-- The placeholder is a bare comment, which belongs to the literal in front of it. -/
  attached : Bool
  deriving DecidableEq, Repr

/-- What a token means. -/
inductive TokenKind
  | integer (n : Int64)
  | float (x : Double)
  /-- A string, its escapes resolved. -/
  | string (text : String)
  | blob (bytes : List UInt8)
  /-- A name that is no keyword; a delimited one keeps its delimiters. -/
  | identifier (text : String)
  | keyword (k : Keyword)
  | param (p : Placeholder)
  /-- A placeholder in the notation of a database driver, without its sign. The nth bare `?` is
  named `?n`. -/
  | hostParam (name : String)
  | punct (p : Punct)
  /-- A character that means nothing to the grammar. -/
  | symbol (c : Char)
  | eof
  | error (e : LexicalError)
  deriving DecidableEq, Repr

namespace TokenKind

/-- How the token is named in messages. -/
def describe : TokenKind → String
  | integer n => s!"number {n.toInt}"
  | float x => s!"number {x.toText}"
  | string text => s!"string '{text}'"
  | blob _ => "blob literal"
  | identifier text => s!"identifier {text}"
  | keyword k => s!"keyword {k.spelling}"
  | param p => s!"parameter {p.key.display}"
  | hostParam name => s!"parameter {name}"
  | symbol c => s!"'{c}'"
  | eof => "end of input"
  | error e => e.message
  | punct .semicolon | punct .blockSemicolon => "';'"
  | punct .leftParen => "'('"
  | punct .rightParen => "')'"
  | punct .comma => "','"
  | punct .dot => "'.'"
  | punct .eq => "'='"
  | punct .star => "'*'"
  | punct p => p.name

end TokenKind

/-- A token, its text and its place. -/
structure Token where
  kind : TokenKind
  /-- The blanks and comments between the previous token and this one. -/
  gap : List Char
  /-- The text of the token; empty only at the end of the input. -/
  lexeme : List Char
  /-- Where the lexeme begins. -/
  pos : Text.Position
  deriving DecidableEq, Repr

namespace Token

/-- The bytes of the lexeme. -/
def span (t : Token) : Text.Span :=
  ⟨t.pos.offset, t.pos.offset + Text.byteLength t.lexeme⟩

/-- The place after the lexeme. -/
def stop (t : Token) : Text.Position := t.pos.after t.lexeme

/-- The lexeme as a string. -/
def text (t : Token) : String := String.ofList t.lexeme

/-- The text that the token stands for in its source: gap and lexeme. -/
def source (t : Token) : List Char := t.gap ++ t.lexeme

/-- Whether the token is the given keyword. -/
def isKeyword (t : Token) (k : Keyword) : Bool := t.kind == .keyword k

/-- Whether the token is the given sign. -/
def isPunct (t : Token) (p : Punct) : Bool := t.kind == .punct p

/-- Whether the token is the end of the input. -/
def isEof (t : Token) : Bool := t.kind == .eof

end Token

end BoundSql
