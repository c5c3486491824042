import BoundSql.Dialect

/-!
# Writing names

A name is written as it is unless it would not be read back as the same identifier; then it stands
between delimiters.
-/

namespace BoundSql

open Text

/-- When names are delimited beyond need. -/
structure QuotingRule where
  /-- Names with upper case characters. -/
  caseSensitive : Bool
  /-- All names. -/
  always : Bool
  deriving DecidableEq, Repr

namespace Dialect

/-- Whether the name, without delimiters, would not be an identifier of the dialect, or not the same
one if case matters. -/
def needsQuotes (d : Dialect) (caseSensitive : Bool) (name : String) : Bool :=
  match name.toList with
  | [] => true
  | c :: cs =>
    c.isDigit || (c :: cs).any (fun x => !isWordChar x) || d.isReservedWord name ||
      (caseSensitive && (c :: cs).any isUppercase)

/-- The name as an identifier, between two `quote` if it needs them. A name that is delimited
already stays as it is. -/
def quoteWith (d : Dialect) (quote : Char) (rule : QuotingRule) (name : String) : String :=
  if d.isDelimited name then name
  else if rule.always || d.needsQuotes rule.caseSensitive name then
    String.ofList (delimited quote name.toList)
  else name

/-- The name as an identifier, between double quotes if it needs delimiters. -/
def quoteIdentifier (d : Dialect) (rule : QuotingRule) (name : String) : String :=
  d.quoteWith '"' rule name

/-- The text with each pair of `quote` replaced by a single one. -/
def undoubled (quote : Char) : List Char → List Char
  | a :: b :: cs =>
    if a = quote && b = quote then quote :: undoubled quote cs else a :: undoubled quote (b :: cs)
  | cs => cs

/-- The name inside delimiters, if the text stands between two `quote`. -/
def stripped? (quote : Char) (text : List Char) : Option (List Char) :=
  if between quote text then some (undoubled quote text.tail.dropLast) else none

/-- The name inside the delimiters of any dialect. -/
def bareName? (text : List Char) : Option (List Char) :=
  (stripped? '"' text).or (stripped? '\x60' text)

/-- The name as an identifier of the dialect. A name that is delimited in any dialect gets the
delimiters of this one. -/
def writeName (d : Dialect) (rule : QuotingRule) (name : String) : String :=
  match bareName? name.toList with
  | some bare => String.ofList (delimited d.identifierQuote bare)
  | none => d.quoteWith d.identifierQuote rule name

end Dialect

end BoundSql
