import BoundSql.Text.Basic

/-!
# Text between quotes

Strings, delimited names and quoted attributes all end at the first quote that is not doubled.
-/

namespace BoundSql.Token

/-- What a backslash and the character after it stand for. -/
def unescape : Char → Char
  | 'n' => '\n'
  | 't' => '\t'
  | 'r' => '\r'
  | '0' => Char.ofNat 0
  | c => c

/-- Reads from behind an opening quote. The answer is the text meant, in which a doubled quote is
one quote and an escape one character, and the number of characters up to and including the closing
quote; there is none if the text ends first. -/
def quotedBody (quote : Char) (escapes : Bool) : List Char → Option (List Char × Nat)
  | [] => none
  | c :: cs =>
    if c = quote then
      match cs with
      | [] => some ([], 1)
      | d :: ds =>
        if d = quote then (quotedBody quote escapes ds).map fun (text, n) => (quote :: text, n + 2)
        else some ([], 1)
    else if escapes && c = '\\' then
      match cs with
      | [] => none
      | d :: ds => (quotedBody quote escapes ds).map fun (text, n) => (unescape d :: text, n + 2)
    else (quotedBody quote escapes cs).map fun (text, n) => (c :: text, n + 1)

end BoundSql.Token
