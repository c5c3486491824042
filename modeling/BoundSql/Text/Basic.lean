import BoundSql.Text.CharClass

/-!
# Texts as lists of characters

Lexical rules are stated over `List Char`; this module holds the few list functions they share:
the size in UTF-8, removing blanks at the ends, comparison without regard to ASCII case, and
searching.
-/

namespace BoundSql.Text

/-- The size of a text in UTF-8. -/
def byteLength : List Char → Nat
  | [] => 0
  | c :: cs => c.utf8Size + byteLength cs

@[simp] theorem byteLength_append (a b : List Char) :
    byteLength (a ++ b) = byteLength a + byteLength b := by
  induction a with
  | nil => simp [byteLength]
  | cons c cs ih => simp [byteLength, ih, Nat.add_assoc]

/-- The text without the blanks it starts with. -/
def trimStart (cs : List Char) : List Char :=
  cs.dropWhile isBlank

/-- The text without the blanks it ends with. -/
def trimEnd (cs : List Char) : List Char :=
  (cs.reverse.dropWhile isBlank).reverse

/-- The text without the blanks at either end. -/
def trim (cs : List Char) : List Char :=
  trimEnd (trimStart cs)

/-- The text in upper case; only ASCII letters change. -/
def upper (cs : List Char) : List Char :=
  cs.map Char.toUpper

/-- Equality up to the case of ASCII letters. -/
def sameWord (a b : List Char) : Bool :=
  upper a == upper b

/-- Whether `part` opens the text. -/
def opens : List Char → List Char → Bool
  | [], _ => true
  | _ :: _, [] => false
  | p :: ps, c :: cs => p == c && opens ps cs

theorem opens_iff {part cs : List Char} : opens part cs = true ↔ ∃ rest, cs = part ++ rest := by
  induction part generalizing cs with
  | nil => simp [opens]
  | cons p ps ih =>
    cases cs with
    | nil => simp [opens]
    | cons c cs =>
      simp only [opens, Bool.and_eq_true, beq_iff_eq, ih, List.cons_append, List.cons.injEq]
      constructor
      · rintro ⟨rfl, rest, rfl⟩; exact ⟨rest, rfl, rfl⟩
      · rintro ⟨rest, h, h'⟩; exact ⟨h.symm, rest, h'⟩

/-- How many characters stand before the first occurrence of `part`, if there is one. -/
def find? (part : List Char) : List Char → Option Nat
  | [] => if part.isEmpty then some 0 else none
  | c :: cs => if opens part (c :: cs) then some 0 else (find? part cs).map (· + 1)

/-- The pieces of the text between single occurrences of `sep`. -/
def splitAt (sep : Char) : List Char → List (List Char)
  | [] => [[]]
  | c :: cs =>
    if c = sep then [] :: splitAt sep cs
    else match splitAt sep cs with
      | [] => [[c]]
      | first :: others => (c :: first) :: others

/-- The longest runs of characters that are not blank. -/
def words : List Char → List (List Char)
  | [] => []
  | c :: cs =>
    if isBlank c then words cs
    else match cs with
      | [] => [[c]]
      | d :: _ =>
        if isBlank d then [c] :: words cs
        else match words cs with
          | [] => [[c]]
          | first :: others => (c :: first) :: others

/-- The text between two byte offsets. It is empty when the offsets are out of order, out of range
or inside a character. -/
def slice (cs : List Char) (start stop : Nat) : List Char :=
  if stop < start then []
  else ((dropBytes start cs).bind (takeBytes (stop - start))).getD []
where
  /-- The text from a byte offset on, if a character starts there or the text ends there. -/
  dropBytes : Nat → List Char → Option (List Char)
    | 0, cs => some cs
    | _ + 1, [] => none
    | n + 1, c :: cs => if c.utf8Size ≤ n + 1 then dropBytes (n + 1 - c.utf8Size) cs else none
  /-- The first bytes of the text, if they are whole characters. -/
  takeBytes : Nat → List Char → Option (List Char)
    | 0, _ => some []
    | _ + 1, [] => none
    | n + 1, c :: cs =>
      if c.utf8Size ≤ n + 1 then (takeBytes (n + 1 - c.utf8Size) cs).map (c :: ·) else none

end BoundSql.Text
