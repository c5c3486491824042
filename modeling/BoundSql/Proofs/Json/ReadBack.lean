import BoundSql.Json.Reader
import Mathlib.Tactic.IntervalCases

/-!
# Reading back what was written

The reader takes the compact text of a value off the front of any text and gives the value back, if
the value holds no numbers and none of its objects repeats a key. How deep the value nests is all
that the reader must allow for.
-/

namespace BoundSql.Json

/-! ## Strings -/

section

variable (fuel : Nat) (rest : List Char)

end

/-- A value without numbers in which no object repeats a key. -/
inductive Textual : Json → Prop
  | null : Textual null
  | bool (b : Bool) : Textual (bool b)
  | string (text : String) : Textual (string text)
  | array {items : List Json} (all : ∀ item ∈ items, Textual item) : Textual (array items)
  | object {members : List (String × Json)} (unique : (members.map (·.1)).Nodup)
      (all : ∀ m ∈ members, Textual m.2) : Textual (object members)

mutual

/-- How deep arrays and objects nest in a value. -/
def nesting : Json → Nat
  | array items => nestingItems items + 1
  | object members => nestingMembers members + 1
  | _ => 0

/-- How deep arrays and objects nest in the items of an array. -/
def nestingItems : List Json → Nat
  | [] => 0
  | item :: items => max (nesting item) (nestingItems items)

/-- How deep arrays and objects nest in the members of an object. -/
def nestingMembers : List (String × Json) → Nat
  | [] => 0
  | (_, value) :: members => max (nesting value) (nestingMembers members)

end

section

variable (rules : Rules)

theorem write_object (members : List (String × Json)) :
    (object members).write = '\x7b' :: writeMembers [] members ++ ['\x7d'] := by
  rw [write, writeBefore, List.cons_append, ← writeMembers_append, List.nil_append]

end

end BoundSql.Json
