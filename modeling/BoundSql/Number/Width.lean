/-!
# Widths of integers

Which integers fit in words of a given number of bits.
-/

namespace BoundSql

/-- Whether an integer fits in a signed word. -/
def fitsSigned (bits : Nat) (n : Int) : Bool :=
  -(Nat.pow 2 (bits - 1) : Int) ≤ n && n < (Nat.pow 2 (bits - 1) : Int)

/-- Whether an integer fits in an unsigned word. -/
def fitsUnsigned (bits : Nat) (n : Int) : Bool :=
  0 ≤ n && n < (Nat.pow 2 bits : Int)

end BoundSql
