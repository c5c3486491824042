import Mathlib.Algebra.FreeMonoid.Basic
import Mathlib.Algebra.Order.Monoid.Unbundled.Basic

/-!
# Ordered sequences

Two ways in which sequences can be compared as what texts are worth: `Kept` sequences are less if
they are left when some items go, `Exact` sequences are comparable only if they are equal.
-/

namespace BoundSql

/-- Sequences, of which one is less if it is left when some items of the other go. -/
def Kept (α : Type) : Type := List α

/-- Sequences of which only equal ones are comparable. -/
def Exact (α : Type) : Type := List α

variable {α : Type}

namespace Kept

instance : AddMonoid (Kept α) := inferInstanceAs (AddMonoid (FreeAddMonoid α))

instance : Preorder (Kept α) where
  le := List.Sublist
  le_refl := List.Sublist.refl
  le_trans _ _ _ := List.Sublist.trans

instance : AddLeftMono (Kept α) := ⟨fun xs _ _ h => List.Sublist.append_left h xs⟩

instance : AddRightMono (Kept α) := ⟨fun xs _ _ h => List.Sublist.append_right h xs⟩

theorem zero_le (xs : Kept α) : 0 ≤ xs := List.nil_sublist xs

/-- The item that there is, if there is one. -/
def ofOption (o : Option α) : Kept α := o.toList

@[simp] theorem ofOption_none : ofOption (none : Option α) = 0 := rfl

/-- The items of a list. -/
def ofList (xs : List α) : Kept α := xs

theorem ofList_append (xs ys : List α) : ofList (xs ++ ys) = ofList xs + ofList ys := rfl

end Kept

namespace Exact

instance : AddMonoid (Exact α) := inferInstanceAs (AddMonoid (FreeAddMonoid α))

instance : Preorder (Exact α) where
  le xs ys := xs = ys
  le_refl _ := rfl
  le_trans _ _ _ := Eq.trans

instance : AddLeftMono (Exact α) := ⟨fun xs _ _ h => congrArg (xs + ·) h⟩

instance : AddRightMono (Exact α) := ⟨fun xs _ _ h => congrArg (· + xs) h⟩

/-- The items of a list. -/
def ofList (xs : List α) : Exact α := xs

theorem ofList_append (xs ys : List α) : ofList (xs ++ ys) = ofList xs + ofList ys := rfl

end Exact

end BoundSql
