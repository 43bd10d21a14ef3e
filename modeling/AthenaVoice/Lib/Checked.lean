import Mathlib.Algebra.BigOperators.Group.List.Basic
import Mathlib.Algebra.Order.Ring.Nat

/-
  Checked arithmetic — fixed-width integers that refuse to overflow

  A machine integer is its value. An operation whose result does not fit the
  width gives nothing, and so does a division by zero.

  What is proved:
    1. `unsigned_of_lt`, `signed_of_bounds`, `div_of_pos`, `sub_of_le` — what
       fits is the exact result.
    2. `sum_of_lt` — so is a sum whose total fits.
-/

namespace AthenaVoice.Lib.Checked

/-- An unsigned result of `w` bits. -/
def unsigned (w n : Nat) : Option Nat := if n < 2 ^ w then some n else none

/-- A signed result of `w` bits. -/
def signed (w : Nat) (n : Int) : Option Int := if -2 ^ (w - 1) ≤ n ∧ n < 2 ^ (w - 1) then some n else none

def div (a b : Nat) : Option Nat := if b = 0 then none else some (a / b)

def sub (a b : Nat) : Option Nat := if b ≤ a then some (a - b) else none

/-- A sum, added up from the left. -/
def sum (w : Nat) : Nat → List Nat → Option Nat
  | acc, [] => some acc
  | acc, x :: xs => (unsigned w (acc + x)).bind (fun acc => sum w acc xs)

theorem unsigned_of_lt {w n : Nat} (h : n < 2 ^ w) : unsigned w n = some n := if_pos h

theorem signed_of_bounds {w : Nat} {n : Int} (hlow : -2 ^ (w - 1) ≤ n) (hhigh : n < 2 ^ (w - 1)) :
    signed w n = some n :=
  if_pos ⟨hlow, hhigh⟩

theorem div_of_pos {a b : Nat} (h : 0 < b) : div a b = some (a / b) := if_neg (Nat.ne_of_gt h)

theorem sub_of_le {a b : Nat} (h : b ≤ a) : sub a b = some (a - b) := if_pos h

theorem sum_of_lt {w : Nat} : ∀ (xs : List Nat) (acc : Nat), acc + xs.sum < 2 ^ w →
    sum w acc xs = some (acc + xs.sum) := by
  intro xs
  induction xs with
  | nil => intro acc _; rfl
  | cons x xs ih =>
    intro acc h
    rw [List.sum_cons, ← Nat.add_assoc] at h
    have hfirst : acc + x < 2 ^ w := Nat.lt_of_le_of_lt (Nat.le_add_right _ _) h
    rw [sum, unsigned_of_lt hfirst, List.sum_cons, ← Nat.add_assoc]
    exact ih (acc + x) h

end AthenaVoice.Lib.Checked
