import Mathlib.Algebra.Ring.Nat
import Mathlib.Data.Int.Basic

/-!
# `movement.c`: how far a player may move

The distance of two cells is the sum of the differences of their coordinates,
computed in 32-bit arithmetic.
-/

namespace MmoBackend
namespace Player

/-- The value of an `int` expression whose exact value is `n`. -/
def wrap32 (n : ℤ) : ℤ := Int.bmod n (2 ^ 32)

/-- `movement_count_distance`. -/
def movementCountDistance (x₁ y₁ x₂ y₂ : ℤ) : ℤ :=
  let xDist := if x₂ < x₁ then wrap32 (x₁ - x₂) else wrap32 (x₂ - x₁)
  let yDist := if y₂ < y₁ then wrap32 (y₁ - y₂) else wrap32 (y₂ - y₁)
  wrap32 (xDist + yDist)

/-- `movement_check_valid`. -/
def movementCheckValid (max x₁ y₁ x₂ y₂ : ℤ) : Bool := movementCountDistance x₁ y₁ x₂ y₂ ≤ max

end Player
end MmoBackend
