import Mathlib.Algebra.Order.Group.Unbundled.Int
import Mathlib.Tactic.SplitIfs
import MmoBackend.Player.Movement

/-!
# The distance a move is checked by

The target of a move is what the client sent, any two 32-bit numbers.  The two differences of
`movement_count_distance` can be twice as large as an `int`, and their sum four times.  What
the code computes is the exact distance reduced to 32 bits, `movementCountDistance_eq_wrap32`,
so what it takes for the distance of a far target is a negative number or a small one.

The last two results say when this happens and when it matters.  No operator overflows if and
only if the exact distance is below `2 ^ 31`.  From there on the check errs, except on a part
of the distances from `2 ^ 32` on, where the distance has wrapped around to a number that is
still above the bound.
-/

namespace MmoBackend
namespace Player

/-- A value of type `int`. -/
def IsInt32 (n : ℤ) : Prop := -2 ^ 31 ≤ n ∧ n < 2 ^ 31

instance : DecidablePred IsInt32 := fun n =>
  inferInstanceAs (Decidable (-2 ^ 31 ≤ n ∧ n < 2 ^ 31))

/-- The exact distance of two points, in steps along the axes. -/
def manhattan (x₁ y₁ x₂ y₂ : ℤ) : ℤ := |x₂ - x₁| + |y₂ - y₁|

/-- The exact values of the three operators that `movement_count_distance` evaluates: the two
differences it chooses, and their sum. -/
def distanceSteps (x₁ y₁ x₂ y₂ : ℤ) : List ℤ :=
  let xDist := if x₂ < x₁ then x₁ - x₂ else x₂ - x₁
  let yDist := if y₂ < y₁ then y₁ - y₂ else y₂ - y₁
  [xDist, yDist, xDist + yDist]

variable {max n x₁ y₁ x₂ y₂ : ℤ}

/-! ## 32 bits -/

/-- A number that fits into 32 bits does not wrap. -/
theorem wrap32_eq {n : ℤ} (hle : -2 ^ 31 ≤ n) (hlt : n < 2 ^ 31) : wrap32 n = n :=
  Int.bmod_eq_of_le (by omega) (by omega)

/-- Reducing the parts of a sum first makes no difference. -/
theorem wrap32_add (a b : ℤ) : wrap32 (wrap32 a + wrap32 b) = wrap32 (a + b) := by
  simp [wrap32]

/-- A number that is reduced fits into 32 bits. -/
theorem isInt32_wrap32 (n : ℤ) : IsInt32 (wrap32 n) := by
  have hle := Int.le_bmod (x := n) (m := 2 ^ 32) (by decide)
  have hlt := Int.bmod_lt (x := n) (m := 2 ^ 32) (by decide)
  constructor
  · show -2 ^ 31 ≤ Int.bmod n (2 ^ 32)
    omega
  · show Int.bmod n (2 ^ 32) < 2 ^ 31
    omega

/-- A sum of two differences, in the four ranges it can lie in. -/
theorem wrap32_of_nonneg (hn : 0 ≤ n) (hlt : n < 2 ^ 33) :
    wrap32 n = if n < 2 ^ 31 then n else if n < 2 ^ 32 + 2 ^ 31 then n - 2 ^ 32
      else n - 2 ^ 33 := by
  rw [wrap32, Int.bmod_def]
  split_ifs <;> omega

/-! ## The distance -/

/-- The larger number minus the smaller one. -/
theorem dist_eq_abs (a b : ℤ) : (if b < a then a - b else b - a) = |b - a| := by
  split
  · rw [abs_of_neg (by omega), neg_sub]
  · rw [abs_of_nonneg (by omega)]

/-- **What the code computes** is the exact distance, reduced to 32 bits. -/
theorem movementCountDistance_eq_wrap32 :
    movementCountDistance x₁ y₁ x₂ y₂ = wrap32 (manhattan x₁ y₁ x₂ y₂) := by
  have hwrap : ∀ a b : ℤ, (if b < a then wrap32 (a - b) else wrap32 (b - a)) = wrap32 |b - a| :=
    fun a b => by rw [← apply_ite wrap32, dist_eq_abs]
  rw [movementCountDistance, hwrap, hwrap, wrap32_add, manhattan]

theorem manhattan_nonneg : 0 ≤ manhattan x₁ y₁ x₂ y₂ := add_nonneg (abs_nonneg _) (abs_nonneg _)

/-- Two points with 32-bit coordinates are not farther apart than this. -/
theorem manhattan_lt (hx₁ : IsInt32 x₁) (hy₁ : IsInt32 y₁) (hx₂ : IsInt32 x₂)
    (hy₂ : IsInt32 y₂) : manhattan x₁ y₁ x₂ y₂ < 2 ^ 33 - 1 := by
  have hdiff : ∀ {a b : ℤ}, IsInt32 a → IsInt32 b → |b - a| < 2 ^ 32 := by
    rintro a b ⟨hale, halt⟩ ⟨hble, hblt⟩
    exact abs_lt.mpr ⟨by omega, by omega⟩
  have hx := hdiff hx₁ hx₂
  have hy := hdiff hy₁ hy₂
  rw [manhattan]
  omega

/-- A distance that fits is computed exactly. -/
theorem movementCountDistance_of_lt (h : manhattan x₁ y₁ x₂ y₂ < 2 ^ 31) :
    movementCountDistance x₁ y₁ x₂ y₂ = manhattan x₁ y₁ x₂ y₂ := by
  have hnonneg : 0 ≤ manhattan x₁ y₁ x₂ y₂ := manhattan_nonneg
  rw [movementCountDistance_eq_wrap32, wrap32_eq (by omega) h]

/-- The operators do not overflow if the last one does not. -/
theorem distanceSteps_fit_iff :
    (∀ n ∈ distanceSteps x₁ y₁ x₂ y₂, IsInt32 n) ↔ manhattan x₁ y₁ x₂ y₂ < 2 ^ 31 := by
  have hx := abs_nonneg (x₂ - x₁)
  have hy := abs_nonneg (y₂ - y₁)
  simp only [distanceSteps, dist_eq_abs, manhattan, List.forall_mem_cons, IsInt32]
  constructor
  · rintro ⟨-, -, hsum, -⟩
    exact hsum.2
  · intro hsum
    refine ⟨by omega, by omega, by omega, ?_⟩
    simp

/-! ## The check -/

/-- The check compares with what is left of the distance in 32 bits. -/
theorem movementCheckValid_iff :
    movementCheckValid max x₁ y₁ x₂ y₂ = true ↔ wrap32 (manhattan x₁ y₁ x₂ y₂) ≤ max := by
  rw [movementCheckValid, decide_eq_true_iff, movementCountDistance_eq_wrap32]

/-- **When the verdict is right.**  The distances between `2 ^ 31` and `2 ^ 32` and those from
`2 ^ 32 + 2 ^ 31` on wrap to negative numbers, so every such move passes. -/
theorem movementCheckValid_right_iff (hx₁ : IsInt32 x₁) (hy₁ : IsInt32 y₁) (hx₂ : IsInt32 x₂)
    (hy₂ : IsInt32 y₂) (hmax : 0 ≤ max) (hint : IsInt32 max) :
    (movementCheckValid max x₁ y₁ x₂ y₂ = true ↔ manhattan x₁ y₁ x₂ y₂ ≤ max) ↔
      manhattan x₁ y₁ x₂ y₂ < 2 ^ 31 ∨
        2 ^ 32 + max < manhattan x₁ y₁ x₂ y₂ ∧ manhattan x₁ y₁ x₂ y₂ < 2 ^ 32 + 2 ^ 31 := by
  have hnonneg : 0 ≤ manhattan x₁ y₁ x₂ y₂ := manhattan_nonneg
  have hlt := manhattan_lt hx₁ hy₁ hx₂ hy₂
  have hint := hint.2
  rw [movementCheckValid_iff, wrap32_of_nonneg hnonneg (by omega)]
  split_ifs <;> omega

/-- **When the check is exact**: no operator overflows and the verdict is the right one, if and
only if the two points are less than `2 ^ 31` apart. -/
theorem movementCheckValid_exact_iff (hx₁ : IsInt32 x₁) (hy₁ : IsInt32 y₁) (hx₂ : IsInt32 x₂)
    (hy₂ : IsInt32 y₂) (hmax : 0 ≤ max) (hint : IsInt32 max) :
    ((∀ n ∈ distanceSteps x₁ y₁ x₂ y₂, IsInt32 n) ∧
        (movementCheckValid max x₁ y₁ x₂ y₂ = true ↔ manhattan x₁ y₁ x₂ y₂ ≤ max)) ↔
      manhattan x₁ y₁ x₂ y₂ < 2 ^ 31 := by
  rw [distanceSteps_fit_iff, movementCheckValid_right_iff hx₁ hy₁ hx₂ hy₂ hmax hint]
  exact ⟨And.left, fun h => ⟨h, Or.inl h⟩⟩

theorem movementCheckValid_exact_iff_near :
    (∀ n ∈ distanceSteps 3 4 4 4, IsInt32 n) ∧
      (movementCheckValid 1 3 4 4 4 = true ↔ manhattan 3 4 4 4 ≤ 1) :=
  (movementCheckValid_exact_iff (by decide) (by decide) (by decide) (by decide) (by decide)
    (by decide)).mpr (by decide)

/-- A client asks for a cell `2 ^ 30` steps away along both axes, and passes. -/
theorem movementCheckValid_not_exact :
    ¬∀ max x₁ y₁ x₂ y₂ : ℤ, IsInt32 x₁ → IsInt32 y₁ → IsInt32 x₂ → IsInt32 y₂ → 0 ≤ max →
      IsInt32 max → (∀ n ∈ distanceSteps x₁ y₁ x₂ y₂, IsInt32 n) ∧
        (movementCheckValid max x₁ y₁ x₂ y₂ = true ↔ manhattan x₁ y₁ x₂ y₂ ≤ max) := by
  intro h
  have hfar := h 1 0 0 (2 ^ 30) (2 ^ 30) (by decide) (by decide) (by decide) (by decide)
    (by decide) (by decide)
  revert hfar
  decide

end Player
end MmoBackend
