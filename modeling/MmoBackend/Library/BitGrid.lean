import Mathlib.Data.List.Basic
import Mathlib.Data.List.GetD
import Mathlib.Tactic.NormNum

/-!
# A grid of bits, eight to a byte

A rectangle of bits stored row by row, the bit of column `x` being bit `x mod 8` of
byte `x div 8` of its row.  `bit` reads a bit and `setBit` writes one; both take any
coordinates, and reading outside the stored rows gives `none`.  A written bit is
read back (`bit_setBit_self`), and no other bit changes (`bit_setBit_of_ne`), so the
grid is a function from its cells to `Bool`.
-/

namespace MmoBackend
namespace BitGrid

/-- The bit of column `x`, within its byte. -/
def mask (x : ℕ) : BitVec 8 := BitVec.twoPow 8 (x % 8)

/-- The bit of column `x` in a byte. -/
def isSet (b : BitVec 8) (x : ℕ) : Bool := b.getLsbD (x % 8)

/-- A byte with the bit of column `x` switched. -/
def switch (on : Bool) (x : ℕ) (b : BitVec 8) : BitVec 8 :=
  if on then b ||| mask x else b &&& ~~~mask x

/-- Testing a byte with the mask of a column tests the bit of the column. -/
theorem and_mask_eq_zero_iff (b : BitVec 8) (x : ℕ) : b &&& mask x = 0 ↔ isSet b x = false := by
  have hx : x % 8 < 8 := Nat.mod_lt x (by decide)
  have hne : BitVec.twoPow 8 (x % 8) ≠ 0 := by
    intro h
    have hbit := congrArg (fun v : BitVec 8 => v.getLsbD (x % 8)) h
    simp [hx] at hbit
  rw [mask, isSet, BitVec.and_twoPow]
  split
  · rename_i hset
    exact iff_of_false hne (by simp [hset])
  · rename_i hset
    simpa using hset

theorem isSet_switch_self (on : Bool) (x : ℕ) (b : BitVec 8) : isSet (switch on x b) x = on := by
  have hx : x % 8 < 8 := Nat.mod_lt x (by decide)
  cases on <;> simp [isSet, switch, mask, hx]

theorem isSet_switch_of_ne {x x' : ℕ} (h : x' % 8 ≠ x % 8) (on : Bool) (b : BitVec 8) :
    isSet (switch on x b) x' = isSet b x' := by
  have hx' : x' % 8 < 8 := Nat.mod_lt x' (by decide)
  have hne : ¬x % 8 = x' % 8 := fun heq => h heq.symm
  have hmask : (BitVec.twoPow 8 (x % 8)).getLsbD (x' % 8) = false := by
    rw [BitVec.getLsbD_twoPow]
    simp [hne]
  cases on
  · simp only [isSet, switch, mask, Bool.false_eq_true, if_false, BitVec.getLsbD_and,
      BitVec.getLsbD_not, hmask, hx', decide_true, Bool.not_false, Bool.and_self, Bool.and_true]
  · simp only [isSet, switch, mask, if_true, BitVec.getLsbD_or, hmask, Bool.or_false]

/-- Rows of bytes. -/
abbrev Grid : Type := List (List (BitVec 8))

/-- The byte that stores the bit of column `x` in row `y`. -/
def byte (g : Grid) (x y : ℕ) : Option (BitVec 8) := g[y]?.bind fun row => row[x / 8]?

/-- The bit of column `x` in row `y`. -/
def bit (g : Grid) (x y : ℕ) : Option Bool := (byte g x y).map fun b => isSet b x

/-- The grid with the bit of column `x` in row `y` switched. -/
def setBit (on : Bool) (x y : ℕ) (g : Grid) : Grid :=
  g.modify y fun row => row.modify (x / 8) (switch on x)

/-- `h` rows of `n` bytes. -/
structure Shaped (n h : ℕ) (g : Grid) : Prop where
  rows : g.length = h
  bytes : ∀ row ∈ g, row.length = n

variable {g : Grid} {n h x y x' y' : ℕ}

/-- Inside the rectangle every bit is stored. -/
theorem bit_isSome (hg : Shaped n h g) (hx : x < 8 * n) (hy : y < h) :
    ∃ b, bit g x y = some b := by
  have hy' : y < g.length := hg.rows ▸ hy
  have hx' : x / 8 < g[y].length := by
    rw [hg.bytes _ (List.getElem_mem hy')]
    omega
  refine ⟨isSet g[y][x / 8] x, ?_⟩
  rw [bit, byte, List.getElem?_eq_getElem hy', Option.bind_some, List.getElem?_eq_getElem hx',
    Option.map_some]

theorem byte_setBit (on : Bool) (x y x' y' : ℕ) (g : Grid) :
    byte (setBit on x y g) x' y'
      = (byte g x' y').map fun b => if y = y' ∧ x / 8 = x' / 8 then switch on x b else b := by
  rw [byte, byte, setBit, List.getElem?_modify]
  cases hrow : g[y']? with
  | none => rfl
  | some row =>
    simp only [Option.map_eq_map, Option.map_some, Option.bind_some]
    by_cases hy : y = y'
    · rw [if_pos hy, List.getElem?_modify]
      cases row[x' / 8]? with
      | none => rfl
      | some b =>
        simp only [Option.map_eq_map, Option.map_some]
        by_cases hx : x / 8 = x' / 8
        · rw [if_pos hx, if_pos ⟨hy, hx⟩]
        · rw [if_neg hx, if_neg fun hboth => hx hboth.2]
    · rw [if_neg hy]
      cases row[x' / 8]? with
      | none => rfl
      | some b => rw [Option.map_some, if_neg fun hboth => hy hboth.1]

/-- A bit that is stored is read back as it was written. -/
theorem bit_setBit_self {b : Bool} (hb : bit g x y = some b) (on : Bool) :
    bit (setBit on x y g) x y = some on := by
  obtain ⟨v, hv, -⟩ := Option.map_eq_some_iff.mp hb
  rw [bit, byte_setBit, hv, Option.map_some, Option.map_some, if_pos ⟨rfl, rfl⟩,
    isSet_switch_self]

/-- No other bit changes. -/
theorem bit_setBit_of_ne (hne : x ≠ x' ∨ y ≠ y') (on : Bool) :
    bit (setBit on x y g) x' y' = bit g x' y' := by
  rw [bit, bit, byte_setBit, Option.map_map]
  congr 1
  funext b
  dsimp only [Function.comp_apply]
  split
  · rename_i hboth
    have hmod : x' % 8 ≠ x % 8 := by
      intro hmod
      rcases hne with hne | hne
      · have h₁ := Nat.div_add_mod x 8
        have h₂ := Nat.div_add_mod x' 8
        omega
      · exact hne hboth.1
    exact isSet_switch_of_ne hmod on b
  · rfl

/-- Writing keeps the shape. -/
theorem shaped_setBit (hg : Shaped n h g) (on : Bool) (x y : ℕ) : Shaped n h (setBit on x y g) := by
  refine ⟨by rw [setBit, List.length_modify, hg.rows], fun row hrow => ?_⟩
  rw [setBit] at hrow
  obtain ⟨i, hi, rfl⟩ := List.mem_iff_getElem.mp hrow
  rw [List.length_modify] at hi
  rw [List.getElem_modify]
  split
  · rw [List.length_modify]
    exact hg.bytes _ (List.getElem_mem hi)
  · exact hg.bytes _ (List.getElem_mem hi)

end BitGrid
end MmoBackend
