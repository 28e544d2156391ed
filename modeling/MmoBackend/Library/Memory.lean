import Mathlib.Data.List.Basic
import Mathlib.Data.List.GetD
import Mathlib.Tactic.Common

/-!
# Writing into a block of memory

A block of a fixed size is a list, and `poke k l` is the write of `l` at the offset `k`,
which is what `memcpy`, `memmove` and `memset` are.  A block is determined by its length
and by what is read at every offset, `ext_getD`, so to compare the results of several
writes it is enough to say what one write does to a read, `getD_poke`.

`pad n l` is a block of `n` elements that holds `l` and the default behind it.
-/

namespace MmoBackend
namespace Memory

variable {α : Type} {d : α} {k n j : ℕ} {l l' block : List α}

/-- Write `l` at the offset `k`. -/
def poke (k : ℕ) (l block : List α) : List α := block.take k ++ l ++ block.drop (k + l.length)

theorem length_poke (h : k + l.length ≤ block.length) : (poke k l block).length = block.length := by
  rw [poke, List.length_append, List.length_append, List.length_take, List.length_drop]
  omega

/-- What is read behind a write. -/
theorem getD_poke (h : k + l.length ≤ block.length) (j : ℕ) :
    (poke k l block).getD j d
      = if k ≤ j ∧ j < k + l.length then l.getD (j - k) d else block.getD j d := by
  have htake : (block.take k).length = k := by
    rw [List.length_take]
    omega
  have hfront : (block.take k ++ l).length = k + l.length := by rw [List.length_append, htake]
  rw [poke]
  rcases Nat.lt_or_ge j k with hlt | hge
  · rw [if_neg (by omega), List.getD_append _ _ _ _ (by omega),
      List.getD_append _ _ _ _ (by omega), List.getD_eq_getElem?_getD,
      List.getElem?_take_of_lt hlt, ← List.getD_eq_getElem?_getD]
  · rcases Nat.lt_or_ge j (k + l.length) with hlt | hge'
    · rw [if_pos ⟨hge, hlt⟩, List.getD_append _ _ _ _ (by omega),
        List.getD_append_right _ _ _ _ (by omega), htake]
    · rw [if_neg (by omega), List.getD_append_right _ _ _ _ (by omega), hfront,
        List.getD_eq_getElem?_getD, List.getElem?_drop, ← List.getD_eq_getElem?_getD]
      congr 1
      omega

/-- What is neither in a block nor written is not in the block behind the write. -/
theorem notMem_poke {a : α} (hl : a ∉ l) (hblock : a ∉ block) : a ∉ poke k l block := by
  rw [poke, List.mem_append, List.mem_append]
  rintro ((hmem | hmem) | hmem)
  · exact hblock (List.mem_of_mem_take hmem)
  · exact hl hmem
  · exact hblock (List.mem_of_mem_drop hmem)

/-- Blocks of one length are equal if they read the same everywhere. -/
theorem ext_getD (hlength : l.length = l'.length) (h : ∀ j, l.getD j d = l'.getD j d) : l = l' := by
  refine List.ext_getElem hlength fun j hj hj' => ?_
  rw [← List.getD_eq_getElem l d hj, ← List.getD_eq_getElem l' d hj', h j]

/-- A block of `n` elements that starts with `l`. -/
def pad (d : α) (n : ℕ) (l : List α) : List α := l ++ List.replicate (n - l.length) d

theorem length_pad (h : l.length ≤ n) : (pad d n l).length = n := by
  rw [pad, List.length_append, List.length_replicate]
  omega

theorem getD_pad (d : α) (n : ℕ) (l : List α) (j : ℕ) : (pad d n l).getD j d = l.getD j d := by
  rw [pad]
  rcases Nat.lt_or_ge j l.length with hlt | hge
  · rw [List.getD_append _ _ _ _ hlt]
  · rw [List.getD_append_right _ _ _ _ hge, List.getD_eq_default _ _ hge]
    rcases Nat.lt_or_ge (j - l.length) (n - l.length) with hlt | hge'
    · rw [List.getD_replicate _ hlt]
    · rw [List.getD_eq_default _ _ (by rw [List.length_replicate]; exact hge')]

/-- Where the default does not occur, a list is shorter than an offset exactly when the
default is read there. -/
theorem getD_ne (h : d ∉ l) (hj : j < l.length) : l.getD j d ≠ d := by
  rw [List.getD_eq_getElem l d hj]
  exact fun heq => h (heq ▸ List.getElem_mem hj)

end Memory
end MmoBackend
