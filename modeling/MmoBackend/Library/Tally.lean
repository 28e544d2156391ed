import MmoBackend.Library.Heap
import Mathlib.Algebra.BigOperators.Group.Finset.Basic
import Mathlib.Algebra.Order.BigOperators.Group.Finset

/-!
# Sums over a heap

`Heap.tally f h` adds `f a v` over everything that is allocated.  Memory changes at one
pointer at a time, and then the sum changes by what this pointer adds.
-/

namespace MmoBackend
namespace Heap

variable {α : Type}

/-- What a pointer adds to a sum. -/
def share (f : ℕ → α → ℕ) (h : Heap α) (a : ℕ) : ℕ := (h.get a).elim 0 (f a)

/-- A sum over everything that is allocated. -/
def tally (f : ℕ → α → ℕ) (h : Heap α) : ℕ := ∑ a ∈ Finset.range h.next, h.share f a

variable {f f' : ℕ → α → ℕ} {h h' : Heap α} {a : ℕ} {u v : α}

theorem share_of_get (ha : h.get a = some u) : h.share f a = f a u := by
  rw [share, ha, Option.elim_some]

theorem share_of_get_none (ha : h.get a = none) : h.share f a = 0 := by
  rw [share, ha, Option.elim_none]

/-- **A change at one pointer** changes the sum by what the pointer adds. -/
theorem tally_change (hnext : h'.next = h.next)
    (hrest : ∀ b, b ≠ a → h'.share f' b = h.share f b) :
    h'.tally f' + h.share f a = h.tally f + h'.share f' a := by
  by_cases ha : a < h.next
  · have hmem : a ∈ Finset.range h.next := Finset.mem_range.mpr ha
    have hsum := Finset.add_sum_erase (Finset.range h.next) (h.share f) hmem
    have hsum' := Finset.add_sum_erase (Finset.range h.next) (h'.share f') hmem
    have herase : ∑ b ∈ (Finset.range h.next).erase a, h'.share f' b
        = ∑ b ∈ (Finset.range h.next).erase a, h.share f b :=
      Finset.sum_congr rfl fun b hb => hrest b (Finset.ne_of_mem_erase hb)
    rw [tally, tally, hnext]
    omega
  · have hzero : h.share f a = 0 := share_of_get_none (h.fresh a (Nat.le_of_not_lt ha))
    have hzero' : h'.share f' a = 0 :=
      share_of_get_none (h'.fresh a (hnext ▸ Nat.le_of_not_lt ha))
    rw [hzero, hzero', tally, tally, hnext]
    refine congrArg (· + 0) (Finset.sum_congr rfl fun b hb => hrest b ?_)
    rintro rfl
    exact ha (Finset.mem_range.mp hb)

theorem tally_set (ha : h.get a = some u) : (h.set a v).tally f + f a u = h.tally f + f a v := by
  have hchange : (h.set a v).tally f + h.share f a = h.tally f + (h.set a v).share f a :=
    tally_change rfl fun b hb => by rw [share, share, get_set_of_ne v hb]
  rwa [share_of_get ha, share_of_get (get_set_self v ha)] at hchange

theorem tally_free (ha : h.get a = some u) : (h.free a).tally f + f a u = h.tally f := by
  have hchange : (h.free a).tally f + h.share f a = h.tally f + (h.free a).share f a :=
    tally_change rfl fun b hb => congrArg (fun o => Option.elim o 0 (f b)) (if_neg hb)
  rwa [share_of_get ha, share_of_get_none (get_free_self h a), Nat.add_zero] at hchange

theorem tally_alloc (f : ℕ → α → ℕ) (h : Heap α) (v : α) :
    (h.alloc v).tally f = h.tally f + f h.next v := by
  rw [tally, show (h.alloc v).next = h.next + 1 from rfl, Finset.sum_range_succ,
    share_of_get (get_alloc_next h v)]
  refine congrArg (· + _) (Finset.sum_congr rfl fun b hb => ?_)
  rw [share, share, get_alloc, if_neg (Nat.ne_of_lt (Finset.mem_range.mp hb))]

theorem le_tally (ha : h.get a = some u) : f a u ≤ h.tally f := by
  have hmem : a ∈ Finset.range h.next := Finset.mem_range.mpr (lt_next ha)
  have hle := Finset.single_le_sum (f := h.share f) (fun _ _ => Nat.zero_le _) hmem
  rwa [share_of_get ha] at hle

theorem tally_eq_zero (hf : ∀ b u, h.get b = some u → f b u = 0) : h.tally f = 0 := by
  refine Finset.sum_eq_zero fun b _ => ?_
  cases hb : h.get b with
  | none => exact share_of_get_none hb
  | some u => exact (share_of_get hb).trans (hf b u hb)

theorem tally_map {β : Type} (φ : α → β) (f : ℕ → β → ℕ) (h : Heap α) :
    (h.map φ).tally f = h.tally fun a v => f a (φ v) := by
  refine Finset.sum_congr rfl fun b _ => ?_
  rw [share, share, get_map, Option.elim_map]
  rfl

theorem tally_mono (hf : ∀ b u, f b u ≤ f' b u) : h.tally f ≤ h.tally f' := by
  refine Finset.sum_le_sum fun b _ => ?_
  cases hb : h.get b with
  | none => rw [share_of_get_none hb, share_of_get_none hb]
  | some u =>
    rw [share_of_get hb, share_of_get hb]
    exact hf b u

end Heap
end MmoBackend
