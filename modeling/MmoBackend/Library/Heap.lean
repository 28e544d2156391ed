import Mathlib.Data.Nat.Basic
import Mathlib.Data.Option.Basic

/-!
# Memory that is allocated and freed

A heap holds values of one type under numbers, the pointers.  Allocation hands out a
number that was never used before, so a pointer to freed memory stays one.  Writing
through a pointer that is not allocated does nothing; code that must not do this
reads first.
-/

namespace MmoBackend

/-- A heap.  No number from `next` on is in use. -/
structure Heap (α : Type) where
  cells : ℕ → Option α
  next : ℕ
  fresh : ∀ a, next ≤ a → cells a = none

namespace Heap

variable {α : Type}

/-- Nothing is allocated. -/
def empty : Heap α := ⟨fun _ => none, 0, fun _ _ => rfl⟩

/-- The value a pointer points to. -/
def get (h : Heap α) (a : ℕ) : Option α := h.cells a

/-- Allocate `v`, at `h.next`. -/
def alloc (h : Heap α) (v : α) : Heap α where
  cells a := if a = h.next then some v else h.cells a
  next := h.next + 1
  fresh a ha := by
    rw [if_neg (Nat.ne_of_gt ha)]
    exact h.fresh a (Nat.le_of_succ_le ha)

/-- Write through a pointer. -/
def set (h : Heap α) (a : ℕ) (v : α) : Heap α where
  cells b := if b = a then (h.cells a).map fun _ => v else h.cells b
  next := h.next
  fresh b hb := by
    split
    · rename_i hba
      rw [← hba, h.fresh b hb]
      rfl
    · exact h.fresh b hb

/-- Free what a pointer points to. -/
def free (h : Heap α) (a : ℕ) : Heap α where
  cells b := if b = a then none else h.cells b
  next := h.next
  fresh b hb := by
    split
    · rfl
    · exact h.fresh b hb

variable (h : Heap α) {a b : ℕ} {u v : α}

@[simp] theorem get_empty (a : ℕ) : (empty : Heap α).get a = none := rfl

@[simp] theorem get_next : h.get h.next = none := h.fresh h.next (Nat.le_refl _)

theorem get_alloc (v : α) (a : ℕ) :
    (h.alloc v).get a = if a = h.next then some v else h.get a := rfl

theorem get_set (a : ℕ) (v : α) (b : ℕ) :
    (h.set a v).get b = if b = a then (h.get a).map fun _ => v else h.get b := rfl

@[simp] theorem get_alloc_next (v : α) : (h.alloc v).get h.next = some v := if_pos rfl

@[simp] theorem get_free_self (a : ℕ) : (h.free a).get a = none := if_pos rfl

theorem get_free_of_ne (hne : b ≠ a) : (h.free a).get b = h.get b := if_neg hne

variable {h}

theorem lt_next (ha : h.get a = some u) : a < h.next := by
  by_contra hlt
  exact absurd ((h.fresh a (Nat.le_of_not_lt hlt)).symm.trans ha).symm (Option.some_ne_none u)

theorem ne_next (ha : h.get a = some v) : a ≠ h.next := by
  rintro rfl
  rw [get_next] at ha
  exact absurd ha.symm (Option.some_ne_none v)

theorem get_alloc_of_get (u : α) (ha : h.get a = some v) : (h.alloc u).get a = some v := by
  rw [get_alloc, if_neg (ne_next ha), ha]

/-- What is there after an allocation is new or was there before. -/
theorem get_alloc_eq_some (h' : (h.alloc v).get a = some u) :
    a = h.next ∧ u = v ∨ a ≠ h.next ∧ h.get a = some u := by
  rw [get_alloc] at h'
  split at h'
  · rename_i ha
    exact Or.inl ⟨ha, (Option.some.inj h').symm⟩
  · rename_i ha
    exact Or.inr ⟨ha, h'⟩

theorem get_set_self (v : α) (ha : h.get a = some u) : (h.set a v).get a = some v := by
  rw [get_set, if_pos rfl, ha]
  rfl

theorem get_set_of_ne (v : α) (hne : b ≠ a) : (h.set a v).get b = h.get b := if_neg hne

/-- A write that keeps a part of the value keeps that part everywhere. -/
theorem map_get_set {β : Type} {f : α → β} (ha : h.get a = some u) (hf : f v = f u) (b : ℕ) :
    ((h.set a v).get b).map f = (h.get b).map f := by
  by_cases hba : b = a
  · rw [hba, get_set_self v ha, ha, Option.map_some, Option.map_some, hf]
  · rw [get_set_of_ne v hba]

/-- Writing what is there already changes nothing. -/
theorem set_eq_self (ha : h.get a = some v) : h.set a v = h := by
  obtain ⟨cells, next, fresh⟩ := h
  have hcells : (fun b => if b = a then (cells a).map fun _ => v else cells b) = cells := by
    funext b
    split
    · rename_i hba
      rw [hba]
      show (cells a).map _ = cells a
      rw [show cells a = some v from ha]
      rfl
    · rfl
  simp only [set, hcells]

/-- Writing to memory that was just allocated. -/
theorem set_alloc (h : Heap α) (u v : α) : (h.alloc u).set h.next v = h.alloc v := by
  obtain ⟨cells, next, fresh⟩ := h
  simp only [set, alloc, mk.injEq, and_true]
  funext b
  split
  · rw [if_pos trivial]
    rfl
  · rfl

/-- Two writes through one pointer. -/
theorem set_set (h : Heap α) (a : ℕ) (u v : α) : (h.set a u).set a v = h.set a v := by
  obtain ⟨cells, next, fresh⟩ := h
  simp only [set, mk.injEq, and_true]
  funext b
  split
  · rw [if_pos trivial]
    cases cells a <;> rfl
  · rfl

/-- Writes through two pointers. -/
theorem set_comm (h : Heap α) (hne : a ≠ b) (u v : α) :
    (h.set a u).set b v = (h.set b v).set a u := by
  obtain ⟨cells, next, fresh⟩ := h
  simp only [set, mk.injEq, and_true, if_neg hne, if_neg hne.symm]
  funext c
  by_cases hca : c = a
  · rw [if_pos hca, if_pos hca, if_neg (hca ▸ hne)]
  · rw [if_neg hca, if_neg hca]

/-! ## A view of every value -/

/-- The heap of what `f` makes of the values. -/
def map {β : Type} (f : α → β) (h : Heap α) : Heap β where
  cells a := (h.cells a).map f
  next := h.next
  fresh a ha := by
    rw [h.fresh a ha]
    rfl

section View

variable {β : Type} (f : α → β) (h : Heap α)

@[simp] theorem get_map (a : ℕ) : (h.map f).get a = (h.get a).map f := rfl

@[simp] theorem next_map : (h.map f).next = h.next := rfl

theorem map_set (a : ℕ) (v : α) : (h.set a v).map f = (h.map f).set a (f v) := by
  obtain ⟨cells, next, fresh⟩ := h
  simp only [map, set, mk.injEq, and_true]
  funext b
  split
  · cases cells a <;> rfl
  · rfl

theorem map_alloc (v : α) : (h.alloc v).map f = (h.map f).alloc (f v) := by
  obtain ⟨cells, next, fresh⟩ := h
  simp only [map, alloc, mk.injEq, and_true]
  exact funext fun b => apply_ite (Option.map f) _ _ _

theorem map_free (a : ℕ) : (h.free a).map f = (h.map f).free a := by
  obtain ⟨cells, next, fresh⟩ := h
  simp only [map, free, mk.injEq, and_true]
  exact funext fun b => apply_ite (Option.map f) _ _ _

end View

end Heap
end MmoBackend
