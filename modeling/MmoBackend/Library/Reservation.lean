import Mathlib.Data.Set.Insert
import Mathlib.Data.Set.Lattice
import Mathlib.Logic.Function.Basic
import Mathlib.Order.CompletePartialOrder

/-!
# Cells that are taken, and who holds them

A set of cells is marked as taken.  Some of them are taken for good; every other one
is held by exactly one of several holders, each of whom may hold any number of
cells.  A holder acquires a cell that is not taken, and releases a cell that it
holds.  It need not do the one before the other: what matters is that the marks and
the holdings agree, and that holdings never overlap.  `Consistent` is that, and
`Consistent.acquire` and `Consistent.release` say that both operations keep it.

Nothing here depends on how the marks are stored or on when a holder looks at them.
Code in which several parties reserve cells of a shared grid is correct as soon as
each of its steps is one of the two operations or none.
-/

namespace MmoBackend

variable {P C : Type}

/-- The cells that are taken, and the cells each holder holds. -/
@[ext]
structure Reservation (P C : Type) where
  blocked : Set C
  held : P → Set C

namespace Reservation

/-- The taken cells are those of `fixed` and those that are held, and no cell is
taken twice. -/
structure Consistent (fixed : Set C) (r : Reservation P C) : Prop where
  blocked_eq : r.blocked = fixed ∪ ⋃ p, r.held p
  disjoint : ∀ p q, p ≠ q → Disjoint (r.held p) (r.held q)
  disjoint_fixed : ∀ p, Disjoint fixed (r.held p)

/-- `p` takes the cell `c`. -/
def acquire [DecidableEq P] (p : P) (c : C) (r : Reservation P C) : Reservation P C where
  blocked := insert c r.blocked
  held := Function.update r.held p (insert c (r.held p))

/-- `p` gives the cell `c` back. -/
def release [DecidableEq P] (p : P) (c : C) (r : Reservation P C) : Reservation P C where
  blocked := r.blocked \ {c}
  held := Function.update r.held p (r.held p \ {c})

theorem Consistent.mem_blocked {fixed : Set C} {r : Reservation P C} (h : r.Consistent fixed)
    {c : C} : c ∈ r.blocked ↔ c ∈ fixed ∨ ∃ p, c ∈ r.held p := by
  rw [h.blocked_eq, Set.mem_union, Set.mem_iUnion]

theorem Consistent.held_subset {fixed : Set C} {r : Reservation P C} (h : r.Consistent fixed)
    (p : P) : r.held p ⊆ r.blocked :=
  fun _ hc => h.mem_blocked.mpr (Or.inr ⟨p, hc⟩)

section Update

variable [DecidableEq P] (p q : P) (c : C) (r : Reservation P C)

@[simp] theorem blocked_acquire : (r.acquire p c).blocked = insert c r.blocked := rfl

@[simp] theorem blocked_release : (r.release p c).blocked = r.blocked \ {c} := rfl

theorem held_acquire :
    (r.acquire p c).held q = if q = p then insert c (r.held p) else r.held q :=
  Function.update_apply _ _ _ _

theorem held_release :
    (r.release p c).held q = if q = p then r.held p \ {c} else r.held q :=
  Function.update_apply _ _ _ _

end Update

variable [DecidableEq P]

/-- **Acquiring a free cell keeps the holdings apart.** -/
theorem Consistent.acquire {fixed : Set C} {r : Reservation P C} (h : r.Consistent fixed)
    (p : P) {c : C} (hc : c ∉ r.blocked) : (r.acquire p c).Consistent fixed := by
  have hheld : ∀ q, c ∉ r.held q := fun q hq => hc (h.held_subset q hq)
  have hfixed : c ∉ fixed := fun hf => hc (h.mem_blocked.mpr (Or.inl hf))
  refine ⟨?_, ?_, ?_⟩
  · ext d
    rw [blocked_acquire, Set.mem_insert_iff, h.mem_blocked, Set.mem_union, Set.mem_iUnion]
    constructor
    · rintro (rfl | hd | ⟨q, hq⟩)
      · exact Or.inr ⟨p, by rw [held_acquire, if_pos rfl]; exact Set.mem_insert _ _⟩
      · exact Or.inl hd
      · refine Or.inr ⟨q, ?_⟩
        rw [held_acquire]
        split
        · rename_i heq
          exact Set.mem_insert_of_mem _ (heq ▸ hq)
        · exact hq
    · rintro (hd | ⟨q, hq⟩)
      · exact Or.inr (Or.inl hd)
      · rw [held_acquire] at hq
        split at hq
        · exact (Set.mem_insert_iff.mp hq).imp_right fun hd => Or.inr ⟨p, hd⟩
        · exact Or.inr (Or.inr ⟨q, hq⟩)
  · intro q q' hne
    rw [held_acquire, held_acquire]
    split
    · rename_i hq
      rw [if_neg fun hq' => hne (hq.trans hq'.symm), Set.disjoint_insert_left]
      exact ⟨hheld q', h.disjoint p q' (hq ▸ hne)⟩
    · split
      · rename_i hq'
        rw [Set.disjoint_insert_right]
        exact ⟨hheld q, h.disjoint q p (hq' ▸ hne)⟩
      · exact h.disjoint q q' hne
  · intro q
    rw [held_acquire]
    split
    · rw [Set.disjoint_insert_right]
      exact ⟨hfixed, h.disjoint_fixed p⟩
    · exact h.disjoint_fixed q

/-- **Releasing a cell one holds keeps the marks and the holdings together.** -/
theorem Consistent.release {fixed : Set C} {r : Reservation P C} (h : r.Consistent fixed)
    {p : P} {c : C} (hc : c ∈ r.held p) : (r.release p c).Consistent fixed := by
  have hsub : ∀ q, (r.release p c).held q ⊆ r.held q := by
    intro q
    rw [held_release]
    split
    · rename_i hq
      exact hq ▸ Set.sdiff_subset
    · exact subset_refl _
  refine ⟨?_, fun q q' hne => (h.disjoint q q' hne).mono (hsub q) (hsub q'),
    fun q => (h.disjoint_fixed q).mono_right (hsub q)⟩
  ext d
  rw [blocked_release, Set.mem_sdiff, Set.mem_singleton_iff, h.mem_blocked, Set.mem_union,
    Set.mem_iUnion]
  constructor
  · rintro ⟨hd | ⟨q, hq⟩, hne⟩
    · exact Or.inl hd
    · refine Or.inr ⟨q, ?_⟩
      rw [held_release]
      split
      · rename_i heq
        exact ⟨heq ▸ hq, hne⟩
      · exact hq
  · rintro (hd | ⟨q, hq⟩)
    · refine ⟨Or.inl hd, ?_⟩
      rintro rfl
      exact Set.disjoint_left.mp (h.disjoint_fixed p) hd hc
    · rw [held_release] at hq
      split at hq
      · exact ⟨Or.inr ⟨p, hq.1⟩, hq.2⟩
      · rename_i hne
        refine ⟨Or.inr ⟨q, hq⟩, ?_⟩
        rintro rfl
        exact Set.disjoint_left.mp (h.disjoint q p hne) hq hc

/-! ## Cells several may hold

Where holders may hold a cell together, a release can free a cell that somebody else still
holds.  What is left is `Covered`: no cell is taken for nothing. -/

/-- Every taken cell is fixed or held. -/
def Covered (fixed : Set C) (r : Reservation P C) : Prop := r.blocked ⊆ fixed ∪ ⋃ p, r.held p

section Covered

variable {fixed fixed' : Set C} {r r' : Reservation P C}

omit [DecidableEq P] in
theorem covered_iff : r.Covered fixed ↔ ∀ c ∈ r.blocked, c ∈ fixed ∨ ∃ p, c ∈ r.held p := by
  refine forall₂_congr fun c _ => ?_
  rw [Set.mem_union, Set.mem_iUnion]

omit [DecidableEq P] in
theorem Covered.mono (h : r.Covered fixed) (hfixed : fixed ⊆ fixed')
    (hblocked : r'.blocked ⊆ fixed' ∪ r.blocked) (hheld : ∀ p, r.held p ⊆ r'.held p) :
    r'.Covered fixed' := by
  rw [covered_iff] at h ⊢
  intro c hc
  rcases hblocked hc with hc | hc
  · exact Or.inl hc
  · exact (h c hc).imp (fun hf => hfixed hf) fun ⟨p, hp⟩ => ⟨p, hheld p hp⟩

/-- Acquiring a cell, taken or not, covers it. -/
theorem Covered.acquire (h : r.Covered fixed) (p : P) (c : C) : (r.acquire p c).Covered fixed := by
  rw [covered_iff] at h ⊢
  intro d hd
  rw [blocked_acquire, Set.mem_insert_iff] at hd
  rcases hd with rfl | hd
  · exact Or.inr ⟨p, by rw [held_acquire, if_pos rfl]; exact Set.mem_insert _ _⟩
  · refine (h d hd).imp_right fun ⟨q, hq⟩ => ⟨q, ?_⟩
    rw [held_acquire]
    split
    · rename_i heq
      exact Set.mem_insert_of_mem _ (heq ▸ hq)
    · exact hq

/-- Releasing a cell frees it for everybody. -/
theorem Covered.release (h : r.Covered fixed) (p : P) (c : C) : (r.release p c).Covered fixed := by
  rw [covered_iff] at h ⊢
  rintro d ⟨hd, hne⟩
  refine (h d hd).imp_right fun ⟨q, hq⟩ => ⟨q, ?_⟩
  rw [held_release]
  split
  · rename_i heq
    exact ⟨heq ▸ hq, hne⟩
  · exact hq

end Covered

end Reservation

end MmoBackend
