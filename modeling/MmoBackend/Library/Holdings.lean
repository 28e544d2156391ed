import Mathlib.Data.Multiset.AddSub
import Mathlib.Data.Multiset.ZeroCons
import Mathlib.Logic.Function.Basic

/-!
# References that several parties hold

Any number of parties hold references to one thing, each of them some number.
`Holdings n f` says that there are `n` of them in all when the party `t` holds `f t`.  There
may be infinitely many parties, so this is not a sum over them but a list of the
references, each with its holder.

A party takes a reference and gives one back, and the number of all references follows.
A party that holds one knows that the number is not zero.
-/

namespace MmoBackend

variable {T : Type} [DecidableEq T]

/-- There are `n` references in all, of which `t` holds `f t`. -/
def Holdings (n : ℕ) (f : T → ℕ) : Prop :=
  ∃ holders : Multiset T, holders.card = n ∧ ∀ t, holders.count t = f t

namespace Holdings

variable {n : ℕ} {f g : T → ℕ}

/-- Nobody holds anything. -/
theorem zero : Holdings 0 fun _ : T => 0 := ⟨0, Multiset.card_zero, fun t => Multiset.count_zero t⟩

theorem congr (h : Holdings n f) (hfg : ∀ t, f t = g t) : Holdings n g :=
  funext hfg ▸ h

/-- **Who holds a reference knows that there is one.** -/
theorem pos (h : Holdings n f) {t : T} (ht : 0 < f t) : 0 < n := by
  obtain ⟨holders, rfl, hcount⟩ := h
  rw [Multiset.card_pos_iff_exists_mem]
  exact ⟨t, Multiset.count_pos.mp (hcount t ▸ ht)⟩

/-- A party takes a reference. -/
theorem take (h : Holdings n f) {t : T} (ht : g t = f t + 1) (hne : ∀ u, u ≠ t → g u = f u) :
    Holdings (n + 1) g := by
  obtain ⟨holders, rfl, hcount⟩ := h
  refine ⟨t ::ₘ holders, Multiset.card_cons t holders, fun u => ?_⟩
  by_cases hu : u = t
  · rw [hu, Multiset.count_cons_self, hcount, ht]
  · rw [Multiset.count_cons_of_ne hu, hcount, hne u hu]

/-- A party gives a reference back. -/
theorem give (h : Holdings (n + 1) f) {t : T} (ht : f t = g t + 1) (hne : ∀ u, u ≠ t → g u = f u) :
    Holdings n g := by
  obtain ⟨holders, hcard, hcount⟩ := h
  have hmem : t ∈ holders := Multiset.count_pos.mp (by rw [hcount, ht]; exact Nat.succ_pos _)
  refine ⟨holders.erase t, ?_, fun u => ?_⟩
  · rw [Multiset.card_erase_of_mem hmem, hcard, Nat.pred_succ]
  · by_cases hu : u = t
    · rw [hu, Multiset.count_erase_self, hcount, ht, Nat.add_sub_cancel]
    · rw [Multiset.count_erase_of_ne hu, hcount, hne u hu]

/-- Without references nobody holds one. -/
theorem eq_zero (h : Holdings 0 f) (t : T) : f t = 0 :=
  Nat.eq_zero_of_not_pos fun ht => Nat.lt_irrefl 0 (h.pos ht)

end Holdings

end MmoBackend
