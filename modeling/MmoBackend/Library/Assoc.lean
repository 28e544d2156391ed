import Mathlib.Data.List.Basic

/-!
# A list of pairs as a table

A table that is kept as a list of keys and values, with `List.lookup` to read it.  An
entry is removed by filtering its key out, and it is replaced by removing it and putting
the new one in front.
-/

namespace MmoBackend
namespace Assoc

variable {K V : Type} [BEq K] [LawfulBEq K] [DecidableEq K] {k k' : K}

/-- A removed key is not found. -/
theorem lookup_filter_self (l : List (K × V)) (k : K) :
    (l.filter fun e => e.1 ≠ k).lookup k = none := by
  rw [List.lookup_eq_none_iff]
  intro e he
  have hne := of_decide_eq_true (List.mem_filter.mp he).2
  exact bne_iff_ne.mpr (Ne.symm hne)

/-- Every other key is found as before. -/
theorem lookup_filter_of_ne (l : List (K × V)) (h : k' ≠ k) :
    (l.filter fun e => e.1 ≠ k).lookup k' = l.lookup k' := by
  induction l with
  | nil => rfl
  | cons e l ih =>
    obtain ⟨a, v⟩ := e
    rw [List.lookup_cons]
    by_cases ha : a = k
    · have hk' : (k' == a) = false := beq_eq_false_iff_ne.mpr (ha ▸ h)
      rw [List.filter_cons_of_neg (by simpa using ha), hk', ih]
    · rw [List.filter_cons_of_pos (by simpa using ha), List.lookup_cons, ih]

omit [DecidableEq K] in
theorem lookup_cons_of_ne (l : List (K × V)) (v : V) (h : k' ≠ k) :
    ((k, v) :: l).lookup k' = l.lookup k' := by
  rw [List.lookup_cons, beq_eq_false_iff_ne.mpr h]

end Assoc
end MmoBackend
