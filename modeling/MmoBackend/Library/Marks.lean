import Mathlib.Data.Set.Insert
import MmoBackend.Library.Trace

/-!
# A set of marks as an object

Some of the elements of a type can be marked and unmarked.  Marking an element that is
marked already is refused, and so is every call with an element that cannot carry a
mark; all other calls succeed.  `Step` says what one call returns and what it leaves,
`Trace Step` are the histories of the object, and a component that keeps such a set in
any other form is correct when its histories are among them.

The law of the object is `exists_unmark_between`: between two successful marks of one
element there is a successful unmark of it.
-/

namespace MmoBackend
namespace Marks

variable {C : Type} {inside B B' : Set C}

/-- A call: mark an element, or unmark it. -/
structure Op (C : Type) where
  mark : Bool
  cell : C

/-- A call and its result take the set `B` of marks to `B'`. -/
structure Step (inside : Set C) (B : Set C) (e : Op C × Bool) (B' : Set C) : Prop where
  result_iff : e.2 = true ↔ e.1.cell ∈ inside ∧ (e.1.mark = true → e.1.cell ∉ B)
  marked : e.2 = true → e.1.mark = true → B' = insert e.1.cell B
  unmarked : e.2 = true → e.1.mark = false → B' = B \ {e.1.cell}
  refused : e.2 = false → B' = B

/-- Only a successful unmark of an element takes its mark away. -/
theorem Step.mem {e : Op C × Bool} (h : Step inside B e B') {c : C} (hc : c ∈ B)
    (hne : e ≠ (⟨false, c⟩, true)) : c ∈ B' := by
  obtain ⟨⟨mark, cell⟩, result⟩ := e
  cases result with
  | false => exact h.refused rfl ▸ hc
  | true =>
    cases mark with
    | true => exact h.marked rfl rfl ▸ Set.mem_insert_of_mem cell hc
    | false =>
      rw [h.unmarked rfl rfl]
      exact ⟨hc, fun heq => hne (by rw [Set.mem_singleton_iff.mp heq])⟩

/-- A mark stays until it is taken away. -/
theorem mem_of_trace {l : List ((Op C × Bool) × Set C)} (h : Trace (Step inside) B l B') {c : C}
    (hc : c ∈ B) (hne : ∀ e ∈ l, e.1 ≠ (⟨false, c⟩, true)) : c ∈ B' := by
  induction h with
  | nil => exact hc
  | snoc _ hlast ih =>
    have hrest := ih fun e he => hne e (List.mem_append_left _ he)
    exact hlast.mem hrest (hne _ (List.mem_append_right _ List.mem_cons_self))

/-- **Between two successful marks of an element there is a successful unmark of it.** -/
theorem exists_unmark_between {c : C} {B₁ B₂ : Set C} {l₁ l₂ l₃ : List ((Op C × Bool) × Set C)}
    (h : Trace (Step inside) B
      (l₁ ++ ((⟨true, c⟩, true), B₁) :: (l₂ ++ ((⟨true, c⟩, true), B₂) :: l₃)) B') :
    ∃ e ∈ l₂, e.1 = (⟨false, c⟩, true) := by
  obtain ⟨B₀, -, h⟩ := Trace.append_iff.mp h
  obtain ⟨hfirst, h⟩ := Trace.cons_iff.mp h
  obtain ⟨B₃, hbetween, h⟩ := Trace.append_iff.mp h
  obtain ⟨hsecond, -⟩ := Trace.cons_iff.mp h
  have hmarked : B₁ = insert c B₀ := hfirst.marked rfl rfl
  have hc : c ∈ B₁ := hmarked ▸ Set.mem_insert c B₀
  have hfree : c ∉ B₃ := (hsecond.result_iff.mp rfl).2 rfl
  by_contra hnone
  exact hfree (mem_of_trace hbetween hc fun e he heq => hnone ⟨e, he, heq⟩)

end Marks
end MmoBackend
