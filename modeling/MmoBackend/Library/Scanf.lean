import Mathlib.Data.List.Basic
import Mathlib.Data.List.Infix
import Mathlib.Data.List.TakeWhile

/-!
# Scanning a string by a format

The part of `scanf` that cuts a string into pieces.  A format is a list of directives.  One
kind skips what it can and never fails.  The other kind takes the longest piece it can, which
must not be empty, and either stores the piece or drops it.  Scanning ends at the first
directive that fails, so fewer pieces may be stored than the format has places for.

The rules for one directive say what it does to a string of which the front is known.
-/

namespace MmoBackend

/-- A directive of a format. -/
inductive Directive (α : Type) where
  /-- Skip the elements in front with a property. -/
  | skip (p : α → Bool)
  /-- Take the elements in front with a property, at least one, and store them or not. -/
  | take (store : Bool) (p : α → Bool)

variable {α : Type} {p : α → Bool} {store : Bool} {f : List (Directive α)} {l l' piece : List α}

/-- The pieces that are stored, in order. -/
def scanf : List (Directive α) → List α → List (List α)
  | [], _ => []
  | .skip p :: f, l => scanf f (l.dropWhile p)
  | .take store p :: f, l =>
    if (l.takeWhile p).isEmpty then []
    else if store then l.takeWhile p :: scanf f (l.dropWhile p)
    else scanf f (l.dropWhile p)

@[simp] theorem scanf_nil (l : List α) : scanf [] l = [] := rfl

@[simp] theorem scanf_skip : scanf (.skip p :: f) l = scanf f (l.dropWhile p) := rfl

theorem scanf_store (h : l.takeWhile p ≠ []) :
    scanf (.take true p :: f) l = l.takeWhile p :: scanf f (l.dropWhile p) := by
  rw [scanf, if_neg (by simpa using h), if_pos rfl]

theorem scanf_drop (h : l.takeWhile p ≠ []) :
    scanf (.take false p :: f) l = scanf f (l.dropWhile p) := by
  rw [scanf, if_neg (by simpa using h), if_neg Bool.false_ne_true]

/-- A directive that must take something and cannot ends the scan. -/
theorem scanf_fail (h : l.takeWhile p = []) : scanf (.take store p :: f) l = [] := by
  rw [scanf, if_pos (by rw [h]; rfl)]

/-! ## Known fronts -/

/-- What is taken of a piece and something else behind it. -/
theorem takeWhile_piece (hl : ∀ a ∈ l, p a = true) (hl' : ∀ a ∈ l'.head?, p a = false) :
    (l ++ l').takeWhile p = l := by
  rw [List.takeWhile_append_of_pos hl]
  cases l' with
  | nil => simp
  | cons a l' => simp [hl' a rfl]

/-- What is left of it. -/
theorem dropWhile_piece (hl : ∀ a ∈ l, p a = true) (hl' : ∀ a ∈ l'.head?, p a = false) :
    (l ++ l').dropWhile p = l' := by
  rw [List.dropWhile_append_of_pos hl]
  cases l' with
  | nil => simp
  | cons a l' => simp [hl' a rfl]

/-! ## Pieces -/

end MmoBackend
