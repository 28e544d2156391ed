import MmoBackend.Library.Trace

/-!
# A number of steps of a relation

`Steps r a n b` says that `b` is reached from `a` in `n` steps of `r`.  Its invariants know
the number of the steps before, so that they can bound what grows with every step.

`Trace.simulates` is how a run of a system becomes such a number of steps.  Some of the
actions are counted.  Each of these takes what one sees of the state one step further, and
the others do not change what one sees.
-/

namespace MmoBackend

variable {α σ ι : Type} {r : α → α → Prop} {a b : α} {n : ℕ}

/-- `n` steps of `r`. -/
inductive Steps (r : α → α → Prop) (a : α) : ℕ → α → Prop
  | zero : Steps r a 0 a
  | succ {n : ℕ} {b c : α} : Steps r a n b → r b c → Steps r a (n + 1) c

namespace Steps

/-- **The invariant rule.**  What holds of the number of the steps and of
where they have led is kept by each of them. -/
theorem invariant {I : ℕ → α → Prop} (h : Steps r a n b) (ha : I 0 a)
    (hstep : ∀ k b c, k < n → I k b → r b c → I (k + 1) c) : I n b := by
  induction h with
  | zero => exact ha
  | @succ k b c _ hlast ih =>
    exact hstep k b c (Nat.lt_succ_self k)
      (ih fun k' b c hk => hstep k' b c (Nat.lt_succ_of_lt hk)) hlast

end Steps

/-- **Runs as steps.** -/
theorem Trace.simulates {step : σ → ι → σ → Prop} {sees : σ → α → Prop} {counted : ι → Bool}
    (hcounted : ∀ s i t a, sees s a → step s i t → counted i = true → ∃ b, r a b ∧ sees t b)
    (hother : ∀ s i t a, sees s a → step s i t → counted i = false → sees t a) {s t : σ}
    {l : List (ι × σ)} (hs : sees s a) (h : Trace step s l t) :
    ∃ b, Steps r a (l.countP fun e => counted e.1) b ∧ sees t b := by
  induction h with
  | nil => exact ⟨a, .zero, hs⟩
  | @snoc l t u i _ hlast ih =>
    obtain ⟨b, hsteps, ht⟩ := ih
    rw [List.countP_append, List.countP_singleton]
    cases hi : counted i with
    | true =>
      obtain ⟨c, hr, hu⟩ := hcounted t i u b ht hlast hi
      exact ⟨c, by simpa [hi] using hsteps.succ hr, hu⟩
    | false => exact ⟨b, by simpa [hi] using hsteps, hother t i u b ht hlast hi⟩

end MmoBackend
