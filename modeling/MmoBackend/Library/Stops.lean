import MmoBackend.Library.Exec

/-!
# Why a piece of code can stop

The rules of `Exec` start from a call that returned.  The rules of this file are about the
calls that do not: `StopsBy E x s` says that if `x` stops in the state `s`, then for a
reason in `E`.  Two choices of `E` are of interest.  A piece of code that `Proceeds` uses no
memory it must not use and takes no lock twice, but it may be cut off.  One that has no
reason at all to stop returns, `StopsBy.exists_ok`.

What comes behind a call starts in a state the call has led to, so here as well a proof
peels the code apart from the front: `stopsBy_bind` hands over the run of the first part.
-/

namespace MmoBackend
namespace Exec

variable {σ α β : Type} {E : Stop → Prop} {x y : Exec σ α} {f : α → Exec σ β} {s t : σ}

/-- If `x` stops in the state `s`, it is for a reason in `E`. -/
def StopsBy (E : Stop → Prop) (x : Exec σ α) (s : σ) : Prop := ∀ e, x s = .error e → E e

/-- The code goes on for as long as it is not cut off. -/
def Proceeds (x : Exec σ α) (s : σ) : Prop := StopsBy (· = .fuel) x s

/-- **Code that has no reason to stop returns.** -/
theorem StopsBy.exists_ok (h : StopsBy (fun _ => False) x s) : ∃ a t, x s = .ok (a, t) := by
  cases hx : x s with
  | ok r => exact ⟨r.1, r.2, rfl⟩
  | error e => exact (h e hx).elim

theorem stopsBy_of_ok {r : α × σ} (h : x s = .ok r) : StopsBy E x s :=
  fun e he => absurd (h.symm.trans he) (by simp)

theorem stopsBy_pure (a : α) : StopsBy E (pure a : Exec σ α) s := stopsBy_of_ok rfl

theorem stopsBy_modify (g : σ → σ) : StopsBy E (modify g) s := stopsBy_of_ok rfl

theorem stopsBy_stop {e : Stop} (he : E e) : StopsBy E (stop e : Exec σ α) s := by
  intro e' he'
  obtain rfl := Except.error.inj he'
  exact he

/-- A value that is missing is a fault. -/
theorem stopsBy_need (o : Option α) : StopsBy (· = .fault) (need o) s := by
  cases o with
  | none => exact stopsBy_stop rfl
  | some a => exact stopsBy_pure a

/-- **One part after the other.** -/
theorem stopsBy_bind (h : StopsBy E x s) (hf : ∀ a t, x s = .ok (a, t) → StopsBy E (f a) t) :
    StopsBy E (x >>= f) s := by
  intro e he
  cases hx : x s with
  | error e' =>
    rw [bind_of_error hx] at he
    exact Except.error.inj he ▸ h e' hx
  | ok r =>
    obtain ⟨a, t⟩ := r
    rw [bind_of_ok hx] at he
    exact hf a t hx e he

/-- The first part is known to return. -/
theorem stopsBy_bind_ok {a : α} (h : x s = .ok (a, t)) (hf : StopsBy E (f a) t) :
    StopsBy E (x >>= f) s := by
  intro e he
  rw [bind_of_ok h] at he
  exact hf e he

/-- The value is there. -/
theorem stopsBy_need_bind {o : Option α} {a : α} (ho : o = some a) (hf : StopsBy E (f a) s) :
    StopsBy E (need o >>= f) s := by
  subst ho
  exact stopsBy_bind_ok rfl hf

theorem stopsBy_ite {c : Prop} [Decidable c] (hx : c → StopsBy E x s) (hy : ¬c → StopsBy E y s) :
    StopsBy E (if c then x else y) s := by
  split
  · exact hx ‹c›
  · exact hy ‹¬c›

/-- **The loop rule.** -/
theorem stopsBy_forEach {I : σ → Prop} {l : List α} {f : α → Exec σ Unit}
    (hbody : ∀ a ∈ l, ∀ s, I s → StopsBy E (f a) s ∧ ∀ t, f a s = .ok ((), t) → I t)
    (hs : I s) : StopsBy E (forEach l f) s := by
  induction l generalizing s with
  | nil => exact stopsBy_pure ()
  | cons a l ih =>
    rw [forEach_cons]
    obtain ⟨hstop, hkeep⟩ := hbody a List.mem_cons_self s hs
    refine stopsBy_bind hstop fun u t ha => ?_
    exact ih (fun b hb => hbody b (List.mem_cons_of_mem a hb)) (hkeep t ha)

end Exec
end MmoBackend
