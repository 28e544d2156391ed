import Mathlib.Data.List.Induction

/-!
# Runs of a system that moves in labelled steps

A system is a relation `step s i t`: in the state `s` the action `i` may lead to
`t`.  Several parties that move in any order are one such system, with labels that
say who moved.  `Trace step s l t` is a finite run from `s` to `t`, with the list
of its actions and of the state each of them led to.

`Trace.invariant` is the induction, and `Trace.map` takes the runs of one system to runs
of another.  `Guarded` restricts a system to the steps
whose state and action meet a condition, and a statement about the runs all of
whose steps meet it is a statement about the runs of the restricted system.
-/

namespace MmoBackend

variable {σ ι : Type} {step : σ → ι → σ → Prop}

/-- A finite run. -/
inductive Trace (step : σ → ι → σ → Prop) (s : σ) : List (ι × σ) → σ → Prop
  | nil : Trace step s [] s
  | snoc {l : List (ι × σ)} {t u : σ} {i : ι} :
      Trace step s l t → step t i u → Trace step s (l ++ [(i, u)]) u

namespace Trace

/-- **The invariant rule.**  What holds at the start and is kept by every step holds
after every run. -/
theorem invariant {I : σ → Prop} (hstep : ∀ t i u, I t → step t i u → I u) {s t : σ}
    {l : List (ι × σ)} (hs : I s) (h : Trace step s l t) : I t := by
  induction h with
  | nil => exact hs
  | snoc _ hlast ih => exact hstep _ _ _ ih hlast

/-- It also holds in every state on the way. -/
theorem invariant_mem {I : σ → Prop} (hstep : ∀ t i u, I t → step t i u → I u) {s t : σ}
    {l : List (ι × σ)} (hs : I s) (h : Trace step s l t) : ∀ e ∈ l, I e.2 := by
  induction h with
  | nil => exact fun e he => absurd he List.not_mem_nil
  | snoc hrun hlast ih =>
    intro e he
    rcases List.mem_append.mp he with he | he
    · exact ih e he
    · rw [List.mem_singleton.mp he]
      exact hstep _ _ _ (invariant hstep hs hrun) hlast

/-- The last step of a run. -/
theorem snoc_iff {s t : σ} {l : List (ι × σ)} {e : ι × σ} :
    Trace step s (l ++ [e]) t ↔ ∃ m, Trace step s l m ∧ step m e.1 t ∧ e.2 = t := by
  constructor
  · intro h
    generalize hl : l ++ [e] = l' at h
    cases h with
    | nil => exact absurd hl (by simp)
    | snoc hrun hlast =>
      obtain ⟨rfl, he⟩ := List.append_inj' hl rfl
      obtain rfl := List.singleton_inj.mp he
      exact ⟨_, hrun, hlast, rfl⟩
  · rintro ⟨m, hrun, hlast, rfl⟩
    exact hrun.snoc hlast

/-- A run in two parts. -/
theorem append_iff {s t : σ} {l l' : List (ι × σ)} :
    Trace step s (l ++ l') t ↔ ∃ m, Trace step s l m ∧ Trace step m l' t := by
  induction l' using List.reverseRecOn generalizing t with
  | nil =>
    rw [List.append_nil]
    refine ⟨fun h => ⟨t, h, .nil⟩, ?_⟩
    rintro ⟨m, h, hnil⟩
    generalize hl : ([] : List (ι × σ)) = l' at hnil
    cases hnil with
    | nil => exact h
    | snoc _ _ => exact absurd hl (by simp)
  | append_singleton l' e ih =>
    rw [← List.append_assoc, snoc_iff]
    simp only [ih, snoc_iff]
    constructor
    · rintro ⟨m', ⟨m, h, h'⟩, hlast⟩
      exact ⟨m, h, m', h', hlast⟩
    · rintro ⟨m, h, m', h', hlast⟩
      exact ⟨m', ⟨m, h, h'⟩, hlast⟩

/-- The first step of a run. -/
theorem cons_iff {s t : σ} {l : List (ι × σ)} {e : ι × σ} :
    Trace step s (e :: l) t ↔ step s e.1 e.2 ∧ Trace step e.2 l t := by
  have hone : ∀ {m}, Trace step s [e] m ↔ step s e.1 m ∧ e.2 = m := by
    intro m
    have hsnoc := (snoc_iff : Trace step s ([] ++ [e]) m ↔ _)
    rw [List.nil_append] at hsnoc
    rw [hsnoc]
    constructor
    · rintro ⟨m', hnil, hlast⟩
      generalize hl : ([] : List (ι × σ)) = l' at hnil
      cases hnil with
      | nil => exact hlast
      | snoc _ _ => exact absurd hl (by simp)
    · exact fun hlast => ⟨s, .nil, hlast⟩
  rw [show e :: l = [e] ++ l from rfl, append_iff]
  simp only [hone]
  exact ⟨fun ⟨_, ⟨h, he⟩, hrun⟩ => he ▸ ⟨he ▸ h, hrun⟩, fun ⟨h, hrun⟩ => ⟨e.2, ⟨h, rfl⟩, hrun⟩⟩

/-- **Simulation.**  Where every step of one system is, through a map of the states and
one of the actions, a step of another, its runs are runs of the other. -/
theorem map {τ κ : Type} {step' : τ → κ → τ → Prop} {f : σ → τ} {g : ι → κ} {I : σ → Prop}
    (hI : ∀ t i u, I t → step t i u → I u)
    (hstep : ∀ t i u, I t → step t i u → step' (f t) (g i) (f u)) {s t : σ}
    {l : List (ι × σ)} (hs : I s) (h : Trace step s l t) :
    Trace step' (f s) (l.map (Prod.map g f)) (f t) := by
  induction h with
  | nil => exact .nil
  | snoc hrun hlast ih =>
    rw [List.map_append]
    exact ih.snoc (hstep _ _ _ (invariant hI hs hrun) hlast)

/-- **Simulation with silent steps.**  Where every step of one system is a step of another, or
is not seen there, its runs are runs of the other. -/
theorem filterMap {τ κ : Type} {step' : τ → κ → τ → Prop} {f : σ → τ} {g : ι → Option κ}
    (hseen : ∀ t i u j, step t i u → g i = some j → step' (f t) j (f u))
    (hsilent : ∀ t i u, step t i u → g i = none → f u = f t) {s t : σ} {l : List (ι × σ)}
    (h : Trace step s l t) :
    Trace step' (f s) (l.filterMap fun e => (g e.1).map fun j => (j, f e.2)) (f t) := by
  induction h with
  | nil => exact .nil
  | @snoc l t u i _ hlast ih =>
    rw [List.filterMap_append, List.filterMap_cons, List.filterMap_nil]
    cases hi : g i with
    | none =>
      dsimp only
      rw [Option.map_none, List.append_nil, hsilent t i u hlast hi]
      exact ih
    | some j => exact ih.snoc (hseen t i u j hlast hi)

end Trace

/-- The steps whose state and action meet a condition. -/
def Guarded (step : σ → ι → σ → Prop) (guard : σ → ι → Prop) : σ → ι → σ → Prop :=
  fun s i t => step s i t ∧ guard s i

theorem Trace.of_guarded {guard : σ → ι → Prop} {s t : σ} {l : List (ι × σ)}
    (h : Trace (Guarded step guard) s l t) : Trace step s l t := by
  induction h with
  | nil => exact .nil
  | snoc _ hlast ih => exact ih.snoc hlast.1

/-- **The condition for a property.**  If every step from a state with the property leads to
a state with the property exactly when it meets the condition, then the runs in which every
state has the property are the runs whose steps all meet the condition. -/
theorem Trace.forall_iff_guarded {I P : σ → Prop} {guard : σ → ι → Prop} {s t : σ}
    {l : List (ι × σ)} (hI : ∀ t i u, I t → step t i u → I u)
    (hP : ∀ t i u, I t → P t → step t i u → (P u ↔ guard t i)) (hs : I s) (hPs : P s)
    (h : Trace step s l t) : (∀ e ∈ l, P e.2) ↔ Trace (Guarded step guard) s l t := by
  have hkeeps : ∀ t i u, I t ∧ P t → Guarded step guard t i u → I u ∧ P u :=
    fun t i u ht hstep => ⟨hI t i u ht.1 hstep.1, (hP t i u ht.1 ht.2 hstep.1).mpr hstep.2⟩
  constructor
  · intro hall
    induction h with
    | nil => exact .nil
    | @snoc l t u i _ hstep ih =>
      have hrun := ih fun e he => hall e (List.mem_append_left _ he)
      obtain ⟨ht, hPt⟩ := Trace.invariant hkeeps ⟨hs, hPs⟩ hrun
      have hlast := hall (i, u) (List.mem_append_right l List.mem_cons_self)
      exact hrun.snoc ⟨hstep, (hP t i u ht hPt hstep).mp hlast⟩
  · intro hrun e he
    exact (Trace.invariant_mem hkeeps ⟨hs, hPs⟩ hrun e he).2

/-- **What a state has came from somewhere.**  If after a step something is there only when
the step brings it, or when it was there before and the step does not end it, then what is
there after a run was brought by a step of the run, and no step since then ends it. -/
theorem Trace.since {α : Type} {I : σ → Prop} {P : σ → α → Prop} {brings : ι → α → Prop}
    {ends : α → σ → ι → Prop} (hI : ∀ t i u, I t → step t i u → I u)
    (hstep : ∀ t i u a, I t → step t i u → P u a → brings i a ∨ P t a ∧ ¬ends a t i) {s t : σ}
    {l : List (ι × σ)} (hs : I s) (hnone : ∀ a, ¬P s a) (h : Trace step s l t) {a : α}
    (hP : P t a) : ∃ l₁ i v l₂, l = l₁ ++ (i, v) :: l₂ ∧ brings i a ∧
      Trace (Guarded step fun w j => ¬ends a w j) v l₂ t := by
  induction h with
  | nil => exact absurd hP (hnone a)
  | @snoc l t u i hrun hlast ih =>
    rcases hstep t i u a (Trace.invariant hI hs hrun) hlast hP with hbrings | ⟨hold, hends⟩
    · exact ⟨l, i, u, [], rfl, hbrings, .nil⟩
    · obtain ⟨l₁, j, v, l₂, rfl, hbrings, hsince⟩ := ih hold
      refine ⟨l₁, j, v, l₂ ++ [(i, u)], ?_, hbrings, hsince.snoc ⟨hlast, hends⟩⟩
      rw [List.append_assoc, List.cons_append]

end MmoBackend
