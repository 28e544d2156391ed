import Mathlib.Data.List.Basic
import MmoBackend.Library.Trace

/-!
# Orders that do not matter

Actions fall into classes, and two actions of different classes may change places: if one
comes right after the other in a run, they may as well come the other way round, and where that
leads cannot be told from where the run led.

Two lists with the same actions of each class, in the same order, are then as good as each
other.  `Reorder.of_filter` takes the one to the other by swapping neighbours, and
`Trace.reorder` runs the second list instead of the first.
-/

namespace MmoBackend

variable {ι κ σ : Type} {cls : ι → κ} {l l' l₁ l₂ : List ι} {a b : ι}

/-! ## Lists -/

/-- One list is the other after swaps of neighbours of different classes. -/
inductive Reorder (cls : ι → κ) : List ι → List ι → Prop
  | nil : Reorder cls [] []
  | cons (a : ι) {l l' : List ι} : Reorder cls l l' → Reorder cls (a :: l) (a :: l')
  | swap {a b : ι} (l : List ι) : cls a ≠ cls b → Reorder cls (a :: b :: l) (b :: a :: l)
  | trans {l₁ l₂ l₃ : List ι} : Reorder cls l₁ l₂ → Reorder cls l₂ l₃ → Reorder cls l₁ l₃

namespace Reorder

theorem refl (l : List ι) : Reorder cls l l := by
  induction l with
  | nil => exact .nil
  | cons a l ih => exact .cons a ih

/-- An action goes past those of other classes. -/
theorem past (h : ∀ b ∈ l₁, cls b ≠ cls a) :
    Reorder cls (a :: (l₁ ++ l₂)) (l₁ ++ a :: l₂) := by
  induction l₁ with
  | nil => exact refl _
  | cons b l₁ ih =>
    have hb := h b List.mem_cons_self
    exact (swap _ (Ne.symm hb)).trans (.cons b (ih fun c hc => h c (List.mem_cons_of_mem b hc)))

/-- **Lists with the same actions of each class**, in the same order, are reorderings. -/
theorem of_filter [DecidableEq κ]
    (h : ∀ k, l.filter (fun a => cls a = k) = l'.filter fun a => cls a = k) :
    Reorder cls l l' := by
  induction l generalizing l' with
  | nil =>
    cases l' with
    | nil => exact .nil
    | cons b l' => exact absurd (h (cls b)) (by simp)
  | cons a l ih =>
    have hfirst := h (cls a)
    rw [List.filter_cons_of_pos (by simp)] at hfirst
    -- the first action of the class of `a` is `a` in both
    obtain ⟨l₁, l₂, rfl, hbefore, -, hafter⟩ := List.filter_eq_cons_iff.mp hfirst.symm
    have hbefore : ∀ b ∈ l₁, cls b ≠ cls a := by simpa using hbefore
    refine (Reorder.cons a (ih fun k => ?_)).trans (past hbefore)
    have hk := h k
    by_cases hak : cls a = k
    · subst hak
      have hnil : l₁.filter (fun b => cls b = cls a) = [] :=
        List.filter_eq_nil_iff.mpr (by simpa using hbefore)
      rw [List.filter_append, hafter, hnil, List.nil_append]
    · rw [List.filter_cons_of_neg (by simpa using hak), List.filter_append,
        List.filter_cons_of_neg (by simpa using hak)] at hk
      rw [hk, List.filter_append]

end Reorder

/-! ## Runs -/

/-- The actions lead from one state to the other. -/
inductive Does (step : σ → ι → σ → Prop) : σ → List ι → σ → Prop
  | nil {s : σ} : Does step s [] s
  | cons {s t u : σ} {a : ι} {l : List ι} :
      step s a t → Does step t l u → Does step s (a :: l) u

variable {step : σ → ι → σ → Prop} {I : σ → Prop} {R : σ → σ → Prop} {s s' t u : σ}

theorem Does.append (h : Does step s l t) (h' : Does step t l' u) : Does step s (l ++ l') u := by
  induction h with
  | nil => exact h'
  | cons hstep _ ih => exact .cons hstep (ih h')

theorem Trace.does {l : List (ι × σ)} (h : Trace step s l t) :
    Does step s (l.map Prod.fst) t := by
  induction h with
  | nil => exact .nil
  | snoc _ hlast ih =>
    rw [List.map_append]
    exact ih.append (.cons hlast .nil)

theorem Does.trace (h : Does step s l t) :
    ∃ m : List (ι × σ), m.map Prod.fst = l ∧ Trace step s m t := by
  induction h with
  | nil => exact ⟨[], rfl, .nil⟩
  | @cons s t u a l hstep _ ih =>
    obtain ⟨m, rfl, hrun⟩ := ih
    exact ⟨(a, t) :: m, rfl, Trace.cons_iff.mpr ⟨hstep, hrun⟩⟩

/-- Actions of different classes may change places, up to a relation that every step keeps. -/
structure Commutes (step : σ → ι → σ → Prop) (cls : ι → κ) (I : σ → Prop) (R : σ → σ → Prop) :
    Prop where
  keeps : ∀ s a t, I s → step s a t → I t
  refl : ∀ s, I s → R s s
  trans : ∀ s t u, R s t → R t u → R s u
  follows : ∀ s s' a t, I s → I s' → R s s' → step s a t → ∃ t', step s' a t' ∧ R t t'
  swaps : ∀ s a b t u, I s → cls a ≠ cls b → step s a t → step t b u →
    ∃ t' u', step s b t' ∧ step t' a u' ∧ R u u'

namespace Commutes

/-- What cannot be told apart cannot be told apart after the same actions. -/
theorem follow (hc : Commutes step cls I R) (hs : I s) (hs' : I s') (hR : R s s')
    (h : Does step s l t) : ∃ t', Does step s' l t' ∧ R t t' := by
  induction h generalizing s' with
  | nil => exact ⟨s', .nil, hR⟩
  | cons hstep _ ih =>
    obtain ⟨t', hstep', hR'⟩ := hc.follows _ _ _ _ hs hs' hR hstep
    obtain ⟨u', hrest, hu⟩ := ih (hc.keeps _ _ _ hs hstep) (hc.keeps _ _ _ hs' hstep') hR'
    exact ⟨u', .cons hstep' hrest, hu⟩

/-- **A reordering** leads to a state that cannot be told apart. -/
theorem reorder (hc : Commutes step cls I R) (hr : Reorder cls l l') (hs : I s)
    (h : Does step s l t) : ∃ t', Does step s l' t' ∧ R t t' := by
  induction hr generalizing s t with
  | nil =>
    cases h
    exact ⟨s, .nil, hc.refl s hs⟩
  | cons a _ ih =>
    cases h with
    | cons hstep hrest =>
      obtain ⟨t', hrest', hR⟩ := ih (hc.keeps _ _ _ hs hstep) hrest
      exact ⟨t', .cons hstep hrest', hR⟩
  | @swap a b l hab =>
    cases h with
    | @cons _ v _ _ _ ha hrest =>
      cases hrest with
      | @cons _ w _ _ _ hb hrest =>
        obtain ⟨v', w', hb', ha', hR⟩ := hc.swaps _ _ _ _ _ hs hab ha hb
        have hw := hc.keeps _ _ _ (hc.keeps _ _ _ hs ha) hb
        have hw' := hc.keeps _ _ _ (hc.keeps _ _ _ hs hb') ha'
        obtain ⟨t', hrest', ht⟩ := hc.follow hw hw' hR hrest
        exact ⟨t', .cons hb' (.cons ha' hrest'), ht⟩
  | trans _ _ ih₁ ih₂ =>
    obtain ⟨t', h', hR⟩ := ih₁ hs h
    obtain ⟨t'', h'', hR'⟩ := ih₂ hs h'
    exact ⟨t'', h'', hc.trans _ _ _ hR hR'⟩

/-- **Runs**: any order of the actions will do that keeps the order within each class. -/
theorem trace [DecidableEq κ] (hc : Commutes step cls I R) {m : List (ι × σ)} (hs : I s)
    (h : Trace step s m t)
    (hl : ∀ k, (m.map Prod.fst).filter (fun a => cls a = k) = l'.filter fun a => cls a = k) :
    ∃ m' t', m'.map Prod.fst = l' ∧ Trace step s m' t' ∧ R t t' := by
  obtain ⟨t', h', hR⟩ := hc.reorder (Reorder.of_filter hl) hs h.does
  obtain ⟨m', hm', hrun⟩ := h'.trace
  exact ⟨m', t', hm', hrun, hR⟩

end Commutes

end MmoBackend
