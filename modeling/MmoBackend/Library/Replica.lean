import Mathlib.Data.List.Basic
import Mathlib.Logic.Function.Basic

/-!
# Replicas that are kept up to date by messages

A receiver holds a partial map from keys to values, and is told about changes by
three kinds of messages: forget everything, set a key, delete a key.  `replay` is
what it holds after a list of messages, starting with nothing.

Two facts are what a server needs that keeps replicas in step with something it
changes.  A message that arrives more than once has the effect of one,
`applyAll_const`.  And a list of `set` messages that do not contradict each other adds
its entries to what is there, `applyAll_sets`: that is a snapshot.
-/

namespace MmoBackend

/-- A message to a replica. -/
inductive Message (K V : Type) where
  | clear
  | set (k : K) (v : V)
  | delete (k : K)
  deriving DecidableEq

namespace Message

variable {K V : Type} [DecidableEq K] {view : K → Option V} {k k' : K} {v : V}

/-- What a replica holds after a message. -/
def apply (view : K → Option V) : Message K V → K → Option V
  | .clear => fun _ => none
  | .set k v => Function.update view k (some v)
  | .delete k => Function.update view k none

/-- What a replica holds after a list of messages. -/
def applyAll (view : K → Option V) (l : List (Message K V)) : K → Option V := l.foldl apply view

/-- What a replica that starts with nothing holds after a list of messages. -/
def replay (l : List (Message K V)) : K → Option V := applyAll (fun _ => none) l

@[simp] theorem apply_clear : apply view .clear k = none := rfl

@[simp] theorem apply_set_self : apply view (.set k v) k = some v := Function.update_self _ _ _

theorem apply_set_of_ne (h : k' ≠ k) : apply view (.set k v) k' = view k' :=
  Function.update_of_ne h _ _

@[simp] theorem apply_delete_self : apply view (.delete k) k = none := Function.update_self _ _ _

theorem apply_delete_of_ne (h : k' ≠ k) : apply view (.delete k) k' = view k' :=
  Function.update_of_ne h _ _

@[simp] theorem applyAll_nil : applyAll view [] = view := rfl

@[simp] theorem applyAll_cons (m : Message K V) (l : List (Message K V)) :
    applyAll view (m :: l) = applyAll (apply view m) l := rfl

theorem applyAll_append (l l' : List (Message K V)) :
    applyAll view (l ++ l') = applyAll (applyAll view l) l' := List.foldl_append

theorem replay_append (l l' : List (Message K V)) :
    replay (l ++ l') = applyAll (replay l) l' := applyAll_append l l'

/-- Hearing a message again changes nothing. -/
theorem apply_apply (m : Message K V) : apply (apply view m) m = apply view m := by
  cases m with
  | clear => rfl
  | set k v => exact Function.update_idem _ _ _
  | delete k => exact Function.update_idem _ _ _

/-- A message that is sent several times. -/
theorem applyAll_const {m : Message K V} {l : List (Message K V)} (hne : l ≠ [])
    (hl : ∀ m' ∈ l, m' = m) : applyAll view l = apply view m := by
  induction l generalizing view with
  | nil => exact absurd rfl hne
  | cons m' l ih =>
    obtain rfl := hl m' List.mem_cons_self
    rw [applyAll_cons]
    by_cases hnil : l = []
    · rw [hnil, applyAll_nil]
    · rw [ih hnil fun m'' hm'' => hl m'' (List.mem_cons_of_mem _ hm''), apply_apply]

/-- **Snapshots.**  Entries that do not contradict each other are added to what is
there, and replace what is there under their keys. -/
theorem applyAll_sets {l : List (K × V)} (hl : ∀ e ∈ l, ∀ e' ∈ l, e.1 = e'.1 → e = e') :
    applyAll view (l.map fun e => .set e.1 e.2) k = some v ↔
      (k, v) ∈ l ∨ k ∉ l.map Prod.fst ∧ view k = some v := by
  induction l generalizing view with
  | nil => simp
  | cons e l ih =>
    rw [List.map_cons, applyAll_cons,
      ih fun e₁ h₁ e₂ h₂ => hl e₁ (List.mem_cons_of_mem _ h₁) e₂ (List.mem_cons_of_mem _ h₂)]
    by_cases hk : k = e.1
    · subst hk
      rw [apply_set_self, List.mem_cons, List.map_cons, List.mem_cons, Option.some.injEq]
      have hother : e.1 ∈ l.map Prod.fst → ∀ v, (e.1, v) ∈ l → v = e.2 := by
        intro _ v hv
        have heq := hl (e.1, v) (List.mem_cons_of_mem _ hv) e List.mem_cons_self rfl
        exact congrArg Prod.snd heq
      constructor
      · rintro (hmem | ⟨-, rfl⟩)
        · exact Or.inl (Or.inr hmem)
        · exact Or.inl (Or.inl rfl)
      · rintro ((heq | hmem) | ⟨hnot, -⟩)
        · by_cases hkeys : e.1 ∈ l.map Prod.fst
          · obtain ⟨e', he', hfst⟩ := List.mem_map.mp hkeys
            have heq' := hl e' (List.mem_cons_of_mem _ he') e List.mem_cons_self hfst
            exact Or.inl (by rw [heq, ← heq']; exact he')
          · exact Or.inr ⟨hkeys, (congrArg Prod.snd heq).symm⟩
        · exact Or.inl hmem
        · exact absurd (Or.inl rfl) hnot
    · rw [apply_set_of_ne hk, List.mem_cons, List.map_cons, List.mem_cons]
      refine or_congr ⟨Or.inr, fun h => h.resolve_left fun heq => hk (congrArg Prod.fst heq)⟩
        (and_congr_left fun _ => ?_)
      exact ⟨fun hnot h => h.elim hk hnot, fun hnot h => hnot (Or.inr h)⟩

end Message
end MmoBackend
