import MmoBackend.Library.Exec

/-!
# The states a piece of code passes

`Exec` says where a piece of code ends.  What holds while it runs is a statement about
the states in between, and these depend on how the code is put together.  A
`Walk γ x` is a way to walk through `x`: it follows the text of `x` and says which
parts of it are taken as one step.  The index of the type is the code itself, so a
walk cannot be one through other code.

A walk also keeps notes of a type `γ`, which the code knows nothing of: what calls
are under way, what has been done so far.  `passed` are the states after the steps
with the notes at that time, and `notes` are the notes at the end.

`Safe I walk s g Q` says that `I` holds wherever the walk comes along, and `Q` of
where it ends if the code returns.  It has a rule for each way to put code together.
-/

namespace MmoBackend

variable {σ : Type}

/-- A way to walk through a piece of code. -/
inductive Walk (γ : Type) : {α : Type} → Exec σ α → Type 1
  /-- In one step. -/
  | step {α : Type} (x : Exec σ α) : Walk γ x
  | bind {α β : Type} {x : Exec σ α} {f : α → Exec σ β} :
      Walk γ x → (∀ a, Walk γ (f a)) → Walk γ (x >>= f)
  /-- Something is noted before. -/
  | note {α : Type} {x : Exec σ α} (f : γ → γ) : Walk γ x → Walk γ x

namespace Walk

variable {γ α β : Type}

/-- A walk through a branch. -/
def ite {c : Prop} [hc : Decidable c] {x y : Exec σ α} (walk : Walk γ x) (walk' : Walk γ y) :
    Walk γ (if c then x else y) :=
  match hc with
  | .isTrue _ => walk
  | .isFalse _ => walk'

/-- A walk through a loop. -/
def forEach {f : α → Exec σ Unit} (walk : ∀ a, Walk γ (f a)) :
    ∀ l : List α, Walk γ (Exec.forEach l f)
  | [] => .step _
  | a :: l => .bind (walk a) fun _ => forEach walk l

/-- The notes at the end. -/
def notes {α : Type} {x : Exec σ α} : Walk γ x → σ → γ → γ
  | .step _, _, g => g
  | @bind _ _ _ _ x _ walk rest, s, g =>
    match x s with
    | .ok (a, t) => (rest a).notes t (walk.notes s g)
    | .error _ => walk.notes s g
  | .note f walk, s, g => walk.notes s (f g)

/-- The states on the way, with the notes. -/
def passed {α : Type} {x : Exec σ α} : Walk γ x → σ → γ → List (σ × γ)
  | .step x, s, g =>
    match x s with
    | .ok (_, t) => [(t, g)]
    | .error _ => []
  | @bind _ _ _ _ x _ walk rest, s, g =>
    walk.passed s g ++
      match x s with
      | .ok (a, t) => (rest a).passed t (walk.notes s g)
      | .error _ => []
  | .note f walk, s, g => (s, f g) :: walk.passed s (f g)

/-! ## What holds on the way -/

/-- `I` holds in every state the walk passes, and `Q` at its end. -/
def Safe (I : σ → γ → Prop) {x : Exec σ α} (walk : Walk γ x) (s : σ) (g : γ)
    (Q : α → σ → γ → Prop) : Prop :=
  (∀ e ∈ walk.passed s g, I e.1 e.2) ∧ ∀ a t, x s = .ok (a, t) → Q a t (walk.notes s g)

variable {I J : σ → γ → Prop} {x y : Exec σ α} {f : α → Exec σ β} {s : σ} {g : γ}
  {Q R : α → σ → γ → Prop}

/-- **One step.** -/
theorem safe_step (h : ∀ a t, x s = .ok (a, t) → I t g ∧ Q a t g) :
    Safe I (.step x : Walk γ x) s g Q := by
  constructor
  · intro e he
    rw [passed] at he
    cases hx : x s with
    | error _ =>
      rw [hx] at he
      exact absurd he List.not_mem_nil
    | ok r =>
      obtain ⟨a, t⟩ := r
      rw [hx] at he
      rw [List.mem_singleton.mp he]
      exact (h a t hx).1
  · exact fun a t hx => (h a t hx).2

/-- **One part after the other.** -/
theorem safe_bind {walk : Walk γ x} {rest : ∀ a, Walk γ (f a)} {P : β → σ → γ → Prop}
    (h : Safe I walk s g fun a t g' => Safe I (rest a) t g' P) :
    Safe I (walk.bind rest) s g P := by
  constructor
  · intro e he
    rw [passed] at he
    rcases List.mem_append.mp he with he | he
    · exact h.1 e he
    · cases hx : x s with
      | error _ =>
        rw [hx] at he
        exact absurd he List.not_mem_nil
      | ok r =>
        obtain ⟨a, t⟩ := r
        rw [hx] at he
        exact (h.2 a t hx).1 e he
  · intro b t hb
    obtain ⟨a, s', hx, hf⟩ := Exec.bind_eq_ok.mp hb
    rw [notes, hx]
    exact (h.2 a s' hx).2 b t hf

/-- One step, and what comes after it. -/
theorem safe_step_bind {rest : ∀ a, Walk γ (f a)} {P : β → σ → γ → Prop}
    (h : ∀ a t, x s = .ok (a, t) → I t g ∧ Safe I (rest a) t g P) :
    Safe I ((Walk.step x).bind rest) s g P :=
  safe_bind (safe_step h)

/-- **A note.** -/
theorem safe_note {walk : Walk γ x} {f : γ → γ} (hI : I s (f g)) (h : Safe I walk s (f g) Q) :
    Safe I (walk.note f) s g Q := by
  constructor
  · intro e he
    rw [passed] at he
    rcases List.mem_cons.mp he with rfl | he
    · exact hI
    · exact h.1 e he
  · intro a t hx
    rw [notes]
    exact h.2 a t hx

/-- **A branch.** -/
theorem safe_ite {c : Prop} [hc : Decidable c] {walk : Walk γ x} {walk' : Walk γ y}
    (h : c → Safe I walk s g Q) (h' : ¬c → Safe I walk' s g Q) :
    Safe I (Walk.ite walk walk' : Walk γ (if c then x else y)) s g Q := by
  cases hc with
  | isTrue hc => exact h hc
  | isFalse hc => exact h' hc

/-- What holds at the end may be weakened.  That the code returned may be used. -/
theorem Safe.imp {walk : Walk γ x} (h : Safe I walk s g Q)
    (hQ : ∀ a t g', x s = .ok (a, t) → Q a t g' → R a t g') : Safe I walk s g R :=
  ⟨h.1, fun a t hx => hQ a t _ hx (h.2 a t hx)⟩

/-- What holds on the way may be weakened. -/
theorem Safe.mono {walk : Walk γ x} (h : Safe I walk s g Q) (hI : ∀ t g', I t g' → J t g') :
    Safe J walk s g Q :=
  ⟨fun e he => hI e.1 e.2 (h.1 e he), h.2⟩

/-- **The loop rule.** -/
theorem safe_forEach {f : α → Exec σ Unit} {walk : ∀ a, Walk γ (f a)} {l : List α}
    {P : σ → γ → Prop} (hbody : ∀ a ∈ l, ∀ t g', P t g' → Safe I (walk a) t g' fun _ => P)
    (hend : ∀ t g', P t g' → I t g') (hs : P s g) :
    Safe I (forEach walk l) s g fun _ => P := by
  induction l generalizing s g with
  | nil =>
    refine safe_step fun _ t h => ?_
    obtain ⟨-, rfl⟩ := Exec.pure_eq_ok.mp h
    exact ⟨hend s g hs, hs⟩
  | cons a l ih =>
    refine safe_bind ((hbody a List.mem_cons_self s g hs).imp fun _ t g' _ ht => ?_)
    exact ih (fun b hb => hbody b (List.mem_cons_of_mem a hb)) ht

end Walk
end MmoBackend
