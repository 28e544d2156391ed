import Mathlib.Logic.Basic
import Mathlib.Data.List.Basic
import Mathlib.Order.Defs.Unbundled

/-!
# Sequential code with a state, and the ways it can fail to return

`Exec σ α` is the meaning of a piece of sequential code that works on a state
`σ`.  It either returns a value together with the new state, or stops for one of
the three reasons of `Stop`: it used memory it must not use, it tried to take a
lock it already holds, or the evaluation ran out of steps.  The last one is not
a behaviour of the code; it is how a recursion that need not end is cut off.

Reasoning is by inversion.  Each rule below turns "this composite returned" into
the same statement about its parts, so a proof about a function starts from the
assumption that the call returned and peels it apart from the front.  Nothing
has to be assumed about calls that do not return.
-/

namespace MmoBackend

/-- Why a piece of code did not return. -/
inductive Stop where
  /-- Memory was used that is not there: a null or dangling pointer, or an index
  outside an array. -/
  | fault
  /-- A lock was taken by the thread that already holds it. -/
  | deadlock
  /-- The evaluation was cut off. -/
  | fuel
  deriving DecidableEq, Repr

/-- Code that reads and writes a state `σ` and returns an `α`. -/
def Exec (σ α : Type) : Type := σ → Except Stop (α × σ)

namespace Exec

variable {σ α β : Type}

instance : Monad (Exec σ) where
  pure a := fun s => .ok (a, s)
  bind x f := fun s =>
    match x s with
    | .ok (a, t) => f a t
    | .error e => .error e

/-- The current state. -/
def get : Exec σ σ := fun s => .ok (s, s)

/-- Replace the state. -/
def modify (f : σ → σ) : Exec σ Unit := fun s => .ok ((), f s)

/-- Stop. -/
def stop (e : Stop) : Exec σ α := fun _ => .error e

/-- Use a value that may be missing: a pointer that may be null, a cell that may
not be allocated. -/
def need : Option α → Exec σ α
  | some a => pure a
  | none => stop .fault

/-- Run the body on every element of a list, in order. -/
def forEach (l : List α) (f : α → Exec σ Unit) : Exec σ Unit :=
  match l with
  | [] => pure ()
  | a :: l => do
    f a
    forEach l f

/-! ## Inversion -/

section Inversion

variable {x : Exec σ α} {f : α → Exec σ β} {s t : σ}

theorem bind_eq_ok {r : β × σ} :
    (x >>= f) s = .ok r ↔ ∃ a t, x s = .ok (a, t) ∧ f a t = .ok r := by
  have hbind : (x >>= f) s = match x s with
      | .ok (a, t) => f a t
      | .error e => .error e := rfl
  rw [hbind]
  cases hx : x s with
  | error e => simp
  | ok r' =>
    obtain ⟨a, t⟩ := r'
    simp

@[simp] theorem pure_eq_ok {a b : α} :
    (pure a : Exec σ α) s = .ok (b, t) ↔ a = b ∧ s = t := by
  have hpure : (pure a : Exec σ α) s = .ok (a, s) := rfl
  rw [hpure, Except.ok.injEq, Prod.mk.injEq]

@[simp] theorem get_eq_ok {r : σ} :
    (get : Exec σ σ) s = .ok (r, t) ↔ s = r ∧ s = t := by
  rw [get, Except.ok.injEq, Prod.mk.injEq]

@[simp] theorem modify_eq_ok {g : σ → σ} {u : Unit} :
    (modify g : Exec σ Unit) s = .ok (u, t) ↔ g s = t := by
  simp [modify]

@[simp] theorem stop_eq_ok {e : Stop} {r : α × σ} :
    (stop e : Exec σ α) s = .ok r ↔ False := by
  simp [stop]

@[simp] theorem need_eq_ok {o : Option α} {a : α} :
    (need o : Exec σ α) s = .ok (a, t) ↔ o = some a ∧ s = t := by
  cases o with
  | none => simp [need]
  | some b => simp [need]

theorem ite_eq_ok {c : Prop} [Decidable c] {y z : Exec σ α} {r : α × σ} :
    (if c then y else z) s = .ok r ↔ (c ∧ y s = .ok r) ∨ (¬c ∧ z s = .ok r) := by
  by_cases hc : c
  · simp [hc]
  · simp [hc]

theorem bind_of_ok {a : α} (h : x s = .ok (a, t)) : (x >>= f) s = f a t := by
  have hbind : (x >>= f) s = match x s with
      | .ok (a, t) => f a t
      | .error e => .error e := rfl
  rw [hbind, h]

theorem bind_of_error {e : Stop} (h : x s = .error e) : (x >>= f) s = .error e := by
  have hbind : (x >>= f) s = match x s with
      | .ok (a, t) => f a t
      | .error e => .error e := rfl
  rw [hbind, h]

theorem get_bind (f : σ → Exec σ β) (s : σ) : (get >>= f) s = f s s := rfl

theorem modify_bind (g : σ → σ) (f : Unit → Exec σ β) (s : σ) :
    (modify g >>= f) s = f () (g s) := rfl

/-- What follows a call depends only on how the call ends. -/
theorem bind_congr {y : Exec σ α} (h : x s = y t) : (x >>= f) s = (y >>= f) t := by
  cases hx : x s with
  | error e => rw [bind_of_error hx, bind_of_error (h.symm.trans hx)]
  | ok r =>
    obtain ⟨a, u⟩ := r
    rw [bind_of_ok hx, bind_of_ok (h.symm.trans hx)]

/-- Where the parentheses stand does not matter. -/
theorem assoc {γ : Type} (x : Exec σ α) (f : α → Exec σ β) (g : β → Exec σ γ) :
    x >>= f >>= g = x >>= fun a => f a >>= g := by
  funext s
  cases hx : x s with
  | error e => rw [bind_of_error hx, bind_of_error (bind_of_error hx)]
  | ok r =>
    obtain ⟨a, t⟩ := r
    rw [bind_of_ok hx]
    cases hf : f a t with
    | error e => rw [bind_of_error hf, bind_of_error ((bind_of_ok hx).trans hf)]
    | ok r' =>
      obtain ⟨b, u⟩ := r'
      rw [bind_of_ok hf, bind_of_ok ((bind_of_ok hx).trans hf)]

theorem need_some_bind (a : α) (f : α → Exec σ β) : (need (some a) >>= f) s = f a s := rfl

theorem need_none_bind (f : α → Exec σ β) : (need none >>= f) s = .error .fault := rfl

end Inversion

/-! ## Loops

A loop whose body keeps a relation between the state before the loop and the
current state keeps it to the end. -/

@[simp] theorem forEach_nil (f : α → Exec σ Unit) :
    forEach [] f = (pure () : Exec σ Unit) := rfl

theorem forEach_cons (a : α) (l : List α) (f : α → Exec σ Unit) :
    forEach (a :: l) f = (f a >>= fun _ => forEach l f) := rfl

/-- A loop whose rounds all leave the state as it is. -/
theorem forEach_of_same {l : List α} {f : α → Exec σ Unit} {s : σ}
    (h : ∀ a ∈ l, f a s = .ok ((), s)) : forEach l f s = .ok ((), s) := by
  induction l with
  | nil => rfl
  | cons a l ih =>
    rw [forEach_cons, bind_of_ok (h a List.mem_cons_self)]
    exact ih fun b hb => h b (List.mem_cons_of_mem a hb)

theorem forEach_singleton (f : α → Exec σ Unit) (a : α) : forEach [a] f = f a := by
  funext s
  rw [forEach_cons, forEach_nil]
  cases h : f a s with
  | error e => exact bind_of_error h
  | ok r =>
    obtain ⟨⟨⟩, t⟩ := r
    exact bind_of_ok h

/-- **The loop rule.**  An invariant of the body is an invariant of the loop. -/
theorem forEach_invariant {I : σ → Prop} {l : List α} {f : α → Exec σ Unit}
    (hbody : ∀ a ∈ l, ∀ s t, I s → f a s = .ok ((), t) → I t) {s t : σ} (hs : I s)
    (h : forEach l f s = .ok ((), t)) : I t := by
  induction l generalizing s with
  | nil =>
    rw [forEach_nil, pure_eq_ok] at h
    exact h.2 ▸ hs
  | cons a l ih =>
    rw [forEach_cons, bind_eq_ok] at h
    obtain ⟨⟨⟩, s', ha, hl⟩ := h
    have hs' : I s' := hbody a List.mem_cons_self s s' hs ha
    exact ih (fun b hb => hbody b (List.mem_cons_of_mem a hb)) hs' hl

/-- What one round of a loop brings about and no round takes back holds after the
loop. -/
theorem forEach_establish {I P : σ → Prop} {l : List α} {f : α → Exec σ Unit} {a : α} (ha : a ∈ l)
    (hbody : ∀ b ∈ l, ∀ s t, I s → f b s = .ok ((), t) → I t)
    (hset : ∀ s t, I s → f a s = .ok ((), t) → P t)
    (hkeep : ∀ b ∈ l, ∀ s t, I s → P s → f b s = .ok ((), t) → P t) {s t : σ} (hs : I s)
    (h : forEach l f s = .ok ((), t)) : P t := by
  induction l generalizing s with
  | nil => exact absurd ha List.not_mem_nil
  | cons b l ih =>
    rw [forEach_cons, bind_eq_ok] at h
    obtain ⟨⟨⟩, s', hb, hl⟩ := h
    have hs' : I s' := hbody b List.mem_cons_self s s' hs hb
    have hbody' := fun c (hc : c ∈ l) => hbody c (List.mem_cons_of_mem b hc)
    have hkeep' := fun c (hc : c ∈ l) => hkeep c (List.mem_cons_of_mem b hc)
    rcases List.mem_cons.mp ha with rfl | ha
    · have hloop := forEach_invariant (I := fun u => I u ∧ P u)
        (fun c hc u v hu hcv => ⟨hbody' c hc u v hu.1 hcv, hkeep' c hc u v hu.1 hu.2 hcv⟩)
        ⟨hs', hset s s' hs hb⟩ hl
      exact hloop.2
    · exact ih ha hbody' hkeep' hs' hl

/-! ## Running code -/

/-- A view of the state in which a piece of code ends. -/
def endView (view : σ → β) (x : Exec σ α) (s : σ) : Option β :=
  match x s with
  | .ok r => some (view r.2)
  | .error _ => none

theorem endView_eq_some {view : σ → β} {x : Exec σ α} {s : σ} {b : β} :
    endView view x s = some b ↔ ∃ a t, x s = .ok (a, t) ∧ view t = b := by
  unfold endView
  cases x s with
  | error e => simp
  | ok r =>
    obtain ⟨a, t⟩ := r
    simp

/-- What a piece of code returns. -/
def value (x : Exec σ α) (s : σ) : Option α :=
  match x s with
  | .ok r => some r.1
  | .error _ => none

theorem value_eq_some {x : Exec σ α} {s : σ} {a : α} :
    value x s = some a ↔ ∃ t, x s = .ok (a, t) := by
  unfold value
  cases x s with
  | error e => simp
  | ok r =>
    obtain ⟨b, t⟩ := r
    simp

/-! ## What a piece of code does at most

`Within R x` says that whenever `x` returns, `R` relates the state before to the
state after.  For a reflexive and transitive `R` it passes through composition,
so it is proved of a function by going over its text. -/

/-- `x` moves the state along `R`. -/
def Within (R : σ → σ → Prop) (x : Exec σ α) : Prop := ∀ s a t, x s = .ok (a, t) → R s t

section Within

variable {R : σ → σ → Prop}

theorem within_stop (e : Stop) : Within R (stop e : Exec σ α) :=
  fun _ _ _ h => (stop_eq_ok.mp h).elim

theorem within_modify {f : σ → σ} (hf : ∀ s, R s (f s)) : Within R (modify f) := by
  intro s u t h
  obtain rfl := modify_eq_ok.mp h
  exact hf s

theorem within_get_bind {f : σ → Exec σ α} (hf : ∀ s, Within R (f s)) : Within R (get >>= f) :=
  fun s a t h => hf s s a t h

theorem within_need_bind {o : Option β} {f : β → Exec σ α}
    (hf : ∀ b, o = some b → Within R (f b)) : Within R (need o >>= f) := by
  cases o with
  | none => exact fun _ _ _ h => absurd h (by rw [need_none_bind]; simp)
  | some b => exact hf b rfl

theorem within_ite {c : Prop} [Decidable c] {x y : Exec σ α} (hx : Within R x)
    (hy : Within R y) : Within R (if c then x else y) := by
  split
  · exact hx
  · exact hy

variable [IsPreorder σ R]

theorem within_of_state_eq {x : Exec σ α} (h : ∀ s a t, x s = .ok (a, t) → s = t) :
    Within R x :=
  fun s a t hx => h s a t hx ▸ refl_of R s

theorem within_pure (a : α) : Within R (pure a : Exec σ α) :=
  within_of_state_eq fun _ _ _ h => (pure_eq_ok.mp h).2

theorem within_bind {x : Exec σ α} {f : α → Exec σ β} (hx : Within R x)
    (hf : ∀ a, Within R (f a)) : Within R (x >>= f) := by
  intro s b u h
  obtain ⟨a, t, ha, hb⟩ := bind_eq_ok.mp h
  exact trans_of R (hx s a t ha) (hf a t b u hb)

theorem within_forEach {l : List β} {f : β → Exec σ Unit} (hf : ∀ b ∈ l, Within R (f b)) :
    Within R (forEach l f) := by
  intro s u t h
  exact forEach_invariant (I := R s) (fun b hb v v' hv hbody =>
    trans_of R hv (hf b hb v () v' hbody)) (refl_of R s) h

end Within

/-! ## What a piece of code keeps

`Keeps I P x` says that `x`, started in a state with `I`, ends in one if it returns, and
returns a value with `P`.  A value that was read from such a state is known to have a
property, and may be written back. -/

/-- `x` keeps `I` and returns values with `P`. -/
def Keeps (I : σ → Prop) (P : α → Prop) (x : Exec σ α) : Prop :=
  ∀ s a t, I s → x s = .ok (a, t) → I t ∧ P a

section Keeps

variable {I : σ → Prop} {P : α → Prop} {Q : β → Prop}

theorem keeps_stop (e : Stop) : Keeps I P (stop e) := fun _ _ _ _ h => (stop_eq_ok.mp h).elim

theorem keeps_pure {a : α} (ha : P a) : Keeps I P (pure a) := by
  intro s b t hs h
  obtain ⟨rfl, rfl⟩ := pure_eq_ok.mp h
  exact ⟨hs, ha⟩

theorem keeps_need {o : Option α} (ho : ∀ a, o = some a → P a) : Keeps I P (need o) := by
  intro s a t hs h
  obtain ⟨ha, rfl⟩ := need_eq_ok.mp h
  exact ⟨hs, ho a ha⟩

theorem keeps_modify {f : σ → σ} {P : Unit → Prop} (hf : ∀ s, I s → I (f s)) (hP : P ()) :
    Keeps I P (modify f) := by
  intro s u t hs h
  obtain rfl := modify_eq_ok.mp h
  exact ⟨hf s hs, hP⟩

theorem keeps_get_bind {f : σ → Exec σ α} (hf : ∀ s, I s → Keeps I P (f s)) :
    Keeps I P (get >>= f) :=
  fun s a t hs h => hf s hs s a t hs h

theorem keeps_bind {x : Exec σ α} {f : α → Exec σ β} (hx : Keeps I P x)
    (hf : ∀ a, P a → Keeps I Q (f a)) : Keeps I Q (x >>= f) := by
  intro s b u hs h
  obtain ⟨a, t, ha, hb⟩ := bind_eq_ok.mp h
  obtain ⟨ht, hP⟩ := hx s a t hs ha
  exact hf a hP t b u ht hb

theorem keeps_ite {c : Prop} [Decidable c] {x y : Exec σ α} (hx : c → Keeps I P x)
    (hy : ¬c → Keeps I P y) : Keeps I P (if c then x else y) := by
  split
  · exact hx ‹c›
  · exact hy ‹¬c›

theorem keeps_forEach {l : List β} {f : β → Exec σ Unit}
    (hf : ∀ b ∈ l, Keeps I (fun _ => True) (f b)) : Keeps I (fun _ => True) (forEach l f) := by
  intro s u t hs h
  exact ⟨forEach_invariant (fun b hb v v' hv hbody => (hf b hb v () v' hv hbody).1) hs h, trivial⟩

end Keeps

/-! ## Two runs side by side

`Paired R x y` follows two runs that start in related states.  Whenever `x` returns, `y`
returns the same value, and the states are related again.  It passes through composition,
so of two pieces of code with the same text it is proved by going over the text. -/

/-- `y` can follow `x` along `R`. -/
def Paired (R : σ → σ → Prop) (x y : Exec σ α) : Prop :=
  ∀ s t a s', R s t → x s = .ok (a, s') → ∃ t', y t = .ok (a, t') ∧ R s' t'

section Paired

variable {R : σ → σ → Prop} {x y : Exec σ α} {f g : α → Exec σ β}

theorem paired_pure (a : α) : Paired R (pure a) (pure a) := by
  intro s t b s' hR h
  obtain ⟨rfl, rfl⟩ := pure_eq_ok.mp h
  exact ⟨t, rfl, hR⟩

theorem paired_stop (e : Stop) (y : Exec σ α) : Paired R (stop e) y :=
  fun _ _ _ _ _ h => (stop_eq_ok.mp h).elim

theorem paired_need (o : Option α) : Paired R (need o) (need o) := by
  cases o with
  | none => exact paired_stop _ _
  | some a => exact paired_pure a

/-- Of the value only what the first run can return has to be looked at. -/
theorem paired_bind_of {P : α → Prop} (hx : Paired R x y) (hP : ∀ s a t, x s = .ok (a, t) → P a)
    (hf : ∀ a, P a → Paired R (f a) (g a)) : Paired R (x >>= f) (y >>= g) := by
  intro s t b s' hR h
  obtain ⟨a, s₁, ha, hb⟩ := bind_eq_ok.mp h
  obtain ⟨t₁, ha', hR₁⟩ := hx s t a s₁ hR ha
  obtain ⟨t', hb', hR'⟩ := hf a (hP s a s₁ ha) s₁ t₁ b s' hR₁ hb
  exact ⟨t', (bind_of_ok ha').trans hb', hR'⟩

theorem paired_bind (hx : Paired R x y) (hf : ∀ a, Paired R (f a) (g a)) :
    Paired R (x >>= f) (y >>= g) :=
  paired_bind_of (P := fun _ => True) hx (fun _ _ _ _ => trivial) fun a _ => hf a

theorem paired_ite {c : Prop} [Decidable c] {x' y' : Exec σ α} (hx : Paired R x x')
    (hy : Paired R y y') : Paired R (if c then x else y) (if c then x' else y') := by
  split
  · exact hx
  · exact hy

theorem paired_forEach {l : List α} {f g : α → Exec σ Unit}
    (hf : ∀ a ∈ l, Paired R (f a) (g a)) : Paired R (forEach l f) (forEach l g) := by
  induction l with
  | nil => exact paired_pure ()
  | cons a l ih =>
    rw [forEach_cons, forEach_cons]
    exact paired_bind (hf a List.mem_cons_self) fun _ =>
      ih fun b hb => hf b (List.mem_cons_of_mem a hb)

end Paired

/-! ## Returning more often

`Below x y` says that `y` returns whenever `x` does, with the same result.  A recursion
that is cut off grows along it with the number of its rounds.  It is `Paired` for two
runs that start in the same state. -/

/-- Whatever `x` returns, `y` returns. -/
def Below (x y : Exec σ α) : Prop := ∀ s r, x s = .ok r → y s = .ok r

section Below

variable {x y : Exec σ α} {f g : α → Exec σ β} {s : σ}

theorem below_iff_paired : Below x y ↔ Paired (· = ·) x y := by
  constructor
  · rintro h s _ a s' rfl hx
    exact ⟨s', h s (a, s') hx, rfl⟩
  · intro h s r hx
    obtain ⟨_, hy, rfl⟩ := h s s r.1 r.2 rfl hx
    exact hy

theorem Below.refl (x : Exec σ α) : Below x x := fun _ _ h => h

/-- Code that stops is below everything. -/
theorem below_stop (e : Stop) (x : Exec σ α) : Below (stop e) x :=
  below_iff_paired.mpr (paired_stop e x)

theorem below_bind (hx : Below x y) (hf : ∀ a, Below (f a) (g a)) :
    Below (x >>= f) (y >>= g) :=
  below_iff_paired.mpr
    (paired_bind (below_iff_paired.mp hx) fun a => below_iff_paired.mp (hf a))

/-- The first part is the same code. -/
theorem below_bind_right (hf : ∀ a, Below (f a) (g a)) : Below (x >>= f) (x >>= g) :=
  below_bind (Below.refl x) hf

theorem below_ite {c : Prop} [Decidable c] {x' y' : Exec σ α} (hx : Below x x')
    (hy : Below y y') : Below (if c then x else y) (if c then x' else y') :=
  below_iff_paired.mpr (paired_ite (below_iff_paired.mp hx) (below_iff_paired.mp hy))

theorem below_forEach {l : List α} {f g : α → Exec σ Unit} (hf : ∀ a ∈ l, Below (f a) (g a)) :
    Below (forEach l f) (forEach l g) :=
  below_iff_paired.mpr (paired_forEach fun a ha => below_iff_paired.mp (hf a ha))

end Below

end Exec
end MmoBackend
