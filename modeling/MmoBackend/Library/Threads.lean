import Mathlib.Data.List.Nodup
import Mathlib.Data.List.Perm.Basic
import Mathlib.Logic.Function.Basic
import Mathlib.Logic.Relation
import Mathlib.Order.WellFounded
import MmoBackend.Library.Walk

/-!
# Threads that take locks

A walk through a piece of code cuts it into steps.  `Walk.resume` does the first of them
and says what is left, so several threads can be run one step at a time, in any order, on
one state.  Alone, a thread does what its code does (`runsAlone_iff`).

The state lists the locks that are held, by whichever thread.  Taking a lock that is held
stops the code with `Stop.deadlock`, and for a thread this means that it waits: the step
can be tried again when the lock is free.  `Threads` notes who holds which lock, and a
thread waits for another one if its next step is refused exactly as long as a lock is held
which the other one holds.

`Polite` is the discipline that rules deadlocks out.  A thread takes locks in the order of
their ranks only, gives back its own locks only, and ends without any.  It is a statement
about the text of the code: nothing is assumed about what happens to the state between two
steps.  So the runs that are considered are those in which it may change in any way there,
`Discipline.Moves`, and `Sound.not_deadlocked` says that behind every thread that waits
there is one that does not.
-/

namespace MmoBackend

variable {σ γ K : Type}

/-- What is left of a piece of code, and the walk through it. -/
structure Rest (σ γ α : Type) where
  code : Exec σ α
  walk : Walk γ code

namespace Walk

variable {α β : Type}

/-- The next step, and what is left after it. -/
def resume {α : Type} {x : Exec σ α} :
    Walk γ x → σ → γ → Except Stop ((α ⊕ Rest σ γ α) × σ × γ)
  | .step x, s, g =>
    match x s with
    | .ok (a, t) => .ok (.inl a, t, g)
    | .error e => .error e
  | @bind _ _ _ _ _ f walk rest, s, g =>
    match walk.resume s g with
    | .ok (.inl a, t, g') => .ok (.inr ⟨f a, rest a⟩, t, g')
    | .ok (.inr left, t, g') => .ok (.inr ⟨left.code >>= f, left.walk.bind rest⟩, t, g')
    | .error e => .error e
  | @note _ _ _ x f walk, s, g => .ok (.inr ⟨x, walk⟩, s, f g)

/-- The steps of a walk one after the other, up to its end. -/
inductive RunsAlone : Rest σ γ α → σ → γ → α → σ → Prop
  | last {rest : Rest σ γ α} {s t : σ} {g g' : γ} {a : α} :
      rest.walk.resume s g = .ok (.inl a, t, g') → RunsAlone rest s g a t
  | more {rest rest' : Rest σ γ α} {s t u : σ} {g g' : γ} {a : α} :
      rest.walk.resume s g = .ok (.inr rest', t, g') → RunsAlone rest' t g' a u →
      RunsAlone rest s g a u

section Resume

variable {s t : σ} {g g' : γ}

theorem resume_step_eq_ok {x : Exec σ α} {r : α ⊕ Rest σ γ α} :
    (Walk.step x).resume s g = .ok (r, t, g') ↔ ∃ a, x s = .ok (a, t) ∧ .inl a = r ∧ g = g' := by
  rw [resume]
  rcases x s with e | ⟨a, u⟩
  · simp
  · simp only [Except.ok.injEq, Prod.mk.injEq]
    constructor
    · rintro ⟨rfl, rfl, rfl⟩
      exact ⟨a, ⟨rfl, rfl⟩, rfl, rfl⟩
    · rintro ⟨_, ⟨rfl, rfl⟩, rfl, rfl⟩
      exact ⟨rfl, rfl, rfl⟩

/-- The first part of a walk has come to its end with this step, or it has not. -/
theorem resume_bind_eq_ok {x : Exec σ α} {f : α → Exec σ β} {walk : Walk γ x}
    {rest : ∀ a, Walk γ (f a)} {r : β ⊕ Rest σ γ β} :
    (walk.bind rest).resume s g = .ok (r, t, g') ↔
      (∃ a, walk.resume s g = .ok (.inl a, t, g') ∧ .inr ⟨f a, rest a⟩ = r) ∨
      ∃ left, walk.resume s g = .ok (.inr left, t, g') ∧
        .inr ⟨left.code >>= f, left.walk.bind rest⟩ = r := by
  rw [resume]
  rcases walk.resume s g with e | ⟨a | left, u, g₁⟩
  · simp
  · simp only [Except.ok.injEq, Prod.mk.injEq]
    constructor
    · rintro ⟨rfl, rfl, rfl⟩
      exact .inl ⟨a, ⟨rfl, rfl, rfl⟩, rfl⟩
    · rintro (⟨_, ⟨ha, rfl, rfl⟩, rfl⟩ | ⟨_, ⟨hleft, -⟩, -⟩)
      · exact ⟨by rw [Sum.inl.inj ha], rfl, rfl⟩
      · cases hleft
  · simp only [Except.ok.injEq, Prod.mk.injEq]
    constructor
    · rintro ⟨rfl, rfl, rfl⟩
      exact .inr ⟨left, ⟨rfl, rfl, rfl⟩, rfl⟩
    · rintro (⟨_, ⟨ha, -⟩, -⟩ | ⟨_, ⟨hleft, rfl, rfl⟩, rfl⟩)
      · cases ha
      · exact ⟨by rw [Sum.inr.inj hleft], rfl, rfl⟩

theorem resume_note_eq_ok {x : Exec σ α} {f : γ → γ} {walk : Walk γ x} {r : α ⊕ Rest σ γ α} :
    (walk.note f).resume s g = .ok (r, t, g') ↔ .inr ⟨x, walk⟩ = r ∧ s = t ∧ f g = g' := by
  rw [resume, Except.ok.injEq, Prod.mk.injEq, Prod.mk.injEq]

end Resume

/-- One step does what the code does. -/
theorem code_of_resume {x : Exec σ α} (walk : Walk γ x) {s t : σ} {g g' : γ}
    {r : α ⊕ Rest σ γ α} (h : walk.resume s g = .ok (r, t, g')) :
    x s = match r with
      | .inl a => .ok (a, t)
      | .inr rest => rest.code t := by
  induction walk generalizing s t g g' with
  | step x =>
    obtain ⟨a, hx, rfl, -⟩ := resume_step_eq_ok.mp h
    exact hx
  | bind walk rest ih _ =>
    rcases resume_bind_eq_ok.mp h with ⟨a, hfirst, rfl⟩ | ⟨left, hfirst, rfl⟩
    · exact Exec.bind_of_ok (ih hfirst)
    · exact Exec.bind_congr (ih hfirst)
  | note f walk _ =>
    obtain ⟨rfl, rfl, -⟩ := resume_note_eq_ok.mp h
    rfl

/-- A walk that comes to its end does what the code does. -/
theorem RunsAlone.code_eq {rest : Rest σ γ α} {s t : σ} {g : γ} {a : α}
    (h : RunsAlone rest s g a t) : rest.code s = .ok (a, t) := by
  induction h with
  | last hstep => exact code_of_resume _ hstep
  | more hstep _ ih => exact (code_of_resume _ hstep).trans ih

theorem RunsAlone.bind {f : α → Exec σ β} {rest : Rest σ γ α}
    {next : ∀ a, Walk γ (f a)} {s t u : σ} {g : γ} {a : α} {b : β} (h : RunsAlone rest s g a t)
    (hnext : ∀ g', RunsAlone ⟨f a, next a⟩ t g' b u) :
    RunsAlone ⟨rest.code >>= f, rest.walk.bind next⟩ s g b u := by
  induction h with
  | @last rest _ _ _ g' a hstep =>
    exact .more (resume_bind_eq_ok.mpr (.inl ⟨a, hstep, rfl⟩)) (hnext g')
  | @more rest rest' _ _ _ _ _ _ hstep _ ih =>
    exact .more (resume_bind_eq_ok.mpr (.inr ⟨rest', hstep, rfl⟩)) (ih hnext)

/-- **Alone**, a thread does what its code does. -/
theorem runsAlone_iff {x : Exec σ α} (walk : Walk γ x) {s t : σ} {g : γ} {a : α} :
    RunsAlone ⟨x, walk⟩ s g a t ↔ x s = .ok (a, t) := by
  refine ⟨RunsAlone.code_eq, fun h => ?_⟩
  induction walk generalizing s t g with
  | step x =>
    exact .last (resume_step_eq_ok.mpr ⟨a, h, rfl, rfl⟩)
  | bind walk rest ih ihrest =>
    obtain ⟨b, u, hx, hf⟩ := Exec.bind_eq_ok.mp h
    exact (ih hx).bind fun g' => ihrest b hf
  | note f walk ih => exact .more rfl (ih h)

end Walk

/-! ## Threads -/

/-- Threads that work on one state. -/
structure Threads (σ γ K T : Type) where
  state : σ
  notes : T → γ
  /-- The locks a thread holds. -/
  held : T → List K
  /-- What a thread has left to do. -/
  todo : T → Option (Rest σ γ Unit)

namespace Threads

variable {T : Type} [DecidableEq T] [DecidableEq K]

/-- All threads are at the start of their code. -/
def start (state : σ) (notes : γ) (program : T → Rest σ γ Unit) : Threads σ γ K T :=
  ⟨state, fun _ => notes, fun _ => [], fun t => some (program t)⟩

/-- The locks of a thread after a step of its.  The state held `before`, and `after` now. -/
def handOver (before after mine : List K) : List K :=
  after.diff before ++ mine.diff (before.diff after)

/-- One thread does its next step, if it can. -/
def next (locks : σ → List K) (s : Threads σ γ K T) (t : T) : Option (Threads σ γ K T) :=
  match s.todo t with
  | none => none
  | some rest =>
    match rest.walk.resume s.state (s.notes t) with
    | .error _ => none
    | .ok (r, v, g) => some
        { state := v
          notes := Function.update s.notes t g
          held := Function.update s.held t (handOver (locks s.state) (locks v) (s.held t))
          todo := Function.update s.todo t r.getRight? }

theorem exists_of_next {locks : σ → List K} {s s' : Threads σ γ K T} {t : T}
    (h : s.next locks t = some s') : ∃ rest r v g, s.todo t = some rest ∧
      rest.walk.resume s.state (s.notes t) = .ok (r, v, g) ∧
      s' = { state := v
             notes := Function.update s.notes t g
             held := Function.update s.held t (handOver (locks s.state) (locks v) (s.held t))
             todo := Function.update s.todo t r.getRight? } := by
  rw [next] at h
  cases htodo : s.todo t with
  | none => simp [htodo] at h
  | some rest =>
    rcases hrun : rest.walk.resume s.state (s.notes t) with e | ⟨r, v, g⟩
    · simp [htodo, hrun] at h
    · simp only [htodo, hrun, Option.some.injEq] at h
      exact ⟨rest, r, v, g, rfl, hrun, h.symm⟩

/-- A lock keeps a thread from doing its next step. -/
def Refused (s : Threads σ γ K T) (t : T) : Prop :=
  ∃ rest, s.todo t = some rest ∧ rest.walk.resume s.state (s.notes t) = .error .deadlock

/-- A thread waits for another one: its next step is refused exactly as long as a lock is
held, and the other thread holds this lock. -/
def WaitsFor (locks : σ → List K) (s : Threads σ γ K T) (t u : T) : Prop :=
  ∃ rest l, s.todo t = some rest ∧ l ∈ s.held u ∧
    ∀ v, rest.walk.resume v (s.notes t) = .error .deadlock ↔ l ∈ locks v

end Threads

/-! ## The discipline -/

/-- What is asked of threads, and what is taken for granted. -/
structure Discipline (σ γ K R : Type) where
  /-- The locks that are held. -/
  locks : σ → List K
  /-- The order in which locks are taken. -/
  rank : K → R
  /-- What every step keeps. -/
  keeps : σ → Prop
  /-- What the notes are assumed to say. -/
  clean : γ → Prop

namespace Discipline

variable {R : Type} {α β : Type}

section Runs

variable {T : Type} [DecidableEq T] [DecidableEq K] (D : Discipline σ γ K R)

/-- What can happen: a thread does a step, and the notes are what they are assumed to be; or
the state changes in any way, but for the locks and what every step keeps. -/
inductive Moves (s : Threads σ γ K T) : Threads σ γ K T → Prop
  | step {t : T} {s' : Threads σ γ K T} :
      s.next D.locks t = some s' → D.clean (s'.notes t) → Moves s s'
  | other {v : σ} : D.locks v = D.locks s.state → D.keeps v → Moves s { s with state := v }

/-- The threads take their steps in a given order. -/
def schedule [DecidablePred D.clean] :
    List T → Threads σ γ K T → Option (Threads σ γ K T)
  | [], s => some s
  | t :: l, s =>
    match s.next D.locks t with
    | none => none
    | some s' => if D.clean (s'.notes t) then schedule l s' else none

variable {D} in
theorem reaches_of_schedule [DecidablePred D.clean] {l : List T} {s s' : Threads σ γ K T}
    (h : D.schedule l s = some s') : Relation.ReflTransGen D.Moves s s' := by
  induction l generalizing s with
  | nil => exact Option.some.inj h ▸ .refl
  | cons t l ih =>
    rw [schedule] at h
    cases hstep : s.next D.locks t with
    | none => simp [hstep] at h
    | some m =>
      simp only [hstep, Option.ite_none_right_eq_some] at h
      exact .head (.step hstep h.1) (ih h.2)

end Runs

/-! ## Code that has nothing to do with locks -/

/-- A piece of code that neither takes nor gives back a lock, and waits for none. -/
def Neutral (D : Discipline σ γ K R) (x : Exec σ α) : Prop :=
  ∀ s, D.keeps s → x s ≠ .error .deadlock ∧
    ∀ a t, x s = .ok (a, t) → D.keeps t ∧ D.locks t = D.locks s

section Neutral

variable {D : Discipline σ γ K R} {x y : Exec σ α} {f : α → Exec σ β}

theorem neutral_pure (a : α) : D.Neutral (pure a : Exec σ α) := by
  refine fun s hs => ⟨(nomatch ·), fun b t h => ?_⟩
  obtain ⟨-, rfl⟩ := Exec.pure_eq_ok.mp h
  exact ⟨hs, rfl⟩

theorem neutral_get : D.Neutral (Exec.get : Exec σ σ) := by
  refine fun s hs => ⟨(nomatch ·), fun b t h => ?_⟩
  obtain ⟨-, rfl⟩ := Exec.get_eq_ok.mp h
  exact ⟨hs, rfl⟩

theorem neutral_modify {f : σ → σ} (hf : ∀ s, D.keeps s → D.keeps (f s))
    (hlocks : ∀ s, D.locks (f s) = D.locks s) : D.Neutral (Exec.modify f) := by
  refine fun s hs => ⟨(nomatch ·), fun b t h => ?_⟩
  obtain rfl := Exec.modify_eq_ok.mp h
  exact ⟨hf s hs, hlocks s⟩

theorem neutral_stop {e : Stop} (he : e ≠ .deadlock) : D.Neutral (Exec.stop e : Exec σ α) := by
  refine fun s hs => ⟨fun h => he (Except.error.inj h), fun a t h => ?_⟩
  exact (Exec.stop_eq_ok.mp h).elim

theorem neutral_need (o : Option α) : D.Neutral (Exec.need o : Exec σ α) := by
  cases o with
  | none => exact neutral_stop (nomatch ·)
  | some a => exact neutral_pure a

theorem Neutral.bind (hx : D.Neutral x) (hf : ∀ a, D.Neutral (f a)) : D.Neutral (x >>= f) := by
  intro s hs
  cases h : x s with
  | error e =>
    rw [Exec.bind_of_error h]
    refine ⟨fun he => (hx s hs).1 ?_, fun _ _ hok => nomatch hok⟩
    rw [h, Except.error.inj he]
  | ok r =>
    obtain ⟨a, u⟩ := r
    obtain ⟨hu, hlocks⟩ := (hx s hs).2 a u h
    rw [Exec.bind_of_ok h, ← hlocks]
    exact hf a u hu

theorem Neutral.ite {c : Prop} [Decidable c] (hx : D.Neutral x) (hy : D.Neutral y) :
    D.Neutral (if c then x else y) := by
  split
  · exact hx
  · exact hy

theorem neutral_forEach {f : α → Exec σ Unit} {l : List α} (hf : ∀ a ∈ l, D.Neutral (f a)) :
    D.Neutral (Exec.forEach l f) := by
  induction l with
  | nil => exact neutral_pure ()
  | cons a l ih =>
    exact (hf a List.mem_cons_self).bind fun _ => ih fun b hb => hf b (List.mem_cons_of_mem a hb)

end Neutral

/-! ## Polite walks -/

variable [Preorder R]

/-- What a step may do to the locks that are held and to the thread's own. -/
inductive LockStep [DecidableEq K] (rank : K → R) (before mine : List K) :
    List K → List K → Prop
  | same : LockStep rank before mine before mine
  | take {l : K} : l ∉ before → (∀ k ∈ mine, rank k < rank l) →
      LockStep rank before mine (l :: before) (l :: mine)
  | give {l : K} : l ∈ mine → LockStep rank before mine (before.erase l) (mine.erase l)

variable [DecidableEq K] (D : Discipline σ γ K R)

/-- A step of a thread that holds `mine` does to the locks what it may, whatever the state
is.  If it is refused, it is for a lock of higher rank than `mine`. -/
def PoliteStep (x : Exec σ α) (mine : List K) (Q : α → List K → Prop) : Prop :=
  ∀ s, D.keeps s → mine ⊆ D.locks s →
    (∀ a t, x s = .ok (a, t) → D.keeps t ∧
      ∃ mine', LockStep D.rank (D.locks s) mine (D.locks t) mine' ∧ Q a mine') ∧
    (x s = .error .deadlock → ∃ l, (∀ k ∈ mine, D.rank k < D.rank l) ∧
      ∀ t, x t = .error .deadlock ↔ l ∈ D.locks t)

/-- All steps of a walk are polite, and `Q` holds at its end. -/
def Polite {α : Type} {x : Exec σ α} :
    Walk γ x → List K → γ → (α → List K → γ → Prop) → Prop
  | .step x, mine, g, Q => D.PoliteStep x mine fun a mine' => Q a mine' g
  | .bind walk rest, mine, g, Q =>
    Polite walk mine g fun a mine' g' => Polite (rest a) mine' g' Q
  | .note f walk, mine, g, Q => D.clean (f g) → Polite walk mine (f g) Q

variable {D} {x y : Exec σ α} {f : α → Exec σ β} {mine : List K} {g : γ}
  {Q P : α → List K → γ → Prop}

/-! ## Rules -/

/-- What holds at the end may be weakened. -/
theorem Polite.imp {walk : Walk γ x} (h : D.Polite walk mine g Q)
    (hQ : ∀ a mine' g', Q a mine' g' → P a mine' g') : D.Polite walk mine g P := by
  induction walk generalizing mine g with
  | step x =>
    intro s hs hmine
    refine ⟨fun a t hx => ?_, (h s hs hmine).2⟩
    obtain ⟨ht, mine', hlock, hQa⟩ := (h s hs hmine).1 a t hx
    exact ⟨ht, mine', hlock, hQ a mine' g hQa⟩
  | bind walk rest ih ihrest =>
    exact ih h fun a mine' g' hrest => ihrest a hrest hQ
  | note f walk ih => exact fun hclean => ih (h hclean) hQ

/-- **A branch.** -/
theorem polite_ite {c : Prop} [hc : Decidable c] {walk : Walk γ x} {walk' : Walk γ y}
    (h : c → D.Polite walk mine g Q) (h' : ¬c → D.Polite walk' mine g Q) :
    D.Polite (Walk.ite walk walk' : Walk γ (if c then x else y)) mine g Q := by
  cases hc with
  | isTrue hc => exact h hc
  | isFalse hc => exact h' hc

/-- **A step that has nothing to do with locks.**  What it returns may be used. -/
theorem Neutral.polite (h : D.Neutral x)
    (hQ : ∀ a s t, D.keeps s → x s = .ok (a, t) → Q a mine g) :
    D.Polite (.step x) mine g Q := by
  intro s hs _
  refine ⟨fun a t hx => ?_, fun hx => absurd hx (h s hs).1⟩
  obtain ⟨ht, hlocks⟩ := (h s hs).2 a t hx
  exact ⟨ht, mine, hlocks ▸ .same, hQ a s t hs hx⟩

/-- A step that has nothing to do with locks, and what comes after it. -/
theorem polite_step_bind {rest : ∀ a, Walk γ (f a)} {P : β → List K → γ → Prop}
    (h : D.Neutral x) (hrest : ∀ a, D.Polite (rest a) mine g P) :
    D.Polite ((Walk.step x).bind rest) mine g P := by
  rw [Polite]
  exact h.polite fun a _ _ _ _ => hrest a

/-- A polite walk at whose end the thread has the locks it had before. -/
def Restores (D : Discipline σ γ K R) (walk : Walk γ x) (mine : List K) : Prop :=
  ∀ g, D.Polite walk mine g fun _ mine' _ => mine' = mine

theorem restores_step (h : D.Neutral x) : D.Restores (.step x : Walk γ x) mine :=
  fun _ => h.polite fun _ _ _ _ _ => rfl

/-- What comes after a walk that gives back what it takes. -/
theorem Restores.polite_bind {walk : Walk γ x} {rest : ∀ a, Walk γ (f a)}
    {P : β → List K → γ → Prop} (h : D.Restores walk mine)
    (hrest : ∀ a g', D.Polite (rest a) mine g' P) : D.Polite (walk.bind rest) mine g P := by
  refine (h g).imp ?_
  rintro a _ g' rfl
  exact hrest a g'

theorem Restores.bind {walk : Walk γ x} {rest : ∀ a, Walk γ (f a)} (h : D.Restores walk mine)
    (hrest : ∀ a, D.Restores (rest a) mine) : D.Restores (walk.bind rest) mine :=
  fun _ => h.polite_bind fun a g' => hrest a g'

theorem restores_step_bind {rest : ∀ a, Walk γ (f a)} (h : D.Neutral x)
    (hrest : ∀ a, D.Restores (rest a) mine) : D.Restores ((Walk.step x).bind rest) mine :=
  (restores_step h).bind hrest

/-- A read of the state, of which is known what every step keeps. -/
theorem restores_get_bind {f : σ → Exec σ β} {rest : ∀ s, Walk γ (f s)}
    (hrest : ∀ s, D.keeps s → D.Restores (rest s) mine) :
    D.Restores ((Walk.step Exec.get).bind rest) mine := by
  refine fun g => Neutral.polite neutral_get ?_
  intro a s t hs hget
  obtain ⟨rfl, -⟩ := Exec.get_eq_ok.mp hget
  exact hrest s hs g

theorem Restores.note {walk : Walk γ x} {f : γ → γ} (h : D.Restores walk mine) :
    D.Restores (walk.note f) mine :=
  fun g _ => h (f g)

theorem Restores.ite {c : Prop} [Decidable c] {walk : Walk γ x} {walk' : Walk γ y}
    (h : D.Restores walk mine) (h' : D.Restores walk' mine) :
    D.Restores (Walk.ite walk walk' : Walk γ (if c then x else y)) mine :=
  fun g => polite_ite (fun _ => h g) fun _ => h' g

/-- **A loop** whose rounds leave the thread the locks it has. -/
theorem Restores.forEach {f : α → Exec σ Unit} {walk : ∀ a, Walk γ (f a)} {l : List α}
    (h : ∀ a ∈ l, D.Restores (walk a) mine) : D.Restores (Walk.forEach walk l) mine := by
  induction l with
  | nil => exact restores_step (neutral_pure ())
  | cons a l ih =>
    refine (h a List.mem_cons_self).bind fun _ => ?_
    exact ih fun b hb => h b (List.mem_cons_of_mem a hb)

/-! ## A polite walk, step by step -/

theorem Polite.resume {walk : Walk γ x} (h : D.Polite walk mine g Q) {s t : σ} {g' : γ}
    {r : α ⊕ Rest σ γ α} (hs : D.keeps s) (hmine : mine ⊆ D.locks s)
    (hstep : walk.resume s g = .ok (r, t, g')) (hclean : D.clean g') :
    D.keeps t ∧ ∃ mine', LockStep D.rank (D.locks s) mine (D.locks t) mine' ∧
      match r with
      | .inl a => Q a mine' g'
      | .inr rest => D.Polite rest.walk mine' g' Q := by
  induction walk generalizing g t g' with
  | step x =>
    obtain ⟨a, hx, rfl, rfl⟩ := Walk.resume_step_eq_ok.mp hstep
    exact (h s hs hmine).1 a t hx
  | bind walk rest ih _ =>
    rcases Walk.resume_bind_eq_ok.mp hstep with ⟨a, hfirst, rfl⟩ | ⟨left, hfirst, rfl⟩
    · exact ih h hfirst hclean
    · exact ih h hfirst hclean
  | note f walk _ =>
    obtain ⟨rfl, rfl, rfl⟩ := Walk.resume_note_eq_ok.mp hstep
    exact ⟨hs, mine, .same, h hclean⟩

/-- A polite walk waits for locks of higher rank than those it has. -/
theorem Polite.refused {walk : Walk γ x} (h : D.Polite walk mine g Q) {s : σ} (hs : D.keeps s)
    (hmine : mine ⊆ D.locks s) (hstep : walk.resume s g = .error .deadlock) :
    ∃ l, (∀ k ∈ mine, D.rank k < D.rank l) ∧
      ∀ t, walk.resume t g = .error .deadlock ↔ l ∈ D.locks t := by
  induction walk generalizing g with
  | step x =>
    have hiff : ∀ t, (Walk.step x : Walk γ x).resume t g = .error .deadlock ↔
        x t = .error .deadlock := by
      intro t
      rw [Walk.resume]
      cases x t with
      | error e => simp
      | ok p => simp
    obtain ⟨l, hl, hneeds⟩ := (h s hs hmine).2 ((hiff s).mp hstep)
    exact ⟨l, hl, fun t => (hiff t).trans (hneeds t)⟩
  | @bind α β x f walk rest ih _ =>
    have hiff : ∀ t, (walk.bind rest).resume t g = .error .deadlock ↔
        walk.resume t g = .error .deadlock := by
      intro t
      rw [Walk.resume]
      rcases walk.resume t g with e | ⟨a | left, u, g'⟩ <;> simp
    obtain ⟨l, hl, hneeds⟩ := ih h ((hiff s).mp hstep)
    exact ⟨l, hl, fun t => (hiff t).trans (hneeds t)⟩
  | note f walk _ => exact nomatch hstep

/-! ## Who holds which lock -/

section HandOver

variable {rank : K → R} {before mine after mine' : List K}

theorem LockStep.nodup (h : LockStep rank before mine after mine') (hbefore : before.Nodup) :
    after.Nodup := by
  cases h with
  | same => exact hbefore
  | take hl _ => exact List.nodup_cons.mpr ⟨hl, hbefore⟩
  | give _ => exact hbefore.erase _

theorem LockStep.nodup_mine (h : LockStep rank before mine after mine') (hmine : mine.Nodup)
    (hsub : mine ⊆ before) : mine'.Nodup := by
  cases h with
  | same => exact hmine
  | take hl _ => exact List.nodup_cons.mpr ⟨fun hmem => hl (hsub hmem), hmine⟩
  | give _ => exact hmine.erase _

/-- A lock that a thread has now was its own, or free. -/
theorem LockStep.mem_mine (h : LockStep rank before mine after mine') {l : K} (hl : l ∈ mine') :
    l ∈ mine ∨ l ∉ before := by
  cases h with
  | same => exact .inl hl
  | take hfree _ =>
    rcases List.mem_cons.mp hl with rfl | hl
    · exact .inr hfree
    · exact .inl hl
  | give _ => exact .inl (List.mem_of_mem_erase hl)

/-- What was there and is not the thread's is still there, and the rest is the thread's. -/
theorem LockStep.mem_iff (h : LockStep rank before mine after mine') (hbefore : before.Nodup)
    (hmine : mine.Nodup) (hsub : mine ⊆ before) (l : K) :
    l ∈ after ↔ l ∈ mine' ∨ l ∈ before ∧ l ∉ mine := by
  cases h with
  | same =>
    by_cases hl : l ∈ mine
    · simp [hl, hsub hl]
    · simp [hl]
  | @take k hk _ =>
    by_cases hl : l ∈ mine
    · simp [hl, hsub hl]
    · simp [hl]
  | @give k hk =>
    rw [hbefore.mem_erase_iff, hmine.mem_erase_iff]
    by_cases hl : l ∈ mine
    · simp [hl, hsub hl]
    · have hne : l ≠ k := fun he => hl (he ▸ hk)
      simp [hl, hne]

/-- The locks of the thread are the ones `handOver` says. -/
theorem LockStep.handOver_eq (h : LockStep rank before mine after mine')
    (hbefore : before.Nodup) (hsub : mine ⊆ before) :
    Threads.handOver before after mine = mine' := by
  have hself : ∀ l : List K, l.diff l = [] := by
    intro l
    induction l with
    | nil => rfl
    | cons a l ih => rw [List.diff_cons, List.erase_cons_head, ih]
  cases h with
  | same => rw [Threads.handOver, hself, List.diff_nil, List.nil_append]
  | @take l hl _ =>
    have hadded : (l :: before).diff before = [l] := by
      rw [List.cons_diff_of_not_mem hl, hself]
    have hlost : before.diff (l :: before) = [] := by
      rw [List.diff_cons, List.erase_of_not_mem hl, hself]
    rw [Threads.handOver, hadded, hlost, List.diff_nil, List.singleton_append]
  | @give l hl =>
    have hadded : (before.erase l).diff before = [] := by
      rw [← List.diff_erase, hself, List.erase_nil]
    have hlost : (before.diff (before.erase l)).Perm [l] := by
      have hperm := (List.perm_cons_erase (hsub hl)).diff_right (before.erase l)
      have hnot : l ∉ before.erase l := hbefore.not_mem_erase
      rw [List.cons_diff_of_not_mem hnot, hself] at hperm
      exact hperm
    rw [Threads.handOver, hadded, List.nil_append, hlost.diff_left, List.diff_cons, List.diff_nil]

end HandOver

/-! ## Threads that keep the discipline -/

section Threads

variable {T : Type} {s s' : Threads σ γ K T} {t : T}

/-- What holds of threads that keep the discipline. -/
structure Sound (D : Discipline σ γ K R) (s : Threads σ γ K T) : Prop where
  keeps : D.keeps s.state
  nodup : (D.locks s.state).Nodup
  /-- The locks that are held are the threads'. -/
  holder : ∀ l, l ∈ D.locks s.state ↔ ∃ t, l ∈ s.held t
  own : ∀ t, (s.held t).Nodup
  unique : ∀ l t u, l ∈ s.held t → l ∈ s.held u → t = u
  polite : ∀ t rest, s.todo t = some rest →
    D.Polite rest.walk (s.held t) (s.notes t) fun _ mine _ => mine = []
  done : ∀ t, s.todo t = none → s.held t = []

theorem Sound.subset (h : D.Sound s) (t : T) : s.held t ⊆ D.locks s.state :=
  fun l hl => (h.holder l).mpr ⟨t, hl⟩

theorem sound_start {state : σ} {notes : γ} {program : T → Rest σ γ Unit}
    (hkeeps : D.keeps state) (hfree : D.locks state = [])
    (hpolite : ∀ t, D.Polite (program t).walk [] notes fun _ mine _ => mine = []) :
    D.Sound (Threads.start state notes program) := by
  refine ⟨hkeeps, hfree ▸ List.nodup_nil, fun l => ?_, fun _ => List.nodup_nil, ?_, ?_, ?_⟩
  · show l ∈ D.locks state ↔ ∃ _ : T, l ∈ []
    simp [hfree]
  · exact fun l t u hl => absurd hl List.not_mem_nil
  · intro t rest hrest
    obtain rfl := Option.some.inj hrest
    exact hpolite t
  · exact fun t ht => absurd ht (Option.some_ne_none _)

omit [DecidableEq K] in
/-- What the threads hold after a thread has got other locks. -/
theorem mem_update_held [DecidableEq T] {held : T → List K} {mine : List K} {u : T} {l : K} :
    l ∈ Function.update held t mine u ↔ u = t ∧ l ∈ mine ∨ u ≠ t ∧ l ∈ held u := by
  by_cases hut : u = t
  · subst hut
    simp
  · simp [hut]

/-- **A step** of a thread keeps the discipline. -/
theorem Sound.step [DecidableEq T] (h : D.Sound s) (hstep : s.next D.locks t = some s')
    (hclean : D.clean (s'.notes t)) : D.Sound s' := by
  obtain ⟨rest, r, v, g, htodo, hrun, rfl⟩ := Threads.exists_of_next hstep
  have hg : D.clean g := by
    have hnotes : Function.update s.notes t g t = g := Function.update_self t g s.notes
    exact hnotes ▸ hclean
  obtain ⟨hv, mine', hlock, hr⟩ := (h.polite t rest htodo).resume h.keeps (h.subset t) hrun hg
  have hheld : Threads.handOver (D.locks s.state) (D.locks v) (s.held t) = mine' :=
    hlock.handOver_eq h.nodup (h.subset t)
  have hmem := hlock.mem_iff h.nodup (h.own t) (h.subset t)
  rw [hheld]
  -- what the other threads hold was held before, and is not this thread's
  have hother : ∀ u, u ≠ t → ∀ l ∈ s.held u, l ∈ D.locks v ∧ l ∉ mine' := by
    intro u hu l hl
    have hnot : l ∉ s.held t := fun hl' => hu (h.unique l u t hl hl')
    have hstill : l ∈ D.locks v := (hmem l).mpr (.inr ⟨h.subset u hl, hnot⟩)
    exact ⟨hstill, fun hmine => (hlock.mem_mine hmine).elim hnot (· (h.subset u hl))⟩
  refine ⟨hv, hlock.nodup h.nodup, fun l => ⟨fun hl => ?_, ?_⟩, ?_, fun l u u' hl hl' => ?_,
    fun u rest' hrest' => ?_, fun u hnone => ?_⟩
  · rcases (hmem l).mp hl with hmine | ⟨hold, hnot⟩
    · exact ⟨t, mem_update_held.mpr (.inl ⟨rfl, hmine⟩)⟩
    · obtain ⟨u, hu⟩ := (h.holder l).mp hold
      exact ⟨u, mem_update_held.mpr (.inr ⟨fun he => hnot (he ▸ hu), hu⟩)⟩
  · rintro ⟨u, hu⟩
    rcases mem_update_held.mp hu with ⟨-, hmine⟩ | ⟨hut, hold⟩
    · exact (hmem l).mpr (.inl hmine)
    · exact (hother u hut l hold).1
  · refine (Function.forall_update_iff s.held fun _ mine => mine.Nodup).mpr ⟨?_, fun u _ => h.own u⟩
    exact hlock.nodup_mine (h.own t) (h.subset t)
  · rcases mem_update_held.mp hl with ⟨hut, hmine⟩ | ⟨hut, hold⟩ <;>
      rcases mem_update_held.mp hl' with ⟨hut', hmine'⟩ | ⟨hut', hold'⟩
    · exact hut.trans hut'.symm
    · exact absurd hmine (hother u' hut' l hold').2
    · exact absurd hmine' (hother u hut l hold).2
    · exact h.unique l u u' hold hold'
  · by_cases hut : u = t
    · subst hut
      simp only [Function.update_self] at hrest' ⊢
      cases r with
      | inl a => exact absurd hrest'.symm (Option.some_ne_none rest')
      | inr left =>
        obtain rfl := Option.some.inj hrest'
        exact hr
    · simp only [Function.update_of_ne hut] at hrest' ⊢
      exact h.polite u rest' hrest'
  · by_cases hut : u = t
    · subst hut
      simp only [Function.update_self] at hnone ⊢
      cases r with
      | inl a => exact hr
      | inr left => exact absurd hnone (Option.some_ne_none left)
    · simp only [Function.update_of_ne hut] at hnone ⊢
      exact h.done u hnone

/-- So does **any other change** that leaves the locks alone. -/
theorem Sound.other (h : D.Sound s) {v : σ} (hlocks : D.locks v = D.locks s.state)
    (hkeeps : D.keeps v) : D.Sound { s with state := v } :=
  ⟨hkeeps, hlocks ▸ h.nodup, fun l => hlocks ▸ h.holder l, h.own, h.unique, h.polite, h.done⟩

theorem Sound.run [DecidableEq T] (h : D.Sound s) (hrun : Relation.ReflTransGen D.Moves s s') :
    D.Sound s' := by
  induction hrun with
  | refl => exact h
  | tail _ hmove ih =>
    cases hmove with
    | step hstep hclean => exact ih.step hstep hclean
    | other hlocks hkeeps => exact ih.other hlocks hkeeps

/-- A thread that is refused waits for a thread whose locks are of lower rank than the lock
it needs. -/
theorem Sound.waits (h : D.Sound s) {rest : Rest σ γ Unit} (htodo : s.todo t = some rest)
    (hrefused : rest.walk.resume s.state (s.notes t) = .error .deadlock) :
    ∃ l u, (∀ k ∈ s.held t, D.rank k < D.rank l) ∧ l ∈ s.held u ∧ s.WaitsFor D.locks t u := by
  obtain ⟨l, hl, hneeds⟩ := (h.polite t rest htodo).refused h.keeps (h.subset t) hrefused
  obtain ⟨u, hu⟩ := (h.holder l).mp ((hneeds s.state).mp hrefused)
  exact ⟨l, u, hl, hu, rest, l, htodo, hu, hneeds⟩

/-- **No deadlock.**  Whatever a thread is at, it goes on, or it waits for a thread that goes
on, or for one that waits for such a thread, and so on. -/
theorem Sound.not_deadlocked [WellFoundedGT R] (h : D.Sound s) (htodo : s.todo t ≠ none) :
    ∃ u, Relation.ReflTransGen (s.WaitsFor D.locks) t u ∧ s.todo u ≠ none ∧ ¬s.Refused u := by
  -- along the chain the locks that are needed go up in rank
  have hchain : ∀ r : R, ∀ l t, D.rank l = r → l ∈ s.held t → ∃ u,
      Relation.ReflTransGen (s.WaitsFor D.locks) t u ∧ s.todo u ≠ none ∧ ¬s.Refused u := by
    intro r
    induction r using WellFoundedGT.induction with
    | ind r ih =>
      rintro l t rfl hl
      have hbusy : s.todo t ≠ none := by
        intro hnone
        rw [h.done t hnone] at hl
        exact absurd hl List.not_mem_nil
      by_cases hrefused : s.Refused t
      · obtain ⟨rest, hrest, hstop⟩ := hrefused
        obtain ⟨l', u, hup, hl', hwaits⟩ := h.waits hrest hstop
        obtain ⟨v, hchain, hgo⟩ := ih _ (hup l hl) l' u rfl hl'
        exact ⟨v, .head hwaits hchain, hgo⟩
      · exact ⟨t, .refl, hbusy, hrefused⟩
  by_cases hrefused : s.Refused t
  · obtain ⟨rest, hrest, hstop⟩ := hrefused
    obtain ⟨l, u, -, hl, hwaits⟩ := h.waits hrest hstop
    obtain ⟨v, hrun, hgo⟩ := hchain _ l u rfl hl
    exact ⟨v, .head hwaits hrun, hgo⟩
  · exact ⟨t, .refl, htodo, hrefused⟩

end Threads

end Discipline
end MmoBackend
