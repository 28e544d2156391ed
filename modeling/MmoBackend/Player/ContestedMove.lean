import MmoBackend.Library.Reservation
import MmoBackend.Library.Trace
import MmoBackend.Maps.Map
import MmoBackend.Player.Movement

/-!
# Players that move at the same time

Every player is moved by the thread of its own session.  A move without a map change
checks the distance and the bounds, disables the target cell under the lock of its
row, enables the old cell under the lock of *its* row, and then writes the two
coordinates of the player, one after the other; between any two of these steps every
other player can make steps of its own.

In the middle of a move a player holds its old cell, both cells, or the new cell,
and its coordinates may name a cell that somebody else has taken.  `holds` says
which cells a player has in each phase.  With that reading every step of the code is
an operation of a `Reservation`, or does nothing to it, so the holdings stay apart
and the disabled cells are exactly the held ones and those that were disabled all
along.  `contested_move` reads this off at the moments when nobody moves.
-/

namespace MmoBackend
namespace Player

open Maps

variable {P : Type} [DecidableEq P]

/-- How far a call of `player_move` has come. -/
inductive MovePhase where
  /-- No call is running. -/
  | idle
  /-- The target is near enough and in bounds. -/
  | checked (x y : ℤ)
  /-- The target is disabled. -/
  | reserved (x y : ℤ)
  /-- The old cell is enabled. -/
  | released (x y : ℤ)
  /-- `player->x` is written. -/
  | moved (x y : ℤ)
  deriving DecidableEq

/-- A map and the players that move on it. -/
structure Contest (P : Type) where
  map : Map
  x : P → ℤ
  y : P → ℤ
  phase : P → MovePhase

namespace Contest

/-- Nobody moves. -/
def still (map : Map) (x y : P → ℤ) : Contest P := ⟨map, x, y, fun _ => .idle⟩

/-- A player goes on to its next phase. -/
def setPhase (s : Contest P) (p : P) (phase : MovePhase) : Contest P :=
  { s with phase := Function.update s.phase p phase }

/-- What a player does next. -/
inductive Action (P : Type) where
  /-- A call begins: the distance and the bounds are checked. -/
  | begin (p : P) (x y : ℤ)
  /-- `map_disable_coord`. -/
  | disable (p : P)
  /-- `map_enable_coord`. -/
  | enable (p : P)
  /-- `player->x` is written. -/
  | setX (p : P)
  /-- `player->y` is written.  What is left of the call changes neither bits nor
  coordinates. -/
  | setY (p : P)

/-- The checks of `player_move` before it changes anything. -/
def allowed (maxMove : P → ℤ) (s : Contest P) (p : P) (x y : ℤ) : Prop :=
  movementCheckValid (maxMove p) (s.x p) (s.y p) x y ∧ mapCheckBounds s.map x y

/-- The steps of the players, in any order. -/
inductive Step (maxMove : P → ℤ) : Contest P → Action P → Contest P → Prop
  | refuse {s : Contest P} {p : P} {x y : ℤ} :
      s.phase p = .idle → ¬allowed maxMove s p x y → Step maxMove s (.begin p x y) s
  | begin {s : Contest P} {p : P} {x y : ℤ} :
      s.phase p = .idle → allowed maxMove s p x y →
      Step maxMove s (.begin p x y) (s.setPhase p (.checked x y))
  | taken {s : Contest P} {p : P} {x y : ℤ} {map : Map} :
      s.phase p = .checked x y → mapDisableCoord s.map x y = some (false, map) →
      Step maxMove s (.disable p) ({ s with map := map }.setPhase p .idle)
  | disable {s : Contest P} {p : P} {x y : ℤ} {map : Map} :
      s.phase p = .checked x y → mapDisableCoord s.map x y = some (true, map) →
      Step maxMove s (.disable p) ({ s with map := map }.setPhase p (.reserved x y))
  | stuck {s : Contest P} {p : P} {x y : ℤ} {map : Map} :
      s.phase p = .reserved x y → mapEnableCoord s.map (s.x p) (s.y p) = some (false, map) →
      Step maxMove s (.enable p) ({ s with map := map }.setPhase p .idle)
  | enable {s : Contest P} {p : P} {x y : ℤ} {map : Map} :
      s.phase p = .reserved x y → mapEnableCoord s.map (s.x p) (s.y p) = some (true, map) →
      Step maxMove s (.enable p) ({ s with map := map }.setPhase p (.released x y))
  | setX {s : Contest P} {p : P} {x y : ℤ} :
      s.phase p = .released x y →
      Step maxMove s (.setX p)
        ({ s with x := Function.update s.x p x }.setPhase p (.moved x y))
  | setY {s : Contest P} {p : P} {x y : ℤ} :
      s.phase p = .moved x y →
      Step maxMove s (.setY p)
        ({ s with y := Function.update s.y p y }.setPhase p .idle)

/-! ## Who holds which cells -/

/-- The cells a player at `c` holds in a phase. -/
def holds (c : ℤ × ℤ) : MovePhase → Set (ℤ × ℤ)
  | .idle | .checked _ _ => {c}
  | .reserved x y => {c, (x, y)}
  | .released x y | .moved x y => {(x, y)}

/-- The reservation that the bits of the map and the phases of the players amount
to. -/
def reservation (s : Contest P) : Reservation P (ℤ × ℤ) where
  blocked := blockedCells s.map
  held p := holds (s.x p, s.y p) (s.phase p)

/-- The invariant.  `fixed` are the cells that nobody holds. -/
structure Inv (shape : ℤ × ℤ) (fixed : Set (ℤ × ℤ)) (s : Contest P) : Prop where
  wellShaped : WellShaped s.map
  size : (s.map.width, s.map.height) = shape
  consistent : s.reservation.Consistent fixed
  distinct : ∀ p x y, s.phase p = .reserved x y → (x, y) ≠ (s.x p, s.y p)
  half : ∀ p x y, s.phase p = .moved x y → s.x p = x

/-! ## Every step is an operation of the reservation -/

section Update

variable (s : Contest P) (p q : P) (phase : MovePhase)

theorem phase_setPhase :
    (s.setPhase p phase).phase q = if q = p then phase else s.phase q :=
  Function.update_apply _ _ _ _

omit [DecidableEq P] in
theorem blocked_reservation : s.reservation.blocked = blockedCells s.map := rfl

omit [DecidableEq P] in
theorem held_reservation : s.reservation.held p = holds (s.x p, s.y p) (s.phase p) := rfl

end Update

omit [DecidableEq P] in
/-- What a player holds is disabled. -/
theorem Inv.mem_blockedCells {shape : ℤ × ℤ} {fixed : Set (ℤ × ℤ)} {s : Contest P}
    (h : Inv shape fixed s) {p : P} {c : ℤ × ℤ} (hc : c ∈ holds (s.x p, s.y p) (s.phase p)) :
    c ∈ blockedCells s.map :=
  h.consistent.held_subset p hc

/-- A step that changes neither the bits nor what the moving player holds. -/
theorem Inv.setPhase {shape : ℤ × ℤ} {fixed : Set (ℤ × ℤ)} {s : Contest P}
    (h : Inv shape fixed s) (p : P) {phase : MovePhase}
    (hholds : holds (s.x p, s.y p) phase = holds (s.x p, s.y p) (s.phase p))
    (hreserved : ∀ x y, phase ≠ .reserved x y) (hmoved : ∀ x y, phase ≠ .moved x y) :
    Inv shape fixed (s.setPhase p phase) := by
  have hreservation : (s.setPhase p phase).reservation = s.reservation := by
    refine Reservation.ext rfl (funext fun q => ?_)
    rw [held_reservation, held_reservation, phase_setPhase]
    split
    · rename_i hq
      rw [hq]
      exact hholds
    · rfl
  refine ⟨h.wellShaped, h.size, hreservation ▸ h.consistent, fun q x y hq => ?_,
    fun q x y hq => ?_⟩
  · rw [phase_setPhase] at hq
    split at hq
    · exact absurd hq (hreserved x y)
    · exact h.distinct q x y hq
  · rw [phase_setPhase] at hq
    split at hq
    · exact absurd hq (hmoved x y)
    · exact h.half q x y hq

/-- Disabling a free cell acquires it. -/
theorem Inv.disable {shape : ℤ × ℤ} {fixed : Set (ℤ × ℤ)} {s : Contest P}
    (h : Inv shape fixed s) {p : P} {x y : ℤ} (hp : s.phase p = .checked x y)
    (hc : (x, y) ∈ cells s.map) (hfree : (x, y) ∉ blockedCells s.map) :
    Inv shape fixed ({ s with map := switchCoord s.map x y true }.setPhase p (.reserved x y)) := by
  have hreservation : Contest.reservation
      ({ s with map := switchCoord s.map x y true }.setPhase p (.reserved x y))
        = s.reservation.acquire p (x, y) := by
    refine Reservation.ext ?_ (funext fun q => ?_)
    · rw [Reservation.blocked_acquire, blocked_reservation]
      exact blockedCells_switchCoord h.wellShaped hc true
    · rw [Reservation.held_acquire, held_reservation, phase_setPhase]
      split
      · rename_i hq
        rw [held_reservation, hp, hq]
        exact Set.pair_comm _ _
      · rfl
  have hpos : (s.x p, s.y p) ∈ blockedCells s.map :=
    h.mem_blockedCells (p := p) (by rw [hp]; exact Set.mem_singleton _)
  refine ⟨wellShaped_switchCoord h.wellShaped _ _ _, h.size,
    hreservation ▸ h.consistent.acquire p hfree, fun q a b hq => ?_, fun q a b hq => ?_⟩
  · rw [phase_setPhase] at hq
    split at hq
    · rename_i heq
      obtain ⟨rfl, rfl⟩ := MovePhase.reserved.inj hq
      rintro hsame
      exact hfree (hsame ▸ heq ▸ hpos)
    · exact h.distinct q a b hq
  · rw [phase_setPhase] at hq
    split at hq
    · exact MovePhase.noConfusion hq
    · exact h.half q a b hq

/-- Enabling the old cell releases it. -/
theorem Inv.enable {shape : ℤ × ℤ} {fixed : Set (ℤ × ℤ)} {s : Contest P}
    (h : Inv shape fixed s) {p : P} {x y : ℤ} (hp : s.phase p = .reserved x y)
    (hc : (s.x p, s.y p) ∈ cells s.map) :
    Inv shape fixed
      ({ s with map := switchCoord s.map (s.x p) (s.y p) false }.setPhase p (.released x y)) := by
  have hne := h.distinct p x y hp
  have hreservation : Contest.reservation
      ({ s with map := switchCoord s.map (s.x p) (s.y p) false }.setPhase p (.released x y))
        = s.reservation.release p (s.x p, s.y p) := by
    refine Reservation.ext ?_ (funext fun q => ?_)
    · rw [Reservation.blocked_release, blocked_reservation]
      exact blockedCells_switchCoord h.wellShaped hc false
    · rw [Reservation.held_release, held_reservation, phase_setPhase]
      split
      · rename_i hq
        rw [held_reservation, hp, holds, holds, Set.insert_sdiff_self_of_notMem]
        exact fun hmem => hne (Set.mem_singleton_iff.mp hmem).symm
      · rfl
  have hheld : (s.x p, s.y p) ∈ s.reservation.held p := by
    rw [held_reservation, hp]
    exact Set.mem_insert _ _
  refine ⟨wellShaped_switchCoord h.wellShaped _ _ _, h.size,
    hreservation ▸ h.consistent.release hheld, fun q a b hq => ?_, fun q a b hq => ?_⟩
  · rw [phase_setPhase] at hq
    split at hq
    · exact MovePhase.noConfusion hq
    · exact h.distinct q a b hq
  · rw [phase_setPhase] at hq
    split at hq
    · exact MovePhase.noConfusion hq
    · exact h.half q a b hq

/-- Writing the coordinates moves no holding: the player holds the new cell already. -/
theorem Inv.write {shape : ℤ × ℤ} {fixed : Set (ℤ × ℤ)} {s : Contest P}
    (h : Inv shape fixed s) {p : P} (x' y' : P → ℤ) {phase : MovePhase}
    (hothers : ∀ q, q ≠ p → x' q = s.x q ∧ y' q = s.y q)
    (hholds : holds (x' p, y' p) phase = holds (s.x p, s.y p) (s.phase p))
    (hreserved : ∀ x y, phase ≠ .reserved x y) (hmoved : ∀ x y, phase = .moved x y → x' p = x) :
    Inv shape fixed ({ s with x := x', y := y' }.setPhase p phase) := by
  have hreservation : Contest.reservation ({ s with x := x', y := y' }.setPhase p phase)
      = s.reservation := by
    refine Reservation.ext rfl (funext fun q => ?_)
    rw [held_reservation, held_reservation, phase_setPhase]
    split
    · rename_i hq
      rw [hq]
      exact hholds
    · rename_i hq
      obtain ⟨hx, hy⟩ := hothers q hq
      show holds (x' q, y' q) (s.phase q) = _
      rw [hx, hy]
  refine ⟨h.wellShaped, h.size, hreservation ▸ h.consistent, fun q a b hq => ?_,
    fun q a b hq => ?_⟩
  · rw [phase_setPhase] at hq
    split at hq
    · exact absurd hq (hreserved a b)
    · rename_i hne
      obtain ⟨hx, hy⟩ := hothers q hne
      show (a, b) ≠ (x' q, y' q)
      rw [hx, hy]
      exact h.distinct q a b hq
  · rw [phase_setPhase] at hq
    split at hq
    · rename_i heq
      exact heq ▸ hmoved a b hq
    · rename_i hne
      exact (hothers q hne).1.trans (h.half q a b hq)

/-- **Every step keeps the invariant.** -/
theorem Inv.step {maxMove : P → ℤ} {shape : ℤ × ℤ} {fixed : Set (ℤ × ℤ)} {s t : Contest P}
    {a : Action P} (h : Inv shape fixed s) (hstep : Step maxMove s a t) : Inv shape fixed t := by
  cases hstep with
  | refuse => exact h
  | begin hp _ =>
    exact h.setPhase _ (by rw [hp]; rfl) (fun _ _ => MovePhase.noConfusion)
      fun _ _ => MovePhase.noConfusion
  | @taken p x y map hp hdisable =>
    rcases mapToggleCoord_spec h.wellShaped x y true with ⟨hspec, -⟩ | ⟨hspec, -⟩
    · rw [mapDisableCoord, hspec] at hdisable
      exact absurd hdisable (by simp)
    · rw [mapDisableCoord, hspec, Option.some.injEq, Prod.mk.injEq] at hdisable
      rw [← hdisable.2]
      exact h.setPhase p (by rw [hp]; rfl) (fun _ _ => MovePhase.noConfusion)
        fun _ _ => MovePhase.noConfusion
  | @disable p x y map hp hdisable =>
    rcases mapToggleCoord_spec h.wellShaped x y true with ⟨hspec, hc, hfree⟩ | ⟨hspec, -⟩
    · rw [mapDisableCoord, hspec, Option.some.injEq, Prod.mk.injEq] at hdisable
      rw [← hdisable.2]
      exact h.disable hp hc (hfree rfl)
    · rw [mapDisableCoord, hspec] at hdisable
      exact absurd hdisable (by simp)
  | @stuck p x y map hp henable =>
    -- the old cell is held, so it is in bounds
    have hc : (s.x p, s.y p) ∈ cells s.map :=
      (h.mem_blockedCells (p := p) (by rw [hp]; exact Set.mem_insert _ _)).1
    rcases mapToggleCoord_spec h.wellShaped (s.x p) (s.y p) false with
      ⟨hspec, -⟩ | ⟨-, hout | ⟨hfalse, -⟩⟩
    · rw [mapEnableCoord, hspec] at henable
      exact absurd henable (by simp)
    · exact absurd hc hout
    · exact absurd hfalse (by simp)
  | @enable p x y map hp henable =>
    rcases mapToggleCoord_spec h.wellShaped (s.x p) (s.y p) false with ⟨hspec, hc, -⟩ | ⟨hspec, -⟩
    · rw [mapEnableCoord, hspec, Option.some.injEq, Prod.mk.injEq] at henable
      rw [← henable.2]
      exact h.enable hp hc
    · rw [mapEnableCoord, hspec] at henable
      exact absurd henable (by simp)
  | @setX p x y hp =>
    refine h.write _ s.y (fun q hq => ⟨Function.update_of_ne hq _ _, rfl⟩) ?_
      (fun _ _ => MovePhase.noConfusion) ?_
    · rw [hp]
      rfl
    · intro a b hab
      rw [← (MovePhase.moved.inj hab).1, Function.update_self]
  | @setY p x y hp =>
    refine h.write s.x _ (fun q hq => ⟨rfl, Function.update_of_ne hq _ _⟩) ?_
      (fun _ _ => MovePhase.noConfusion) fun _ _ => MovePhase.noConfusion
    rw [hp, h.half p x y hp, Function.update_self]
    rfl

/-! ## When nobody moves -/

omit [DecidableEq P] in
/-- Players that stand on disabled cells of their own hold these. -/
theorem inv_still {map : Map} {x y : P → ℤ} (hmap : WellShaped map)
    (hblocked : ∀ p, (x p, y p) ∈ blockedCells map)
    (hapart : ∀ p q, (x p, y p) = (x q, y q) → p = q) :
    Inv (map.width, map.height) (blockedCells map \ Set.range fun p => (x p, y p))
      (still map x y) := by
  refine ⟨hmap, rfl, ⟨?_, fun p q hne => ?_, fun p => ?_⟩, fun _ _ _ h => MovePhase.noConfusion h,
    fun _ _ _ h => MovePhase.noConfusion h⟩
  · ext c
    show c ∈ blockedCells map ↔ _
    rw [Set.mem_union, Set.mem_sdiff, Set.mem_iUnion]
    constructor
    · intro hc
      by_cases hrange : c ∈ Set.range fun p => (x p, y p)
      · obtain ⟨p, hp⟩ := hrange
        exact Or.inr ⟨p, Set.mem_singleton_iff.mpr hp.symm⟩
      · exact Or.inl ⟨hc, hrange⟩
    · rintro (⟨hc, -⟩ | ⟨p, hp⟩)
      · exact hc
      · rw [Set.mem_singleton_iff.mp hp]
        exact hblocked p
  · exact Set.disjoint_singleton.mpr fun heq => hne (hapart p q heq)
  · rw [Set.disjoint_left]
    rintro c ⟨-, hc⟩ hp
    exact hc ⟨p, (Set.mem_singleton_iff.mp hp).symm⟩

/-- **Contested movement.**  Players start on disabled cells of their own, and move
at the same time in any way.  Whenever nobody is moving they stand on cells of
their own again, and the disabled cells are those that nobody started on and those
the players stand on. -/
theorem contested_move (maxMove : P → ℤ) {map : Map} {x y : P → ℤ} (hmap : WellShaped map)
    (hblocked : ∀ p, (x p, y p) ∈ blockedCells map)
    (hapart : ∀ p q, (x p, y p) = (x q, y q) → p = q) {l : List (Action P × Contest P)}
    {s : Contest P} (h : Trace (Step maxMove) (still map x y) l s)
    (hidle : ∀ p, s.phase p = .idle) :
    cells s.map = cells map ∧ (∀ p, (s.x p, s.y p) ∈ cells map) ∧
      (∀ p q, (s.x p, s.y p) = (s.x q, s.y q) → p = q) ∧
      ∀ c, c ∈ blockedCells s.map ↔
        (c ∈ blockedCells map ∧ ∀ p, (x p, y p) ≠ c) ∨ ∃ p, (s.x p, s.y p) = c := by
  have hinv := h.invariant (fun _ _ _ hs => hs.step) (inv_still hmap hblocked hapart)
  have hheld : ∀ p, s.reservation.held p = {(s.x p, s.y p)} := fun p => by
    rw [held_reservation, hidle p, holds]
  have hcells : cells s.map = cells map := by
    obtain ⟨hw, hh⟩ := Prod.mk.inj hinv.size
    ext c
    rw [mem_cells, mem_cells, hw, hh]
  refine ⟨hcells, fun p => ?_, fun p q heq => ?_, fun c => ?_⟩
  · have hp : (s.x p, s.y p) ∈ blockedCells s.map :=
      hinv.mem_blockedCells (p := p) (by rw [hidle p]; exact Set.mem_singleton _)
    exact hcells ▸ hp.1
  · by_contra hne
    have hdisjoint := hinv.consistent.disjoint p q hne
    rw [hheld, hheld, Set.disjoint_singleton] at hdisjoint
    exact hdisjoint heq
  · rw [← blocked_reservation, hinv.consistent.mem_blocked, Set.mem_sdiff]
    refine or_congr (and_congr_right fun _ => ?_) (exists_congr fun p => ?_)
    · rw [Set.mem_range, not_exists]
    · rw [hheld, Set.mem_singleton_iff, eq_comm]

/-- A row of eight cells, the first and the third of them disabled. -/
def smallMap : Map := { mapCreate 0 8 1 with collision := [[5]] }

/-- Two players race for the cell between them. -/
theorem contested_move_race :
    ∃ l s, Trace (Step fun _ => 1) (still smallMap (fun p : Bool => if p then 0 else 2) fun _ => 0)
        l s ∧ (s.x true, s.y true) = (1, 0) ∧ (s.x false, s.y false) = (2, 0) ∧
      ∀ c, c ∈ blockedCells s.map ↔ (c ∈ blockedCells smallMap ∧
          ∀ p : Bool, ((if p then 0 else 2 : ℤ), (0 : ℤ)) ≠ c) ∨ ∃ p, (s.x p, s.y p) = c := by
  have hmap : WellShaped smallMap := ⟨rfl, rfl, by decide⟩
  have hblocked : ∀ p : Bool, ((if p then 0 else 2 : ℤ), (0 : ℤ)) ∈ blockedCells smallMap := by
    intro p
    cases p <;> exact ⟨rfl, rfl⟩
  have hapart : ∀ p q : Bool, ((if p then 0 else 2 : ℤ), (0 : ℤ)) = (if q then 0 else 2, 0) →
      p = q := by decide
  have h₀ : Trace (Step fun _ => 1)
      (still smallMap (fun p : Bool => if p then 0 else 2) fun _ => 0) [] _ := Trace.nil
  have h₁ := h₀.snoc (@Step.begin Bool _ _ _ true 1 0 rfl ⟨by decide, by decide⟩)
  have h₂ := h₁.snoc (@Step.begin Bool _ _ _ false 1 0 rfl ⟨by decide, by decide⟩)
  have h₃ := h₂.snoc (@Step.disable Bool _ _ _ true 1 0 _ rfl rfl)
  have h₄ := h₃.snoc (@Step.taken Bool _ _ _ false 1 0 _ rfl rfl)
  have h₅ := h₄.snoc (@Step.enable Bool _ _ _ true 1 0 _ rfl rfl)
  have h₆ := h₅.snoc (@Step.setX Bool _ _ _ true 1 0 rfl)
  have h₇ := h₆.snoc (@Step.setY Bool _ _ _ true 1 0 rfl)
  refine ⟨_, _, h₇, rfl, rfl, ?_⟩
  exact (contested_move (fun _ => 1) hmap hblocked hapart h₇ (by
    intro p
    cases p <;> rfl)).2.2.2

end Contest

end Player
end MmoBackend
