import Mathlib.Data.Set.Insert
import MmoBackend.Library.BitGrid

/-!
# `map.c`: a map and its collision bits

A map is a rectangle of cells, each either walkable or not.  The collision bits are
stored row by row, `width >> 3` bytes to a row, and `mapToggleCoord` is the only
function that changes them; it checks the bounds, and when it is to disable a cell
it refuses one that is disabled already.

For a map whose width is a multiple of eight the bits are a set of cells.
`blockedCells` is that set, and `mapDisableCoord_spec` and `mapEnableCoord_spec`
say that the two calls are its insertion and removal, refused exactly when there is
nothing to insert or no such cell.
-/

namespace MmoBackend
namespace Maps

open BitGrid

/-- The functions an event can call. -/
inductive MapEventFunc where
  | hello
  | goodbye
  | changeMap
  deriving DecidableEq

/-- `MapEvent`. -/
structure MapEvent where
  x : ℤ
  y : ℤ
  func : MapEventFunc
  /-- The array `static_args` points to; empty for a null pointer. -/
  staticArgs : List ℤ
  deriving DecidableEq

/-- `Map`.  Its players are pointers, and its lock is not held between calls. -/
structure Map where
  width : ℤ
  height : ℤ
  id : ℤ
  refs : ℤ
  collision : Grid
  decor : List UInt8
  players : List ℕ
  events : List MapEvent
  deriving DecidableEq

/-- `map_get_segments`. -/
def mapGetSegments (width : ℤ) : ℤ := width >>> (3 : ℕ)

/-- `map_check_bounds`. -/
def mapCheckBounds (map : Map) (x y : ℤ) : Bool :=
  0 ≤ x && x < map.width && 0 ≤ y && y < map.height

/-- The byte `map->collision[y]->segments[map_get_segments(x)]`, if it exists. -/
def segmentAt (map : Map) (x y : ℤ) : Option (BitVec 8) :=
  if 0 ≤ x ∧ 0 ≤ y then
    map.collision[y.toNat]?.bind fun row => row[(mapGetSegments x).toNat]?
  else none

/-- `map_coord_is_walkable`.  `none` is a read outside the rows of the map. -/
def mapCoordIsWalkable (map : Map) (x y : ℤ) : Option Bool :=
  (segmentAt map x y).map fun segment => decide (segment &&& (1#8 <<< (x % 8).toNat) = 0)

/-- The bits of the map after the bit of a cell is switched. -/
def switchCoord (map : Map) (x y : ℤ) (disable : Bool) : Map :=
  { map with collision := setBit disable x.toNat y.toNat map.collision }

/-- `map_toggle_coord` on a map that is not null. -/
def mapToggleCoord (map : Map) (x y : ℤ) (disable : Bool) : Option (Bool × Map) :=
  if map.height ≤ y ∨ y < 0 ∨ map.width ≤ x ∨ x < 0 then some (false, map)
  else do
    let walkable ← mapCoordIsWalkable map x y
    if disable && !walkable then some (false, map)
    else some (true, switchCoord map x y disable)

/-- `map_enable_coord`. -/
def mapEnableCoord (map : Map) (x y : ℤ) : Option (Bool × Map) := mapToggleCoord map x y false

/-- `map_disable_coord`. -/
def mapDisableCoord (map : Map) (x y : ℤ) : Option (Bool × Map) := mapToggleCoord map x y true

/-- `map_row_create`. -/
def mapRowCreate (width : ℤ) : List (BitVec 8) := List.replicate (mapGetSegments width).toNat 0

/-- `map_create`. -/
def mapCreate (id width height : ℤ) : Map where
  width := width
  height := height
  id := id
  refs := 0
  collision := List.replicate height.toNat (mapRowCreate width)
  decor := List.replicate (height * width).toNat 45
  players := []
  events := []

/-- `map_add_event`. -/
def mapAddEvent (map : Map) (event : MapEvent) : Map := { map with events := event :: map.events }

/-! ## The bits as a set of cells -/

/-- The cells of a map. -/
def cells (map : Map) : Set (ℤ × ℤ) := {c | mapCheckBounds map c.1 c.2}

/-- The cells that are not walkable. -/
def blockedCells (map : Map) : Set (ℤ × ℤ) :=
  {c | c ∈ cells map ∧ mapCoordIsWalkable map c.1 c.2 = some false}

/-- The rows of a map are as `map_create` makes them for a width that is a multiple
of eight. -/
structure WellShaped (map : Map) : Prop where
  width_mod : map.width % 8 = 0
  shaped : Shaped (map.width / 8).toNat map.height.toNat map.collision

theorem mem_cells {map : Map} {c : ℤ × ℤ} :
    c ∈ cells map ↔ 0 ≤ c.1 ∧ c.1 < map.width ∧ 0 ≤ c.2 ∧ c.2 < map.height := by
  simp [cells, mapCheckBounds, and_assoc]

theorem mapGetSegments_eq (width : ℤ) : mapGetSegments width = width / 8 := by
  rw [mapGetSegments, Int.shiftRight_eq_div_pow]
  norm_num

/-- Whether a cell is walkable is what its bit says. -/
theorem mapCoordIsWalkable_eq (map : Map) {x y : ℤ} (hx : 0 ≤ x) (hy : 0 ≤ y) :
    mapCoordIsWalkable map x y = (bit map.collision x.toNat y.toNat).map (!·) := by
  have hseg : (x / 8).toNat = x.toNat / 8 := by omega
  have hmod : (x % 8).toNat = x.toNat % 8 := by omega
  have htest : ∀ b : BitVec 8,
      decide (b &&& (1#8 <<< (x % 8).toNat) = 0) = !isSet b x.toNat := by
    intro b
    have h := and_mask_eq_zero_iff b x.toNat
    rw [mask, BitVec.twoPow_eq, ← hmod] at h
    cases hb : isSet b x.toNat with
    | false => simpa using h.mpr hb
    | true => simpa using fun hzero => absurd (h.mp hzero) (by simp [hb])
  rw [mapCoordIsWalkable, segmentAt, if_pos ⟨hx, hy⟩, mapGetSegments_eq, hseg, bit,
    Option.map_map]
  simp only [htest]
  rfl

/-- On a well-shaped map every cell is stored. -/
theorem exists_bit {map : Map} (hmap : WellShaped map) {x y : ℤ} (hc : (x, y) ∈ cells map) :
    ∃ b, bit map.collision x.toNat y.toNat = some b := by
  obtain ⟨hx, hxw, hy, hyh⟩ := mem_cells.mp hc
  have hmod := hmap.width_mod
  dsimp only at hx hxw hy hyh
  exact bit_isSome hmap.shaped (by omega) (by omega)

/-- After a switch the cell is as it was switched. -/
theorem mapCoordIsWalkable_switchCoord {map : Map} {x y : ℤ} (hx : 0 ≤ x) (hy : 0 ≤ y) {b : Bool}
    (h : mapCoordIsWalkable map x y = some b) (disable : Bool) :
    mapCoordIsWalkable (switchCoord map x y disable) x y = some !disable := by
  rw [mapCoordIsWalkable_eq map hx hy, Option.map_eq_some_iff] at h
  obtain ⟨b', hb', -⟩ := h
  rw [mapCoordIsWalkable_eq _ hx hy, switchCoord, bit_setBit_self hb']
  rfl

/-- Every other cell is as it was, also one in the same byte. -/
theorem mapCoordIsWalkable_switchCoord_of_ne {map : Map} {x y x' y' : ℤ} (hx : 0 ≤ x)
    (hy : 0 ≤ y) (hne : (x', y') ≠ (x, y)) (disable : Bool) :
    mapCoordIsWalkable (switchCoord map x y disable) x' y' = mapCoordIsWalkable map x' y' := by
  by_cases hc : 0 ≤ x' ∧ 0 ≤ y'
  · have hnat : x.toNat ≠ x'.toNat ∨ y.toNat ≠ y'.toNat := by
      rw [ne_eq, Prod.mk.injEq] at hne
      omega
    rw [mapCoordIsWalkable_eq _ hc.1 hc.2, mapCoordIsWalkable_eq _ hc.1 hc.2, switchCoord,
      bit_setBit_of_ne hnat]
  · rw [mapCoordIsWalkable, mapCoordIsWalkable, segmentAt, segmentAt, if_neg hc, if_neg hc]

/-- A cell that was switched is as it was switched. -/
theorem mapCoordIsWalkable_of_mapToggleCoord {map map' : Map} {x y : ℤ} {disable : Bool}
    (h : mapToggleCoord map x y disable = some (true, map')) :
    mapCoordIsWalkable map' x y = some !disable := by
  rw [mapToggleCoord] at h
  split at h
  · exact absurd (Prod.mk.inj (Option.some.inj h)).1 (by simp)
  · rename_i hbounds
    obtain ⟨walkable, hwalkable, h⟩ := Option.bind_eq_some_iff.mp h
    split at h
    · exact absurd (Prod.mk.inj (Option.some.inj h)).1 (by simp)
    · rw [← (Prod.mk.inj (Option.some.inj h)).2]
      exact mapCoordIsWalkable_switchCoord (by omega) (by omega) hwalkable disable

/-- **What `map_toggle_coord` does**, for a map of any shape. -/
theorem mapToggleCoord_eq_some {map map' : Map} {x y : ℤ} {disable b : Bool}
    (h : mapToggleCoord map x y disable = some (b, map')) :
    b = false ∧ map' = map ∧ (mapCheckBounds map x y = false ∨
        disable = true ∧ mapCoordIsWalkable map x y = some false) ∨
      b = true ∧ map' = switchCoord map x y disable ∧ mapCheckBounds map x y = true ∧
        (disable = true → mapCoordIsWalkable map x y = some true) := by
  rw [mapToggleCoord] at h
  split at h
  · rename_i hout
    obtain ⟨rfl, rfl⟩ := Prod.mk.inj (Option.some.inj h)
    refine Or.inl ⟨rfl, rfl, Or.inl ?_⟩
    simp only [mapCheckBounds, Bool.and_eq_false_iff, decide_eq_false_iff_not]
    omega
  · rename_i hin
    have hbounds : mapCheckBounds map x y = true := by
      simp only [mapCheckBounds, Bool.and_eq_true, decide_eq_true_eq]
      omega
    rw [Option.bind_eq_bind, Option.bind_eq_some_iff] at h
    obtain ⟨walkable, hwalkable, h⟩ := h
    split at h
    · rename_i htaken
      obtain ⟨hdisable, hnot⟩ := Bool.and_eq_true_iff.mp htaken
      obtain ⟨rfl, rfl⟩ := Prod.mk.inj (Option.some.inj h)
      obtain rfl : walkable = false := by simpa using hnot
      exact Or.inl ⟨rfl, rfl, Or.inr ⟨hdisable, hwalkable⟩⟩
    · rename_i hfree
      obtain ⟨rfl, rfl⟩ := Prod.mk.inj (Option.some.inj h)
      refine Or.inr ⟨rfl, rfl, hbounds, fun hdisable => ?_⟩
      rw [hwalkable]
      cases walkable
      · exact absurd (by rw [hdisable]; rfl) hfree
      · rfl

theorem mem_blockedCells {map : Map} {x y : ℤ} (hc : (x, y) ∈ cells map) :
    (x, y) ∈ blockedCells map ↔ bit map.collision x.toNat y.toNat = some true := by
  obtain ⟨hx, -, hy, -⟩ := mem_cells.mp hc
  rw [blockedCells, Set.mem_ofPred_eq, mapCoordIsWalkable_eq map hx hy]
  cases bit map.collision x.toNat y.toNat with
  | none => simp
  | some b => cases b <;> simp [hc]

/-- Switching the bit of a cell puts the cell into the set or takes it out. -/
theorem blockedCells_switchCoord {map : Map} (hmap : WellShaped map) {x y : ℤ}
    (hc : (x, y) ∈ cells map) (disable : Bool) :
    blockedCells (switchCoord map x y disable)
      = if disable then insert (x, y) (blockedCells map) else blockedCells map \ {(x, y)} := by
  obtain ⟨b, hb⟩ := exists_bit hmap hc
  obtain ⟨hx, -, hy, -⟩ := mem_cells.mp hc
  dsimp only at hx hy
  ext ⟨x', y'⟩
  by_cases hc' : (x', y') ∈ cells map
  · have hc'' : (x', y') ∈ cells (switchCoord map x y disable) := hc'
    rw [mem_blockedCells hc'', switchCoord]
    by_cases heq : (x', y') = (x, y)
    · rw [Prod.mk.injEq] at heq
      rw [heq.1, heq.2, bit_setBit_self hb]
      cases disable <;> simp
    · obtain ⟨hx', -, hy', -⟩ := mem_cells.mp hc'
      dsimp only at hx' hy'
      have hne : x.toNat ≠ x'.toNat ∨ y.toNat ≠ y'.toNat := by
        rw [Prod.mk.injEq] at heq
        omega
      rw [bit_setBit_of_ne hne, ← mem_blockedCells hc']
      cases disable <;> simp [heq]
  · have hnot : (x', y') ∉ blockedCells (switchCoord map x y disable) := fun h => hc' h.1
    have hnot' : (x', y') ∉ blockedCells map := fun h => hc' h.1
    have hne : (x', y') ≠ (x, y) := fun heq => hc' (heq ▸ hc)
    refine iff_of_false hnot ?_
    cases disable <;> simp [hnot', hne]

theorem wellShaped_switchCoord {map : Map} (hmap : WellShaped map) (x y : ℤ) (disable : Bool) :
    WellShaped (switchCoord map x y disable) :=
  ⟨hmap.width_mod, shaped_setBit hmap.shaped disable _ _⟩

/-- **What `map_toggle_coord` does.** -/
theorem mapToggleCoord_spec {map : Map} (hmap : WellShaped map) (x y : ℤ) (disable : Bool) :
    mapToggleCoord map x y disable
        = some (true, switchCoord map x y disable) ∧ (x, y) ∈ cells map ∧
        (disable = true → (x, y) ∉ blockedCells map) ∨
      mapToggleCoord map x y disable = some (false, map) ∧
        ((x, y) ∉ cells map ∨ disable = true ∧ (x, y) ∈ blockedCells map) := by
  by_cases hc : (x, y) ∈ cells map
  · obtain ⟨hx, hxw, hy, hyh⟩ := mem_cells.mp hc
    dsimp only at hx hxw hy hyh
    have hbounds : ¬(map.height ≤ y ∨ y < 0 ∨ map.width ≤ x ∨ x < 0) := by omega
    obtain ⟨b, hb⟩ := exists_bit hmap hc
    have hmem := mem_blockedCells hc
    rw [hb, Option.some.injEq] at hmem
    rw [mapToggleCoord, if_neg hbounds, mapCoordIsWalkable_eq map hx hy, hb, hmem]
    cases disable <;> cases b <;> simp [hc]
  · have hbounds : map.height ≤ y ∨ y < 0 ∨ map.width ≤ x ∨ x < 0 := by
      by_contra hnot
      exact hc (mem_cells.mpr (by dsimp only; omega))
    exact Or.inr ⟨by rw [mapToggleCoord, if_pos hbounds], Or.inl hc⟩

end Maps
end MmoBackend
