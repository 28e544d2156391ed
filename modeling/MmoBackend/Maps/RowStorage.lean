import MmoBackend.Maps.Map

/-!
# `map.c`: the bytes behind the cells of a new map

`map_get_segments` divides by eight and drops the rest.  As the index of the byte of a
column this is right.  `map_row_create` takes the same number for the *count* of the bytes
of a row, and there the rest should have been rounded up: of a width that is no multiple of
eight the last `width % 8` columns have no byte.  The two bounds checks compare with the
width itself, so they let these columns pass.

`hasStorage_iff` is the condition for one cell, and `mapToggleCoord_mapCreate` says what it
means for a call: it is the one case in which `map_toggle_coord` leaves the row.
-/

namespace MmoBackend
namespace Maps

variable {map : Map} {id width height x y : ℤ}

/-- A cell passes the bounds check of `map_check_bounds` or the one of `map_toggle_coord`. -/
def Accepted (map : Map) (x y : ℤ) : Prop :=
  mapCheckBounds map x y = true ∨ ¬(map.height ≤ y ∨ y < 0 ∨ map.width ≤ x ∨ x < 0)

/-- The row of a cell exists, and the segment of its column is one of the segments of the
row. -/
def HasStorage (map : Map) (x y : ℤ) : Prop :=
  0 ≤ y ∧ ∃ row, map.collision[y.toNat]? = some row ∧ 0 ≤ mapGetSegments x ∧
    mapGetSegments x < row.length

/-- The two bounds checks are the same. -/
theorem accepted_iff : Accepted map x y ↔ (0 ≤ x ∧ x < map.width) ∧ 0 ≤ y ∧ y < map.height := by
  have hcheck : mapCheckBounds map x y = true ↔
      (0 ≤ x ∧ x < map.width) ∧ 0 ≤ y ∧ y < map.height := by
    simp [mapCheckBounds, and_assoc]
  rw [Accepted, hcheck]
  omega

theorem accepted_mapCreate :
    Accepted (mapCreate id width height) x y ↔ (0 ≤ x ∧ x < width) ∧ 0 ≤ y ∧ y < height :=
  accepted_iff

/-- The rows of a new map all have the same number of segments. -/
theorem getElem?_collision_mapCreate {row : List (BitVec 8)} :
    (mapCreate id width height).collision[y.toNat]? = some row ↔
      y.toNat < height.toNat ∧ row = mapRowCreate width := by
  show (List.replicate _ _)[y.toNat]? = some row ↔ _
  rw [List.getElem?_replicate]
  split
  · rename_i hy
    rw [Option.some.injEq, eq_comm]
    exact ⟨fun h => ⟨hy, h⟩, fun h => h.2⟩
  · rename_i hy
    exact iff_of_false (Option.some_ne_none row).symm fun h => hy h.1

theorem length_mapRowCreate (hwidth : 0 ≤ width) :
    ((mapRowCreate width).length : ℤ) = width / 8 := by
  rw [mapRowCreate, List.length_replicate, mapGetSegments_eq]
  omega

/-- Within the bounds of a new map the storage ends where the last whole segment does. -/
theorem hasStorage_mapCreate (hx : 0 ≤ x) (hxw : x < width) (hy : 0 ≤ y) (hyh : y < height) :
    HasStorage (mapCreate id width height) x y ↔ x < width - width % 8 := by
  have hlen : ((mapRowCreate width).length : ℤ) = width / 8 :=
    length_mapRowCreate (by omega)
  have hsegment : mapGetSegments x < (mapRowCreate width).length ↔ x < width - width % 8 := by
    rw [hlen, mapGetSegments_eq]
    omega
  rw [← hsegment]
  constructor
  · rintro ⟨-, row, hrow, -, hlt⟩
    rwa [(getElem?_collision_mapCreate.mp hrow).2] at hlt
  · intro hlt
    refine ⟨hy, _, getElem?_collision_mapCreate.mpr ⟨by omega, rfl⟩, ?_, hlt⟩
    rw [mapGetSegments_eq]
    omega

/-! ## The calls -/

/-- A cell has storage when the byte of its bit can be read. -/
theorem hasStorage_iff_segmentAt (hx : 0 ≤ x) :
    HasStorage map x y ↔ ∃ segment, segmentAt map x y = some segment := by
  have hsegment : 0 ≤ mapGetSegments x := by
    rw [mapGetSegments_eq]
    omega
  unfold HasStorage segmentAt
  constructor
  · rintro ⟨hy, row, hrow, -, hlt⟩
    have hbyte : (mapGetSegments x).toNat < row.length := by omega
    refine ⟨row[(mapGetSegments x).toNat], ?_⟩
    rw [if_pos ⟨hx, hy⟩, hrow, Option.bind_some, List.getElem?_eq_getElem hbyte]
  · rintro ⟨segment, hsome⟩
    split at hsome
    · rename_i hboth
      obtain ⟨row, hrow, hbyte⟩ := Option.bind_eq_some_iff.mp hsome
      have hlt := (List.getElem?_eq_some_iff.mp hbyte).1
      exact ⟨hboth.2, row, hrow, hsegment, by omega⟩
    · exact absurd hsome.symm (Option.some_ne_none segment)

/-- **When a call leaves its row.**  On a new map a call of `map_toggle_coord` uses memory
outside the row exactly when it passes the bounds check and its column has no storage. -/
theorem mapToggleCoord_mapCreate (disable : Bool) :
    mapToggleCoord (mapCreate id width height) x y disable = none ↔
      Accepted (mapCreate id width height) x y ∧ width - width % 8 ≤ x := by
  unfold mapToggleCoord
  split
  · rename_i hout
    refine iff_of_false (Option.some_ne_none _) fun h => ?_
    obtain ⟨⟨hx, hxw⟩, hy, hyh⟩ := accepted_iff.mp h.1
    omega
  · rename_i hin
    have hc : Accepted (mapCreate id width height) x y := Or.inr hin
    obtain ⟨⟨hx, hxw⟩, hy, hyh⟩ := accepted_mapCreate.mp hc
    have hstorage : (∃ segment, segmentAt (mapCreate id width height) x y = some segment) ↔
        x < width - width % 8 :=
      (hasStorage_iff_segmentAt hx).symm.trans (hasStorage_mapCreate hx hxw hy hyh)
    rw [and_iff_right hc, ← not_lt, ← hstorage, Option.bind_eq_bind]
    cases hsegment : segmentAt (mapCreate id width height) x y with
    | none =>
      rw [mapCoordIsWalkable, hsegment]
      simp
    | some segment =>
      rw [mapCoordIsWalkable, hsegment, Option.map_some, Option.bind_some]
      refine iff_of_false ?_ fun h => h ⟨segment, rfl⟩
      split
      · exact Option.some_ne_none _
      · exact Option.some_ne_none _

/-! ## Which cells have storage -/

/-- **Which accepted cells have storage.**  On a map that `map_create` made, a cell that
passes the bounds check has a row and a segment of its own exactly when its column is not
one of the last `width % 8`.  For a cell in one of these `map_toggle_coord` leaves the row. -/
theorem hasStorage_iff (hc : Accepted (mapCreate id width height) x y) :
    (HasStorage (mapCreate id width height) x y ↔ x < width - width % 8) ∧
      ∀ disable, mapToggleCoord (mapCreate id width height) x y disable = none ↔
        ¬HasStorage (mapCreate id width height) x y := by
  obtain ⟨⟨hx, hxw⟩, hy, hyh⟩ := accepted_mapCreate.mp hc
  have hstorage : HasStorage (mapCreate id width height) x y ↔ x < width - width % 8 :=
    hasStorage_mapCreate hx hxw hy hyh
  refine ⟨hstorage, fun disable => ?_⟩
  rw [mapToggleCoord_mapCreate, and_iff_right hc, hstorage, not_lt]

/-- Of eighteen columns the last two have no storage. -/
theorem hasStorage_iff_eighteen :
    (HasStorage (mapCreate 0 18 3) 15 2 ↔ (15 : ℤ) < 18 - 18 % 8) ∧
      (HasStorage (mapCreate 0 18 3) 16 2 ↔ (16 : ℤ) < 18 - 18 % 8) :=
  ⟨(hasStorage_iff (Or.inl (by decide))).1, (hasStorage_iff (Or.inl (by decide))).1⟩

/-- **Columns without storage.**  On a map of twelve columns and one row the cell `(8, 0)` is
accepted, and the row has one segment. -/
theorem not_hasStorage : ¬∀ id width height x y : ℤ, 0 < width → 0 < height →
    Accepted (mapCreate id width height) x y → HasStorage (mapCreate id width height) x y := by
  intro h
  have hc : Accepted (mapCreate 0 12 1) 8 0 := Or.inl (by decide)
  obtain ⟨-, row, hrow, -, hlt⟩ := h 0 12 1 8 0 (by decide) (by decide) hc
  rw [(getElem?_collision_mapCreate.mp hrow).2] at hlt
  exact absurd hlt (by decide)

end Maps
end MmoBackend
