import MmoBackend.World.Progress

/-!
# The ids that are used as indices

`tiles`, `map_loaders` and `map_locks` have `MAP_COUNT` elements.  Four functions of `map.c`
take an id from outside, from the record of a player or the arguments of an event, and each
of them tests it before it uses it as an index: an id below `0` or above `MAP_COUNT` is
refused.  The test is the same in all four, and it lets one id through that is no index.

What a call does with an id that passes is a call of `map_load`, or for `map_unload` a look
at `tiles[id]`; from then on it works on the map that it found there.  So an id is treated
rightly when it is refused with nothing changed, or when it is an index and the map is there.
`mapIds_checked_iff` says for each of the four functions that this is so for every id but
`MAP_COUNT`.

`map_spawn_player_random` is the one of the four that nothing calls.
-/

namespace MmoBackend

open Exec Maps Player

namespace World

variable (defs : MapDefs)

/-! ## `map_spawn_player_random` -/

/-- Two coordinates in one `long`. -/
def packCoord (x y : ℤ) : ℤ := x * 2 ^ 32 + y % 2 ^ 32

/-- `map_random_coord`, with the numbers that `rand` returns.  They may all lead to cells that
are not walkable. -/
def mapRandomCoord (map : Map) : List ℕ → Exec World ℤ
  | a :: b :: rands =>
    if map.width = 0 ∨ map.height = 0 then Exec.stop .fault
    else do
      let x := Int.tmod a map.width
      let y := Int.tmod b map.height
      let walkable ← Exec.need (mapCoordIsWalkable map x y)
      if walkable then pure (packCoord x y) else mapRandomCoord map rands
  | _ => Exec.stop .fuel

/-- `map_spawn_player_random` after the assignment of the map.  The player is on the list of
the map before its cell is disabled, and stays on it when that is refused. -/
def placeRandom (rands : List ℕ) (id : ℤ) (m p : ℕ) : Exec World ℤ := do
  let map ← derefMap m
  let pos ← mapRandomCoord map rands
  updatePlayer p fun player => { player with x := pos / 2 ^ 32, y := wrap32 (pos % 2 ^ 32) }
  updateMap m fun map => { map with players := p :: map.players }
  let player ← derefPlayer p
  let disabled ← toggleCoord m player.x player.y true
  if disabled then pure pos
  else do
    mapUnload defs id
    pure (-1)

/-- `map_spawn_player_random`. -/
def mapSpawnPlayerRandom (rands : List ℕ) (id : ℤ) (p : ℕ) : Exec World ℤ :=
  if id < 0 ∨ (defs.count : ℤ) < id then pure (-1)
  else do
    let loaded ← mapLoad defs id
    updatePlayer p fun player => { player with map := loaded }
    let m ← Exec.need loaded
    placeRandom defs rands id m p

/-! ## What it means to check an id -/

variable (w : World) (id : ℤ)

/-- The id is an index of the tables, and `map_load` returns a map that is there. -/
structure FindsMap (m : ℕ) (v : World) : Prop where
  index : ∃ i : ℕ, i < defs.count ∧ id = i
  load : mapLoad defs id w = .ok (some m, v)
  present : ∃ map, v.maps.get m = some map ∧ map.id = id

/-- `map_load` refuses the id, or loads its map. -/
def LoadChecked : Prop := mapLoad defs id w = .ok (none, w) ∨ ∃ m v, FindsMap defs w id m v

/-- `map_unload` has nothing to do, or gives a reference to `tiles[id]` back, whatever the
calls of `player_free` do then. -/
def UnloadChecked : Prop :=
  ∀ free : ℕ → Exec World Unit, mapUnloadWith defs free id w = .ok ((), w) ∨
    ∃ (i m : ℕ) (map : Map), i < defs.count ∧ id = i ∧ w.tiles i = some m ∧
      w.maps.get m = some map ∧ mapUnloadWith defs free id w = (do
        lock (.map i)
        unrefTile free i m
        unlock (.map i)) w

/-- `map_spawn_player` from the use of the loaded map on. -/
def spawnLoaded (move : ℕ → ℤ → ℤ → MoveArgs → Exec World Bool) (m p : ℕ) (x y suppress : ℤ) :
    Exec World ℤ := do
  let player ← derefPlayer p
  mapSendMapPacket defs (some m) player.session
  let _ ← move p x y ⟨suppress % 2 = 1, true, some m⟩
  sendPositions m p
  pure 1

/-- `map_spawn_player` refuses the id, or loads its map and goes on with it, whatever the
call of `player_move` does then. -/
def SpawnChecked : Prop :=
  ∀ (move : ℕ → ℤ → ℤ → MoveArgs → Exec World Bool) (p : ℕ) (x y suppress : ℤ),
    mapSpawnPlayerWith defs move id p x y suppress w = .ok (0, w) ∨
      ∃ m v, FindsMap defs w id m v ∧ mapSpawnPlayerWith defs move id p x y suppress w
        = spawnLoaded defs move m p x y suppress v

/-- `map_spawn_player_random` refuses the id, or loads its map and goes on with it. -/
def RandomChecked : Prop :=
  ∀ (rands : List ℕ) (p : ℕ), mapSpawnPlayerRandom defs rands id p w = .ok (-1, w) ∨
    ∃ m v, FindsMap defs w id m v ∧ mapSpawnPlayerRandom defs rands id p w = (do
      updatePlayer p fun player => { player with map := some m }
      placeRandom defs rands id m p) v

/-! ## The first id that is no index -/

/-- Behind the tables there is nothing. -/
theorem loaders_count : defs.loaders[defs.count]? = none :=
  List.getElem?_eq_none (le_refl _)

/-- `MAP_COUNT` is not refused. -/
theorem mapLoad_count : mapLoad defs defs.count w = .error .fault := by
  rw [mapLoad, if_neg (by omega), mapLoadTile, Int.toNat_natCast, loaders_count, need_none_bind]

theorem mapUnloadWith_count (free : ℕ → Exec World Unit) :
    mapUnloadWith defs free defs.count w = .error .fault := by
  rw [mapUnloadWith, if_neg (by omega), mapUnloadTile, Int.toNat_natCast, loaders_count,
    need_none_bind]

theorem mapSpawnPlayerWith_count (move : ℕ → ℤ → ℤ → MoveArgs → Exec World Bool) (p : ℕ)
    (x y suppress : ℤ) :
    mapSpawnPlayerWith defs move defs.count p x y suppress w = .error .fault := by
  rw [mapSpawnPlayerWith, if_neg (by omega), spawnOn, bind_of_error (mapLoad_count defs w)]

theorem mapSpawnPlayerRandom_count (rands : List ℕ) (p : ℕ) :
    mapSpawnPlayerRandom defs rands defs.count p w = .error .fault := by
  rw [mapSpawnPlayerRandom, if_neg (by omega), bind_of_error (mapLoad_count defs w)]

variable {defs w id}

theorem FindsMap.ne_count {m : ℕ} {v : World} (h : FindsMap defs w id m v) : id ≠ defs.count := by
  obtain ⟨i, hi, rfl⟩ := h.index
  omega

/-! ## The other ids -/

/-- The map of an index is loaded. -/
theorem findsMap_of_index (hw : Tiled w) (hlocks : w.locks = []) {i : ℕ} (hi : i < defs.count) :
    ∃ m v, FindsMap defs w i m v := by
  have hne : (i : ℤ) ≠ defs.count := by omega
  obtain ⟨r, v, hload⟩ := mapLoad_returns hw hlocks hne
  rcases mapLoad_eq_ok hload with ⟨hbad, -⟩ | ⟨j, m, map, hj, -, rfl, hloads⟩
  · exact absurd hbad (by omega)
  · obtain ⟨map', hmap', hid⟩ := (within_mapLoad _ _ _ _ hload).tiled hw j m hloads.tile_eq
    exact ⟨m, v, ⟨i, hi, rfl⟩, hload, map', hmap', hid.trans hj.symm⟩

/-- An id is refused, is an index, or is the first one that is not. -/
theorem refused_or_index (hid : id ≠ defs.count) :
    (id < 0 ∨ (defs.count : ℤ) < id) ∨ ∃ i : ℕ, i < defs.count ∧ id = i := by
  by_cases hneg : id < 0
  · exact Or.inl (Or.inl hneg)
  by_cases hlarge : (defs.count : ℤ) < id
  · exact Or.inl (Or.inr hlarge)
  · exact Or.inr ⟨id.toNat, by omega, by omega⟩

section Tables

variable (hw : Tiled w)

include hw

theorem unloadChecked_iff : UnloadChecked defs w id ↔ id ≠ defs.count := by
  constructor
  · intro h
    rcases h fun _ => pure () with hnone | ⟨i, m, map, hi, rfl, -⟩
    · rintro rfl
      exact absurd ((mapUnloadWith_count defs w _).symm.trans hnone) (by simp)
    · omega
  · intro hid free
    rcases refused_or_index hid with hbad | ⟨i, hi, rfl⟩
    · exact Or.inl (by rw [mapUnloadWith, if_pos hbad.symm]; rfl)
    have hloader : defs.loaders[i]? = some defs.loaders[i] := List.getElem?_eq_getElem hi
    rw [mapUnloadWith, if_neg (by omega), mapUnloadTile, Int.toNat_natCast, hloader,
      need_some_bind, get_bind]
    cases htile : w.tiles i with
    | none => exact Or.inl rfl
    | some m =>
      obtain ⟨map, hmap, -⟩ := hw i m htile
      exact Or.inr ⟨i, m, map, hi, rfl, htile, hmap, rfl⟩

variable (hlocks : w.locks = [])

include hlocks

theorem loadChecked_iff : LoadChecked defs w id ↔ id ≠ defs.count := by
  constructor
  · rintro (hnone | ⟨m, v, hloads⟩)
    · rintro rfl
      exact absurd ((mapLoad_count defs w).symm.trans hnone) (by simp)
    · exact hloads.ne_count
  · intro hid
    rcases refused_or_index hid with hbad | ⟨i, hi, rfl⟩
    · exact Or.inl (by rw [mapLoad, if_pos hbad.symm]; rfl)
    · exact Or.inr (findsMap_of_index hw hlocks hi)

theorem spawnChecked_iff : SpawnChecked defs w id ↔ id ≠ defs.count := by
  constructor
  · intro h
    rcases h (fun _ _ _ _ => pure true) 0 0 0 0 with hzero | ⟨m, v, hloads, -⟩
    · rintro rfl
      exact absurd ((mapSpawnPlayerWith_count defs w _ 0 0 0 0).symm.trans hzero) (by simp)
    · exact hloads.ne_count
  · intro hid move p x y suppress
    rcases refused_or_index hid with hbad | ⟨i, hi, rfl⟩
    · exact Or.inl (by rw [mapSpawnPlayerWith, if_pos hbad]; rfl)
    obtain ⟨m, v, hloads⟩ := findsMap_of_index hw hlocks hi
    refine Or.inr ⟨m, v, hloads, ?_⟩
    rw [mapSpawnPlayerWith, if_neg (by omega), spawnOn, bind_of_ok hloads.load]
    rfl

theorem randomChecked_iff : RandomChecked defs w id ↔ id ≠ defs.count := by
  constructor
  · intro h
    rcases h [] 0 with hrefused | ⟨m, v, hloads, -⟩
    · rintro rfl
      exact absurd ((mapSpawnPlayerRandom_count defs w [] 0).symm.trans hrefused) (by simp)
    · exact hloads.ne_count
  · intro hid rands p
    rcases refused_or_index hid with hbad | ⟨i, hi, rfl⟩
    · exact Or.inl (by rw [mapSpawnPlayerRandom, if_pos hbad]; rfl)
    obtain ⟨m, v, hloads⟩ := findsMap_of_index hw hlocks hi
    refine Or.inr ⟨m, v, hloads, ?_⟩
    rw [mapSpawnPlayerRandom, if_neg (by omega), bind_of_ok hloads.load]
    rfl

end Tables

/-- **When the ids are checked.**  In every state in which the tables are in order, each of
the four functions refuses an id with nothing changed, or uses an index of the tables and a
map that is there, exactly if the id is not `MAP_COUNT`. -/
theorem mapIds_checked_iff (hw : Tiled w) (hlocks : w.locks = []) (id : ℤ) :
    (LoadChecked defs w id ↔ id ≠ defs.count) ∧ (UnloadChecked defs w id ↔ id ≠ defs.count) ∧
      (SpawnChecked defs w id ↔ id ≠ defs.count) ∧ (RandomChecked defs w id ↔ id ≠ defs.count) :=
  ⟨loadChecked_iff hw hlocks, unloadChecked_iff hw, spawnChecked_iff hw hlocks,
    randomChecked_iff hw hlocks⟩

/-- The server has just been started, and map 1 is asked for. -/
theorem mapIds_checked_iff_boot :
    LoadChecked mapLoaders (boot []) 1 ∧ UnloadChecked mapLoaders (boot []) 1 ∧
      SpawnChecked mapLoaders (boot []) 1 ∧ RandomChecked mapLoaders (boot []) 1 := by
  have htiled : Tiled (boot []) := fun _ _ hm => absurd hm.symm (Option.some_ne_none _)
  have hid : (1 : ℤ) ≠ mapLoaders.count := by decide
  obtain ⟨hload, hunload, hspawn, hrandom⟩ := mapIds_checked_iff htiled rfl 1
  exact ⟨hload.mpr hid, hunload.mpr hid, hspawn.mpr hid, hrandom.mpr hid⟩

/-- **The id 2 of the two maps** is neither refused nor an index, when the server has just
been started. -/
theorem mapIds_not_checked :
    ¬LoadChecked mapLoaders (boot []) 2 ∧ ¬UnloadChecked mapLoaders (boot []) 2 ∧
      ¬SpawnChecked mapLoaders (boot []) 2 ∧ ¬RandomChecked mapLoaders (boot []) 2 := by
  have htiled : Tiled (boot []) := fun _ _ hm => absurd hm.symm (Option.some_ne_none _)
  have hid : (2 : ℤ) = mapLoaders.count := by decide
  refine ⟨fun h => ?_, fun h => ?_, fun h => ?_, fun h => ?_⟩
  · exact (loadChecked_iff htiled rfl).mp h hid
  · exact (unloadChecked_iff htiled).mp h hid
  · exact (spawnChecked_iff htiled rfl).mp h hid
  · exact (randomChecked_iff htiled rfl).mp h hid

end World
end MmoBackend
