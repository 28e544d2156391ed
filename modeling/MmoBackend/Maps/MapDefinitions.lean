import MmoBackend.Maps.Map

/-!
# `map-definitions.c`: the maps of the world

Every map has an id, and `map_loaders` has for every id a function that builds the
map: it calls `map_create` with that id, clears the bits, draws the decor and adds
the events.  A loader takes nothing and reads nothing, so it is the map it returns.

`MapDefs` is any such table.  `mapLoaders` is the one of the repository, two maps
with a portal from each to the other.
-/

namespace MmoBackend
namespace Maps

/-- What the loaders return.  Each makes a new map of its own id. -/
structure MapDefs where
  loaders : List Map
  fresh : ∀ (i : ℕ) (map : Map), loaders[i]? = some map →
    map.id = i ∧ map.refs = 0 ∧ map.players = []

/-- `MAP_COUNT`. -/
def MapDefs.count (defs : MapDefs) : ℕ := defs.loaders.length

/-- The rows of every map are as wide as the map. -/
def MapDefs.WellShaped (defs : MapDefs) : Prop := ∀ map ∈ defs.loaders, Maps.WellShaped map

/-- `map_event_create`. -/
def mapEventCreate (x y : ℤ) (staticArgs : List ℤ) (func : MapEventFunc) : MapEvent :=
  ⟨x, y, func, staticArgs⟩

/-- Clear the bits of a map. -/
def clearCollision (map : Map) : Map :=
  { map with collision := map.collision.map fun row => row.map fun _ => 0 }

/-- `map->decor[i] = 'x'`. -/
def drawCross (i : ℕ) (map : Map) : Map := { map with decor := map.decor.set i 120 }

/-- `map_def_test_tile`. -/
def mapDefTestTile : Map :=
  let map := drawCross (32 * 6 - 1) (clearCollision (mapCreate 0 32 8))
  let map := mapAddEvent map (mapEventCreate 5 5 [] .hello)
  let map := mapAddEvent map (mapEventCreate 5 5 [] .goodbye)
  mapAddEvent map (mapEventCreate 31 5 [1, 0, 5, 1] .changeMap)

/-- `map_def_test_tile_2`. -/
def mapDefTestTile2 : Map :=
  let map := clearCollision (mapCreate 1 24 6)
  let map := [1, 2, 3, 4, 5, 6].foldl (fun map i => drawCross (24 * i - 1) map) map
  let map := drawCross (24 * 5) map
  let map := mapAddEvent map (mapEventCreate 5 5 [] .hello)
  let map := mapAddEvent map (mapEventCreate 5 5 [] .goodbye)
  mapAddEvent map (mapEventCreate 0 5 [0, 31, 5, 1] .changeMap)

/-- `map_loaders`. -/
def mapLoaders : MapDefs where
  loaders := [mapDefTestTile, mapDefTestTile2]
  fresh i map h := by
    rcases i with - | - | i
    · rw [← Option.some.inj h]
      exact ⟨rfl, rfl, rfl⟩
    · rw [← Option.some.inj h]
      exact ⟨rfl, rfl, rfl⟩
    · exact absurd h.symm (Option.some_ne_none _)

theorem wellShaped_mapLoaders : mapLoaders.WellShaped := by
  intro map hmap
  rcases List.mem_cons.mp hmap with rfl | hmap
  · exact ⟨rfl, rfl, by decide⟩
  · rw [List.mem_singleton.mp hmap]
    exact ⟨rfl, rfl, by decide⟩

/-- The two portals of the repository. -/
theorem staticArgs_mapLoaders : ∀ base ∈ mapLoaders.loaders, ∀ e ∈ base.events,
    e.func = .changeMap → e.staticArgs = [1, 0, 5, 1] ∨ e.staticArgs = [0, 31, 5, 1] := by
  decide

end Maps
end MmoBackend
