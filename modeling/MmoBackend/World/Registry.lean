import MmoBackend.World.State

/-!
# Loading and freeing maps and players

`map_load` makes a map the first time it is asked for and counts a reference every
time; `map_unload` gives a reference back and frees the map with the last one.
`player_free` gives a reference to a player back and, with the last one, writes the
player to the database, unloads its map and takes it out of the cache.

The three functions that free call each other: freeing a player unloads its map,
and freeing a map frees the players it lists.  Each of them is defined over the
`player_free` it calls.  `player_free` holds the lock of the cache while it does all
of this, so a call of it from within itself stops at that lock, and `playerFree`
ties the knot after two rounds.
-/

namespace MmoBackend

open Authentication Communication Db Maps

namespace World

variable (defs : MapDefs)

/-! ## `map_load` -/

/-- Store a new map in `tiles[i]`. -/
def addTile (i : ℕ) (map : Map) (w : World) : World :=
  { w with maps := w.maps.alloc map, tiles := Function.update w.tiles i (some w.maps.next) }

/-- The map of `tiles[i]`, which is made if there is none. -/
def ensureTile (i : ℕ) (map : Map) : Exec World ℕ := do
  let w ← Exec.get
  match w.tiles i with
  | some m => pure m
  | none => do
    Exec.modify (addTile i map)
    pure w.maps.next

/-- `map_load` after its check of the id. -/
def mapLoadTile (i : ℕ) : Exec World (Option ℕ) := do
  let map ← Exec.need defs.loaders[i]?
  lock (.map i)
  let m ← ensureTile i map
  updateMap m fun map => { map with refs := map.refs + 1 }
  unlock (.map i)
  let w ← Exec.get
  pure (w.tiles i)

/-- `map_load`.  The id `MAP_COUNT` passes the check. -/
def mapLoad (id : ℤ) : Exec World (Option ℕ) :=
  if (defs.count : ℤ) < id ∨ id < 0 then pure none else mapLoadTile defs id.toNat

/-! ## `map_unload` -/

/-- `map_free`. -/
def mapFree (free : ℕ → Exec World Unit) (m : ℕ) : Exec World Unit := do
  let map ← derefMap m
  Exec.forEach map.players free
  Exec.modify fun w => { w with maps := w.maps.free m }

/-- Give a reference to `tiles[i]` back, and free the map if it was the last one. -/
def unrefTile (free : ℕ → Exec World Unit) (i m : ℕ) : Exec World Unit := do
  let map ← derefMap m
  Exec.modify (setMap m { map with refs := map.refs - 1 })
  if map.refs - 1 = 0 then do
    mapFree free m
    Exec.modify fun w => { w with tiles := Function.update w.tiles i none }
  else pure ()

/-- `map_unload` after its check of the id. -/
def mapUnloadTile (free : ℕ → Exec World Unit) (i : ℕ) : Exec World Unit := do
  let _ ← Exec.need defs.loaders[i]?
  let w ← Exec.get
  match w.tiles i with
  | none => pure ()
  | some m => do
    lock (.map i)
    unrefTile free i m
    unlock (.map i)

/-- `map_unload`, over the `player_free` it calls. -/
def mapUnloadWith (free : ℕ → Exec World Unit) (id : ℤ) : Exec World Unit :=
  if (defs.count : ℤ) < id ∨ id < 0 then pure () else mapUnloadTile defs free id.toNat

/-! ## `player_free` -/

/-- The update `db_player_write_player` sends. -/
def playerUpdate (name : CString) (mapId x y maxMove : ℤ) (doc : Document) : Document :=
  ((((doc.set "name" (.utf8 name)).set "map" (.int32 mapId)).set "x" (.int32 x)).set "y"
    (.int32 y)).set "max_move" (.int32 maxMove)

/-- `db_player_write_player`. -/
def dbPlayerWritePlayer (p : ℕ) : Exec World Unit := do
  let player ← derefPlayer p
  let id ← Exec.need player.id
  let name ← Exec.need player.name
  let m ← Exec.need player.map
  let map ← derefMap m
  Exec.modify fun w =>
    { w with
      playerdata := modifyById id
        (playerUpdate name map.id player.x player.y player.maxMove) w.playerdata }

/-- `player_cache_destroy_cache`. -/
def playerCacheDestroyCache (free : ℕ → Exec World Unit) (p : ℕ) : Exec World Unit := do
  let player ← derefPlayer p
  if player.refs = 0 then pure () else free p

/-- `g_hash_table_remove` on the player cache. -/
def playerCacheRemove (free : ℕ → Exec World Unit) (id : CString) : Exec World Unit := do
  let w ← Exec.get
  match w.cache.lookup id with
  | none => pure ()
  | some p => do
    Exec.modify fun w => { w with cache := w.cache.filter fun e => e.1 ≠ id }
    playerCacheDestroyCache free p

/-- Write a player that is freed to the database, if it was modified. -/
def writeModified (p : ℕ) : Exec World Unit := do
  let player ← derefPlayer p
  if player.modified = 0 then pure () else dbPlayerWritePlayer p

/-- Give the reference to the map of a player back. -/
def unloadPlayerMap (free : ℕ → Exec World Unit) (p : ℕ) : Exec World Unit := do
  let player ← derefPlayer p
  match player.map with
  | none => pure ()
  | some m => do
    let map ← derefMap m
    mapUnloadWith defs free map.id

/-- Take a player out of the cache. -/
def uncachePlayer (free : ℕ → Exec World Unit) (p : ℕ) : Exec World Unit := do
  let player ← derefPlayer p
  match player.id with
  | none => pure ()
  | some id => playerCacheRemove free id

/-- The end of `player_free` on the last reference.  The lock of the player is destroyed while
the thread holds it, and then the player is freed.  Whoever has waited for the lock uses freed
memory. -/
def destroyPlayer (p : ℕ) : Exec World Unit :=
  Exec.modify fun w => { w with locks := w.locks.erase (.player p), players := w.players.free p }

/-- `player_free` on the last reference. -/
def releasePlayer (free : ℕ → Exec World Unit) (p : ℕ) : Exec World Unit := do
  writeModified p
  unloadPlayerMap defs free p
  uncachePlayer free p
  unlock .cache
  destroyPlayer p

/-- `player_free` on a pointer that is not null, over the `player_free` it calls. -/
def playerFreeWith (free : ℕ → Exec World Unit) (p : ℕ) : Exec World Unit := do
  lock .cache
  lock (.player p)
  updatePlayer p fun player => { player with refs := player.refs - 1 }
  let player ← derefPlayer p
  if 0 < player.refs then do
    unlock .cache
    unlock (.player p)
  else releasePlayer defs free p

/-- `player_free`. -/
def playerFree : ℕ → Exec World Unit :=
  playerFreeWith defs (playerFreeWith defs fun _ => Exec.stop .fuel)

/-- `map_unload`. -/
def mapUnload : ℤ → Exec World Unit := mapUnloadWith defs (playerFree defs)

/-! ## The other calls -/

/-- `player_ref`. -/
def playerRef (p : ℕ) : Exec World Unit := do
  lock (.player p)
  updatePlayer p fun player => { player with refs := player.refs + 1 }
  unlock (.player p)

/-- `player_cache_find`. -/
def playerCacheFind (id : CString) : Exec World (Option ℕ) := do
  lock .cache
  let w ← Exec.get
  match w.cache.lookup id with
  | none => do
    unlock .cache
    pure none
  | some p => do
    lock (.player p)
    updatePlayer p fun player => { player with refs := player.refs + 1 }
    unlock .cache
    unlock (.player p)
    pure (some p)

/-- `player_cache_insert`.  A player that is cached under the id already is replaced, and
its callback is called. -/
def playerCacheInsert (id : CString) (p : ℕ) : Exec World ℤ := do
  lock .cache
  let w ← Exec.get
  Exec.modify fun w => { w with cache := (id, p) :: w.cache.filter fun e => e.1 ≠ id }
  let success ← match w.cache.lookup id with
    | none => pure 1
    | some q => do
      playerCacheDestroyCache (playerFree defs) q
      pure 0
  unlock .cache
  pure success

/-- `player_create`. -/
def playerCreate : Exec World ℕ := do
  let w ← Exec.get
  Exec.modify fun w =>
    { w with players := w.players.alloc ⟨0, 0, 0, 0, 1, none, none, none, none⟩ }
  pure w.players.next

/-- `player_change_name`. -/
def playerChangeName (p : ℕ) (name : CString) : Exec World Unit :=
  updatePlayer p fun player => { player with name := some name }

/-- `session_create`, with a database that can be reached. -/
def sessionCreate (fd : ℕ) : Exec World ℕ := do
  let w ← Exec.get
  Exec.modify fun w => { w with sessions := w.sessions.alloc ⟨fd, .disabled, none⟩ }
  pure w.sessions.next

/-- `player_free`, on a pointer that may be null. -/
def playerFreeNull : Option ℕ → Exec World Unit
  | none => pure ()
  | some p => playerFree defs p

/-- `session_destroy`. -/
def sessionDestroy (s : ℕ) : Exec World Unit := do
  let session ← derefSession s
  playerFreeNull defs session.player
  Exec.modify fun w => { w with sessions := w.sessions.free s }

/-! ## What the calls do -/

/-- `map_load` found or made the map `map` under the pointer `m`, and has counted a
reference to it. -/
inductive Loads (w : World) (i m : ℕ) : Map → World → Prop
  | loaded {map : Map} :
      w.tiles i = some m → w.maps.get m = some map →
      Loads w i m map (w.setMap m { map with refs := map.refs + 1 })
  | created {map : Map} :
      w.tiles i = none → m = w.maps.next → defs.loaders[i]? = some map →
      Loads w i m map (w.addTile i { map with refs := map.refs + 1 })

/-- The map that `map_load` finds or makes for an id. -/
def tileOf (w : World) (id : ℤ) : Option Map :=
  match w.tiles id.toNat with
  | some m => w.maps.get m
  | none => defs.loaders[id.toNat]?

namespace Loads

variable {defs} {w w' : World} {i m : ℕ} {map : Map}

theorem players_eq (h : Loads defs w i m map w') : w'.players = w.players := by
  cases h <;> rfl

theorem sessions_eq (h : Loads defs w i m map w') : w'.sessions = w.sessions := by
  cases h <;> rfl

theorem tileOf_eq (h : Loads defs w i m map w') : tileOf defs w i = some map := by
  cases h with
  | loaded htile hget =>
    rw [tileOf, Int.toNat_natCast, htile]
    exact hget
  | created htile _ hloader =>
    rw [tileOf, Int.toNat_natCast, htile]
    exact hloader

theorem get_eq (h : Loads defs w i m map w') :
    w'.maps.get m = some { map with refs := map.refs + 1 } := by
  cases h with
  | loaded _ hget => exact Heap.get_set_self _ hget
  | created _ hm _ => exact hm ▸ Heap.get_alloc_next _ _

/-- A map that was there before is the one that is loaded, or is as it was. -/
theorem get_of_get (h : Loads defs w i m map w') {k : ℕ} {old : Map}
    (hk : w.maps.get k = some old) :
    k = m ∧ old = map ∨ k ≠ m ∧ w'.maps.get k = some old := by
  cases h with
  | loaded _ hget =>
    by_cases hkm : k = m
    · subst hkm
      exact Or.inl ⟨rfl, Option.some.inj (hk.symm.trans hget)⟩
    · exact Or.inr ⟨hkm, (Heap.get_set_of_ne _ hkm).trans hk⟩
  | created _ hm _ => exact Or.inr ⟨hm ▸ Heap.ne_next hk, Heap.get_alloc_of_get _ hk⟩

end Loads

section Inversion

variable {defs} {w w' : World} {p : ℕ} {id : ℤ}

theorem mapLoadTile_eq_ok {i : ℕ} {r : Option ℕ} (h : mapLoadTile defs i w = .ok (r, w')) :
    i < defs.count ∧ ∃ m map, r = some m ∧ Loads defs w i m map w' := by
  simp only [mapLoadTile, Exec.bind_eq_ok, Exec.need_eq_ok, lock_eq_ok, updateMap_eq_ok,
    unlock_eq_ok, Exec.get_eq_ok, Exec.pure_eq_ok] at h
  obtain ⟨new, _, ⟨hnew, rfl⟩, _, _, ⟨-, rfl⟩, m, w₁, htile, _, _, ⟨map, hmap, rfl⟩, _, _, rfl,
    _, _, ⟨rfl, rfl⟩, rfl, rfl⟩ := h
  refine ⟨(List.getElem?_eq_some_iff.mp hnew).1, ?_⟩
  simp only [ensureTile, Exec.bind_eq_ok, Exec.get_eq_ok] at htile
  obtain ⟨_, _, ⟨rfl, rfl⟩, htile⟩ := htile
  cases hi : w.tiles i with
  | some m₁ =>
    rw [show (w.setLocks (.map i :: w.locks)).tiles i = some m₁ from hi] at htile
    obtain ⟨rfl, rfl⟩ := Exec.pure_eq_ok.mp htile
    refine ⟨m₁, map, hi, ?_⟩
    have hlocks : (Lock.map i :: w.locks).erase (.map i) = w.locks := List.erase_cons_head _ _
    show Loads defs w i m₁ map
      (World.setLocks ((Lock.map i :: w.locks).erase (.map i)) (w.setMap m₁ _))
    rw [hlocks]
    exact Loads.loaded hi hmap
  | none =>
    rw [show (w.setLocks (.map i :: w.locks)).tiles i = none from hi] at htile
    simp only [Exec.bind_eq_ok, Exec.modify_eq_ok, Exec.pure_eq_ok] at htile
    obtain ⟨_, _, rfl, rfl, rfl⟩ := htile
    have hmap' : some new = some map := (Heap.get_alloc_next w.maps new).symm.trans hmap
    obtain rfl := Option.some.inj hmap'
    refine ⟨w.maps.next, new, Function.update_self _ _ _, ?_⟩
    have hlocks : (Lock.map i :: w.locks).erase (.map i) = w.locks := List.erase_cons_head _ _
    have hmaps := Heap.set_alloc w.maps new { new with refs := new.refs + 1 }
    have hw : World.setLocks ((Lock.map i :: w.locks).erase (.map i)) (World.setMap w.maps.next
        { new with refs := new.refs + 1 } (w.addTile i new))
          = w.addTile i { new with refs := new.refs + 1 } := by
      rw [hlocks, setMap, addTile, addTile, hmaps]
      rfl
    exact hw ▸ Loads.created hi rfl hnew

/-- **`map_load`** refuses an id or loads its map. -/
theorem mapLoad_eq_ok {r : Option ℕ} (h : mapLoad defs id w = .ok (r, w')) :
    (((defs.count : ℤ) < id ∨ id < 0) ∧ r = none ∧ w' = w) ∨
      ∃ i m map, id = (i : ℕ) ∧ i < defs.count ∧ r = some m ∧ Loads defs w i m map w' := by
  rw [mapLoad, Exec.ite_eq_ok] at h
  rcases h with ⟨hid, h⟩ | ⟨hid, h⟩
  · obtain ⟨rfl, rfl⟩ := Exec.pure_eq_ok.mp h
    exact Or.inl ⟨hid, rfl, rfl⟩
  · obtain ⟨hi, m, map, rfl, hload⟩ := mapLoadTile_eq_ok h
    exact Or.inr ⟨id.toNat, m, map, by omega, hi, rfl, hload⟩

/-- **`map_unload`**, when it does not give the last reference back. -/
theorem mapUnload_eq_ok {u : Unit} (h : mapUnload defs id w = .ok (u, w')) :
    w' = w ∨ ∃ (i m : ℕ) (map : Map), id = i ∧ w.tiles i = some m ∧ w.maps.get m = some map ∧
      (map.refs ≠ 1 → w' = w.setMap m { map with refs := map.refs - 1 }) := by
  rw [mapUnload, mapUnloadWith, Exec.ite_eq_ok] at h
  rcases h with ⟨-, h⟩ | ⟨hid, h⟩
  · exact Or.inl (Exec.pure_eq_ok.mp h).2.symm
  · simp only [mapUnloadTile, Exec.bind_eq_ok, Exec.need_eq_ok, Exec.get_eq_ok] at h
    obtain ⟨_, _, ⟨-, rfl⟩, _, _, ⟨rfl, rfl⟩, h⟩ := h
    cases hi : w.tiles id.toNat with
    | none =>
      rw [hi] at h
      exact Or.inl (Exec.pure_eq_ok.mp h).2.symm
    | some m =>
      rw [hi] at h
      simp only [Exec.bind_eq_ok, lock_eq_ok, unlock_eq_ok, unrefTile, derefMap_eq_ok,
        Exec.modify_eq_ok, Exec.ite_eq_ok] at h
      obtain ⟨_, _, ⟨-, rfl⟩, _, _, ⟨map, _, ⟨hmap, rfl⟩, _, _, rfl, h⟩, rfl⟩ := h
      refine Or.inr ⟨id.toNat, m, map, by omega, hi, hmap, fun hrefs => ?_⟩
      rcases h with ⟨hzero, -⟩ | ⟨-, h⟩
      · exact absurd (by omega) hrefs
      · obtain ⟨-, rfl⟩ := Exec.pure_eq_ok.mp h
        show World.setLocks ((Lock.map id.toNat :: w.locks).erase (.map id.toNat))
          (w.setMap m _) = _
        rw [List.erase_cons_head]
        rfl

/-- **`player_ref`** counts a reference. -/
theorem playerRef_eq_ok {u : Unit} (h : playerRef p w = .ok (u, w')) :
    ∃ player, w.players.get p = some player ∧
      w' = w.setPlayer p { player with refs := player.refs + 1 } := by
  simp only [playerRef, Exec.bind_eq_ok, lock_eq_ok, updatePlayer_eq_ok, unlock_eq_ok] at h
  obtain ⟨_, _, ⟨-, rfl⟩, _, _, ⟨player, hp, rfl⟩, rfl⟩ := h
  refine ⟨player, hp, ?_⟩
  show World.setLocks ((Lock.player p :: w.locks).erase (.player p)) (w.setPlayer p _) = _
  rw [List.erase_cons_head]
  rfl

/-- **`session_create`** makes a session that is not logged in. -/
theorem sessionCreate_eq_ok {fd s : ℕ} (h : sessionCreate fd w = .ok (s, w')) :
    w' = { w with sessions := w.sessions.alloc ⟨fd, .disabled, none⟩ } := by
  simp only [sessionCreate, Exec.bind_eq_ok, Exec.get_eq_ok, Exec.modify_eq_ok,
    Exec.pure_eq_ok] at h
  obtain ⟨_, _, ⟨rfl, rfl⟩, _, _, rfl, -, rfl⟩ := h
  rfl

/-- **`player_free`** gives a reference back, and with the last one the player is gone. -/
theorem playerFree_eq_ok {u : Unit} (h : playerFree defs p w = .ok (u, w')) :
    ∃ player, w.players.get p = some player ∧
      (1 < player.refs ∧ w' = w.setPlayer p { player with refs := player.refs - 1 } ∨
        player.refs ≤ 1 ∧ w'.players.get p = none) := by
  simp only [playerFree, playerFreeWith, Exec.bind_eq_ok, lock_eq_ok, updatePlayer_eq_ok,
    derefPlayer_eq_ok, Exec.ite_eq_ok, unlock_eq_ok] at h
  obtain ⟨_, _, ⟨-, rfl⟩, _, _, ⟨-, rfl⟩, _, _, ⟨player, hp, rfl⟩, player', _, ⟨hp', rfl⟩, h⟩ := h
  refine ⟨player, hp, ?_⟩
  have hget := Heap.get_set_self { player with refs := player.refs - 1 } hp
  obtain rfl := Option.some.inj (hget.symm.trans hp')
  rcases h with ⟨hrefs, _, _, rfl, rfl⟩ | ⟨hrefs, h⟩
  · refine Or.inl ⟨by dsimp only at hrefs; omega, ?_⟩
    show World.setLocks (((Lock.player p :: Lock.cache :: w.locks).erase .cache).erase (.player p))
      (w.setPlayer p _) = _
    rw [List.erase_cons_tail (by simp), List.erase_cons_head, List.erase_cons_head]
    rfl
  · refine Or.inr ⟨by dsimp only at hrefs; omega, ?_⟩
    simp only [releasePlayer, destroyPlayer, Exec.bind_eq_ok, Exec.modify_eq_ok] at h
    obtain ⟨_, _, -, _, _, -, _, _, -, _, w₁, -, rfl⟩ := h
    exact Heap.get_free_self w₁.players p

end Inversion

end World
end MmoBackend
