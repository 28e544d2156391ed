import MmoBackend.Library.Walk
import MmoBackend.World.Movement

/-!
# Walking through the calls

`map_spawn_player` and `player_move` call each other through the events of a map, and
every round of this circle takes references and gives some of them back.  To speak of
the states in between, this file says how to walk through the functions that load and
free maps and players and through the ones that move players.

The steps are the single reads and writes of memory and the locks.  A call that only
writes to sockets is one step, and so is `map_toggle_coord`, which writes bits.

Two things are noted: on which maps events are being activated, from the moment
`map_event_activate` has loaded the map to the moment it unloads it, and which maps
`map_free` is called for.
-/

namespace MmoBackend

open Authentication Maps

namespace World

/-- What is noted on a walk. -/
structure Notes where
  /-- The maps on which events are being activated, once for each activation. -/
  active : List ℕ
  /-- The maps `map_free` was called for, as they were then. -/
  freed : List Map

namespace Notes

/-- Nothing has happened. -/
def empty : Notes := ⟨[], []⟩

/-- An activation on the map `m` begins. -/
def enter (m : ℕ) (g : Notes) : Notes := { g with active := m :: g.active }

/-- An activation on the map `m` ends. -/
def leave (m : ℕ) (g : Notes) : Notes := { g with active := g.active.erase m }

/-- `map_free` is called. -/
def freeing (map : Map) (g : Notes) : Notes := { g with freed := map :: g.freed }

end Notes

variable (defs : MapDefs)

/-! ## Loading and freeing -/

/-- Through `map_load`. -/
def walkMapLoad (id : ℤ) : Walk Notes (mapLoad defs id) :=
  .ite (.step _) <| .bind (.step _) fun _ => .bind (.step _) fun _ => .bind (.step _) fun _ =>
    .bind (.step _) fun _ => .bind (.step _) fun _ => .step _

section Free

variable {free : ℕ → Exec World Unit} (walkFree : ∀ p, Walk Notes (free p))

/-- Through `map_free`. -/
def walkMapFree (m : ℕ) : Walk Notes (mapFree free m) :=
  .bind (.step _) fun map => .note (.freeing map) <|
    .bind (.forEach walkFree map.players) fun _ => .step _

/-- Through the part of `map_unload` under the lock. -/
def walkUnrefTile (i m : ℕ) : Walk Notes (unrefTile free i m) :=
  .bind (.step _) fun _ => .bind (.step _) fun _ =>
    .ite (.bind (walkMapFree walkFree m) fun _ => .step _) (.step _)

/-- Through `map_unload` after its check of the id. -/
def walkMapUnloadTile (i : ℕ) : Walk Notes (mapUnloadTile defs free i) :=
  .bind (.step _) fun _ => .bind (.step _) fun w =>
    match w.tiles i with
    | none => .step _
    | some m => .bind (.step _) fun _ => .bind (walkUnrefTile walkFree i m) fun _ => .step _

/-- Through `map_unload`. -/
def walkMapUnloadWith (id : ℤ) : Walk Notes (mapUnloadWith defs free id) :=
  .ite (.step _) (walkMapUnloadTile defs walkFree id.toNat)

/-- Through the part of `player_free` that unloads the map. -/
def walkUnloadPlayerMap (p : ℕ) : Walk Notes (unloadPlayerMap defs free p) :=
  .bind (.step _) fun player =>
    match player.map with
    | none => .step _
    | some _ => .bind (.step _) fun map => walkMapUnloadWith defs walkFree map.id

/-- Through `player_cache_destroy_cache`. -/
def walkPlayerCacheDestroyCache (p : ℕ) : Walk Notes (playerCacheDestroyCache free p) :=
  .bind (.step _) fun _ => .ite (.step _) (walkFree p)

/-- Through `g_hash_table_remove` on the player cache. -/
def walkPlayerCacheRemove (id : CString) : Walk Notes (playerCacheRemove free id) :=
  .bind (.step _) fun w =>
    match w.cache.lookup id with
    | none => .step _
    | some p => .bind (.step _) fun _ => walkPlayerCacheDestroyCache walkFree p

/-- Through the part of `player_free` that empties the cache. -/
def walkUncachePlayer (p : ℕ) : Walk Notes (uncachePlayer free p) :=
  .bind (.step _) fun player =>
    match player.id with
    | none => .step _
    | some id => walkPlayerCacheRemove walkFree id

/-- Through `player_free` on the last reference. -/
def walkReleasePlayer (p : ℕ) : Walk Notes (releasePlayer defs free p) :=
  .bind (.step _) fun _ => .bind (walkUnloadPlayerMap defs walkFree p) fun _ =>
    .bind (walkUncachePlayer walkFree p) fun _ => .bind (.step _) fun _ => .step _

/-- Through `player_free`, over the `player_free` it calls. -/
def walkPlayerFreeWith (p : ℕ) : Walk Notes (playerFreeWith defs free p) :=
  .bind (.step _) fun _ => .bind (.step _) fun _ => .bind (.step _) fun _ =>
    .bind (.step _) fun _ =>
      .ite (.bind (.step _) fun _ => .step _) (walkReleasePlayer defs walkFree p)

end Free

/-- Through `player_free`. -/
def walkPlayerFree : ∀ p, Walk Notes (playerFree defs p) :=
  walkPlayerFreeWith defs (walkPlayerFreeWith defs fun _ => .step _)

/-- Through `map_unload`. -/
def walkMapUnload : ∀ id, Walk Notes (mapUnload defs id) :=
  walkMapUnloadWith defs (walkPlayerFree defs)

/-! ## Moving -/

/-- Through `map_send_map_packet`. -/
def walkMapSendMapPacket : ∀ m s : Option ℕ, Walk Notes (mapSendMapPacket defs m s)
  | some _, some _ => .bind (.step _) fun map =>
      .bind (.bind (walkMapLoad defs map.id) fun _ => .bind (.step _) fun _ =>
        .bind (.step _) fun _ => .step _) fun _ => .bind (.step _) fun _ => .step _
  | some _, none => .step _
  | none, _ => .step _

/-- Through `map_add_player`. -/
def walkMapAddPlayer (m p : ℕ) : Walk Notes (mapAddPlayer defs m p) :=
  .bind (.step _) fun _ => .bind (.step _) fun _ => .bind (.step _) fun map =>
    .bind (walkMapLoad defs map.id) fun _ => .step _

/-- Through the part of `map_remove_player` that changes the list. -/
def walkUnlinkPlayer (m p : ℕ) : Walk Notes (unlinkPlayer defs m p) :=
  .bind (.step _) fun _ => .ite
    (.bind (.step _) fun _ => .bind (walkPlayerFree defs p) fun _ => .step _) (.step _)

/-- Through `map_remove_player`. -/
def walkMapRemovePlayer : ∀ (m : Option ℕ) (p : ℕ), Walk Notes (mapRemovePlayer defs m p)
  | none, _ => .step _
  | some m, p => .bind (walkUnlinkPlayer defs m p) fun _ => .bind (.step _) fun _ =>
      .bind (.step _) fun _ => .step _

/-- Through the change of the map. -/
def walkChangeMap (oldMap : Option ℕ) (p : ℕ) :
    ∀ newMap : Option ℕ, Walk Notes (changeMap defs oldMap p newMap)
  | none => .step _
  | some m => .bind (walkMapRemovePlayer defs oldMap p) fun _ => walkMapAddPlayer defs m p

section Circle

variable {spawn : ℤ → ℕ → ℤ → ℤ → ℤ → Exec World ℤ}
  (walkSpawn : ∀ id p x y suppress, Walk Notes (spawn id p x y suppress))

/-- Through `event->func`. -/
def walkEventFunc (p : ℕ) (e : MapEvent) : Walk Notes (eventFunc spawn p e) :=
  match e with
  | ⟨_, _, .hello, _⟩ => .bind (.step _) fun _ => .step _
  | ⟨_, _, .goodbye, _⟩ => .bind (.step _) fun _ => .step _
  | ⟨_, _, .changeMap, _⟩ => .bind (.step _) fun _ => .bind (.step _) fun _ =>
      .bind (.step _) fun _ => .bind (.step _) fun _ => .bind (walkSpawn _ p _ _ _) fun _ =>
        .step _

/-- Through one round of the loop of `map_event_activate`. -/
def walkActivateEvent (x y : ℤ) (m p : ℕ) (e : MapEvent) :
    Walk Notes (activateEvent spawn x y m p e) :=
  .bind (.step _) fun _ => .ite (walkEventFunc walkSpawn p e) (.step _)

/-- Through `map_event_args_free`. -/
def walkMapEventArgsFree : ∀ m : Option ℕ, Walk Notes (mapEventArgsFree defs m)
  | none => .step _
  | some _ => .bind (.step _) fun map => walkMapUnload defs map.id

/-- Through `map_event_activate`. -/
def walkMapEventActivate (x y : ℤ) (m p : ℕ) :
    Walk Notes (mapEventActivate defs spawn x y m p) :=
  .bind (.step _) fun map => .bind (walkMapLoad defs map.id) fun loaded =>
    .note (.enter m) <| .bind (.forEach (walkActivateEvent walkSpawn x y m p) map.events) fun _ =>
      .note (.leave m) (walkMapEventArgsFree defs loaded)

variable {activate : ℤ → ℤ → ℕ → ℕ → Exec World Unit}
  (walkActivate : ∀ x y m p, Walk Notes (activate x y m p))

/-- Through the events of the new cell. -/
def walkTriggerEvents (p : ℕ) (x y : ℤ) (suppress : Bool) :
    Walk Notes (triggerEvents activate p x y suppress) :=
  .ite (.step _) <| .bind (.step _) fun _ => .bind (.step _) fun m => walkActivate x y m p

/-- Through `player_move` from the assignment of the coordinates on. -/
def walkMoveTo (p : ℕ) (x y : ℤ) (suppress : Bool) :
    Walk Notes (moveTo activate p x y suppress) :=
  .bind (.step _) fun _ => .bind (walkTriggerEvents walkActivate p x y suppress) fun _ => .step _

/-- Through `player_move` from the release of the old cell on. -/
def walkMoveFrom (oldMap : Option ℕ) (p : ℕ) (x y : ℤ) (args : MoveArgs) :
    Walk Notes (moveFrom activate oldMap p x y args) :=
  .bind (.step _) fun _ => .ite
    (.bind (walkMoveTo walkActivate p x y args.suppressEvents) fun _ => .step _) (.step _)

/-- Through `player_move` from the check of the bounds on. -/
def walkMoveWithin (oldMap : Option ℕ) (p : ℕ) (x y : ℤ) (args : MoveArgs) :
    Walk Notes (moveWithin activate oldMap p x y args) :=
  .bind (.step _) fun _ => .bind (.step _) fun _ => .bind (.step _) fun _ => .ite
    (.bind (.step _) fun _ => .ite (walkMoveFrom walkActivate oldMap p x y args) (.step _))
    (.step _)

/-- Through `player_move`, over the `map_event_activate` it calls. -/
def walkPlayerMoveWith (p : ℕ) (x y : ℤ) (args : MoveArgs) :
    Walk Notes (playerMoveWith defs activate p x y args) :=
  .bind (.step _) fun player => .bind (walkChangeMap defs player.map p args.map) fun _ =>
    .bind (.step _) fun _ =>
      .ite (walkMoveWithin walkActivate player.map p x y args) (.step _)

variable {move : ℕ → ℤ → ℤ → MoveArgs → Exec World Bool}
  (walkMove : ∀ p x y args, Walk Notes (move p x y args))

/-- Through `map_spawn_player`, over the `player_move` it calls. -/
def walkMapSpawnPlayerWith (id : ℤ) (p : ℕ) (x y suppress : ℤ) :
    Walk Notes (mapSpawnPlayerWith defs move id p x y suppress) :=
  .ite (.step _) <| .bind (walkMapLoad defs id) fun loaded => .bind (.step _) fun player =>
    .bind (walkMapSendMapPacket defs loaded player.session) fun _ =>
      .bind (walkMove p x y _) fun _ => .bind (.step _) fun _ => .bind (.step _) fun _ => .step _

end Circle

/-- Through `map_spawn_player`. -/
def walkMapSpawnPlayer : ∀ (fuel : ℕ) (id : ℤ) (p : ℕ) (x y suppress : ℤ),
    Walk Notes (mapSpawnPlayer defs fuel id p x y suppress)
  | 0 => fun _ _ _ _ _ => .step _
  | fuel + 1 => walkMapSpawnPlayerWith defs <| walkPlayerMoveWith defs <|
      walkMapEventActivate defs (walkMapSpawnPlayer fuel)

/-- Through `player_move`. -/
def walkPlayerMove (fuel : ℕ) : ∀ (p : ℕ) (x y : ℤ) (args : MoveArgs),
    Walk Notes (playerMove defs fuel p x y args) :=
  walkPlayerMoveWith defs <| walkMapEventActivate defs (walkMapSpawnPlayer defs fuel)

end World
end MmoBackend
