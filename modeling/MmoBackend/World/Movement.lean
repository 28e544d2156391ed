import MmoBackend.Player.Movement
import MmoBackend.World.Registry

/-!
# Moving players and telling the others

`player_move` moves a player on its map, or to another map when its arguments name
one.  It then activates the events of the new cell.  One of the functions an event
can call moves the player to another map, through `map_spawn_player`, which calls
`player_move` again.  So each of the two is defined over the call it makes into this
circle, and the circle is closed with a number of rounds.

Where the source returns in the middle of a function, the definition is cut: what
follows an early return has a name of its own.
-/

namespace MmoBackend

open Authentication Communication Maps Player

namespace World

variable (defs : MapDefs)

/-! ## Packets to the players of a map -/

/-- Write a packet to the socket of a player that has a session. -/
def sendToPlayer (packet : ServerPacket) (p : ℕ) : Exec World Unit := do
  let player ← derefPlayer p
  match player.session with
  | none => pure ()
  | some s => do
    let session ← derefSession s
    packetWrite session.fd packet

/-- Write a packet to the socket of a player without asking whether it has a
session. -/
def writeToPlayer (packet : ServerPacket) (p : ℕ) : Exec World Unit := do
  let player ← derefPlayer p
  let s ← Exec.need player.session
  let session ← derefSession s
  packetWrite session.fd packet

/-- `map_send_packet`, for an exception that is null. -/
def mapSendPacket : Option ℕ → Option ServerPacket → Exec World Unit
  | some m, some packet => do
    let map ← derefMap m
    Exec.forEach map.players (sendToPlayer packet)
  | _, _ => pure ()

/-- `packet_template_map`.  It loads the map, and nothing unloads it. -/
def packetTemplateMap (id : ℤ) : Exec World ServerPacket := do
  let loaded ← mapLoad defs id
  let m ← Exec.need loaded
  let map ← derefMap m
  pure (.map map.width map.height map.decor)

/-- `map_send_map_packet`. -/
def mapSendMapPacket : Option ℕ → Option ℕ → Exec World Unit
  | some m, some s => do
    let map ← derefMap m
    let packet ← packetTemplateMap defs map.id
    let session ← derefSession s
    packetWrite session.fd packet
  | _, _ => pure ()

/-! ## The list of players of a map -/

/-- `map_add_player`. -/
def mapAddPlayer (m p : ℕ) : Exec World Unit := do
  playerRef p
  updateMap m fun map => { map with players := p :: map.players }
  let map ← derefMap m
  let loaded ← mapLoad defs map.id
  updatePlayer p fun player => { player with map := loaded }

/-- Take a player out of the list of a map. -/
def unlinkPlayer (m p : ℕ) : Exec World Bool := do
  let map ← derefMap m
  if p ∈ map.players then do
    Exec.modify (setMap m { map with players := map.players.erase p })
    playerFree defs p
    pure true
  else pure false

/-- Tell the players that are left on a map that a player has left it. -/
def sendLeaving (m : ℕ) (packet : ServerPacket) (removed : Bool) : Exec World Unit :=
  if removed then do
    let map ← derefMap m
    Exec.forEach map.players (writeToPlayer packet)
  else pure ()

/-- `map_remove_player`. -/
def mapRemovePlayer : Option ℕ → ℕ → Exec World Unit
  | none, _ => pure ()
  | some m, p => do
    let removed ← unlinkPlayer defs m p
    let player ← derefPlayer p
    let id ← Exec.need player.id
    sendLeaving m (.leavingMap id) removed

/-! ## Events -/

/-- `map_event_change_map`, over the `map_spawn_player` it calls.  The flag is read
from the element that holds `y`. -/
def mapEventChangeMap (spawn : ℤ → ℕ → ℤ → ℤ → ℤ → Exec World ℤ) (p : ℕ) (e : MapEvent) :
    Exec World Unit := do
  let id ← Exec.need e.staticArgs[0]?
  let x ← Exec.need e.staticArgs[1]?
  let y ← Exec.need e.staticArgs[2]?
  let suppress ← Exec.need e.staticArgs[2]?
  let _ ← spawn id p x y suppress
  pure ()

/-- `event->func`.  The first two functions only print the name of the player. -/
def eventFunc (spawn : ℤ → ℕ → ℤ → ℤ → ℤ → Exec World ℤ) (p : ℕ) (e : MapEvent) :
    Exec World Unit :=
  match e.func with
  | .hello | .goodbye => do
    let _ ← derefPlayer p
    pure ()
  | .changeMap => mapEventChangeMap spawn p e

/-- One round of the loop of `map_event_activate` over the events of the map `m`. -/
def activateEvent (spawn : ℤ → ℕ → ℤ → ℤ → ℤ → Exec World ℤ) (x y : ℤ) (m p : ℕ)
    (e : MapEvent) : Exec World Unit := do
  let _ ← derefMap m
  if e.x = x ∧ e.y = y then eventFunc spawn p e else pure ()

/-- `map_event_args_free`. -/
def mapEventArgsFree : Option ℕ → Exec World Unit
  | none => pure ()
  | some m => do
    let map ← derefMap m
    mapUnload defs map.id

/-- `map_event_activate`. -/
def mapEventActivate (spawn : ℤ → ℕ → ℤ → ℤ → ℤ → Exec World ℤ) (x y : ℤ) (m p : ℕ) :
    Exec World Unit := do
  let map ← derefMap m
  let loaded ← mapLoad defs map.id
  Exec.forEach map.events (activateEvent spawn x y m p)
  mapEventArgsFree defs loaded

/-! ## `player_move` -/

/-- `MoveArgs`. -/
structure MoveArgs where
  suppressEvents : Bool
  overlap : Bool
  map : Option ℕ
  deriving DecidableEq

/-- The arguments of a client's move. -/
def MoveArgs.zero : MoveArgs := ⟨false, false, none⟩

/-- `map_toggle_coord`. -/
def toggleCoord (m : ℕ) (x y : ℤ) (disable : Bool) : Exec World Bool := do
  let map ← derefMap m
  let r ← Exec.need (mapToggleCoord map x y disable)
  Exec.modify (setMap m r.2)
  pure r.1

/-- The change of the map. -/
def changeMap (oldMap : Option ℕ) (p : ℕ) : Option ℕ → Exec World Unit
  | none => pure ()
  | some m => do
    mapRemovePlayer defs oldMap p
    mapAddPlayer defs m p

/-- Whether the target is near enough.  It always is on another map. -/
def moveValid (p : ℕ) (x y : ℤ) : Option ℕ → Exec World Bool
  | none => do
    let player ← derefPlayer p
    pure (movementCheckValid player.maxMove player.x player.y x y)
  | some _ => pure true

/-- Enable the old cell, if there is an old map. -/
def enableOldCoord (p : ℕ) : Option ℕ → Exec World Bool
  | none => pure true
  | some m => do
    let player ← derefPlayer p
    toggleCoord m player.x player.y false

/-- Trigger the events of the new cell. -/
def triggerEvents (activate : ℤ → ℤ → ℕ → ℕ → Exec World Unit) (p : ℕ) (x y : ℤ)
    (suppress : Bool) : Exec World Unit :=
  if suppress then pure ()
  else do
    let player ← derefPlayer p
    let m ← Exec.need player.map
    activate x y m p

/-- Tell everybody on the map of a player where it is. -/
def announce (p : ℕ) : Exec World Unit := do
  let player ← derefPlayer p
  mapSendPacket player.map (packetTemplateUpdatePosition player.id player.x player.y)

/-- `player_move` from the assignment of the coordinates on. -/
def moveTo (activate : ℤ → ℤ → ℕ → ℕ → Exec World Unit) (p : ℕ) (x y : ℤ) (suppress : Bool) :
    Exec World Unit := do
  updatePlayer p fun player => { player with x := x, y := y }
  triggerEvents activate p x y suppress
  announce p

/-- `player_move` from the release of the old cell on. -/
def moveFrom (activate : ℤ → ℤ → ℕ → ℕ → Exec World Unit) (oldMap : Option ℕ) (p : ℕ)
    (x y : ℤ) (args : MoveArgs) : Exec World Bool := do
  let enabled ← enableOldCoord p oldMap
  if enabled then do
    moveTo activate p x y args.suppressEvents
    pure true
  else pure false

/-- `player_move` from the check of the bounds on. -/
def moveWithin (activate : ℤ → ℤ → ℕ → ℕ → Exec World Unit) (oldMap : Option ℕ) (p : ℕ)
    (x y : ℤ) (args : MoveArgs) : Exec World Bool := do
  let player ← derefPlayer p
  let m ← Exec.need player.map
  let map ← derefMap m
  if mapCheckBounds map x y then do
    let disabled ← toggleCoord m x y true
    if disabled || args.overlap then moveFrom activate oldMap p x y args else pure false
  else pure false

/-- `player_move`, over the `map_event_activate` it calls. -/
def playerMoveWith (activate : ℤ → ℤ → ℕ → ℕ → Exec World Unit) (p : ℕ) (x y : ℤ)
    (args : MoveArgs) : Exec World Bool := do
  let player ← derefPlayer p
  changeMap defs player.map p args.map
  let valid ← moveValid p x y args.map
  if valid then moveWithin activate player.map p x y args else pure false

/-! ## `map_spawn_player` -/

/-- Tell a player where another player of its map is. -/
def sendPosition (p q : ℕ) : Exec World Unit :=
  if q = p then pure ()
  else do
    let other ← derefPlayer q
    let packet ← Exec.need (packetTemplateUpdatePosition other.id other.x other.y)
    writeToPlayer packet p

/-- Tell a player where the players of a map are. -/
def sendPositions (m p : ℕ) : Exec World Unit := do
  let map ← derefMap m
  Exec.forEach map.players (sendPosition p)

/-- `map_spawn_player` after its check of the id, over the `player_move` it calls.
What that call returns is not looked at. -/
def spawnOn (move : ℕ → ℤ → ℤ → MoveArgs → Exec World Bool) (id : ℤ) (p : ℕ) (x y suppress : ℤ) :
    Exec World ℤ := do
  let loaded ← mapLoad defs id
  let player ← derefPlayer p
  mapSendMapPacket defs loaded player.session
  let _ ← move p x y ⟨suppress % 2 = 1, true, loaded⟩
  let m ← Exec.need loaded
  sendPositions m p
  pure 1

/-- `map_spawn_player`, over the `player_move` it calls. -/
def mapSpawnPlayerWith (move : ℕ → ℤ → ℤ → MoveArgs → Exec World Bool) (id : ℤ) (p : ℕ)
    (x y suppress : ℤ) : Exec World ℤ :=
  if id < 0 ∨ (defs.count : ℤ) < id then pure 0 else spawnOn defs move id p x y suppress

/-- `map_spawn_player`, for at most `fuel` spawns inside one another. -/
def mapSpawnPlayer : ℕ → ℤ → ℕ → ℤ → ℤ → ℤ → Exec World ℤ
  | 0 => fun _ _ _ _ _ => Exec.stop .fuel
  | fuel + 1 =>
    mapSpawnPlayerWith defs (playerMoveWith defs (mapEventActivate defs (mapSpawnPlayer fuel)))

/-- `player_move`, for at most `fuel` spawns inside one another. -/
def playerMove (fuel : ℕ) : ℕ → ℤ → ℤ → MoveArgs → Exec World Bool :=
  playerMoveWith defs (mapEventActivate defs (mapSpawnPlayer defs fuel))

theorem mapSpawnPlayer_succ (fuel : ℕ) :
    mapSpawnPlayer defs (fuel + 1) = mapSpawnPlayerWith defs (playerMove defs fuel) := rfl

/-- `map_spawn_player` returns 0 or 1. -/
theorem mapSpawnPlayer_ne {defs : MapDefs} {fuel p : ℕ} {id x y suppress r : ℤ} {w w' : World}
    (h : mapSpawnPlayer defs fuel id p x y suppress w = .ok (r, w')) : r ≠ -1 := by
  cases fuel with
  | zero =>
    rw [mapSpawnPlayer, Exec.stop_eq_ok] at h
    exact h.elim
  | succ fuel =>
    rw [mapSpawnPlayer_succ, mapSpawnPlayerWith, Exec.ite_eq_ok] at h
    rcases h with ⟨-, h⟩ | ⟨-, h⟩
    · obtain ⟨rfl, -⟩ := Exec.pure_eq_ok.mp h
      decide
    · simp only [spawnOn, Exec.bind_eq_ok, Exec.pure_eq_ok] at h
      obtain ⟨_, _, -, _, _, -, _, _, -, _, _, -, _, _, -, _, _, -, rfl, -⟩ := h
      decide

end World
end MmoBackend
