import MmoBackend.Communication.PacketTypes
import MmoBackend.Db.Document
import MmoBackend.Library.Exec
import MmoBackend.Library.Heap
import MmoBackend.Maps.MapDefinitions

/-!
# The state of the server

The server keeps maps, players and sessions in memory and refers to them by
pointers.  There is a heap for each of the three, and following a pointer to memory
that is not allocated or has been freed is a fault.

Besides the memory the state has the table `tiles` of the loaded maps, the player
cache, the table of awaiting connections, the database, the locks that are held and
what has been written to the sockets so far.  It describes the server between two
steps of one thread; `Exec World` is the code of that thread.

The lock of a row is taken and released within one call of `map_toggle_coord`, and
is left out.  Nothing else takes a lock, so it is never found taken.
-/

namespace MmoBackend

open Authentication Communication Db Maps

namespace World

/-- `Player`. -/
structure Player where
  x : ℤ
  y : ℤ
  modified : ℤ
  maxMove : ℤ
  refs : ℤ
  map : Option ℕ
  session : Option ℕ
  name : Option CString
  id : Option CString
  deriving DecidableEq

/-- `State`. -/
inductive SessionState where
  | disabled
  | roaming
  deriving DecidableEq

/-- `Session`.  Its database connection leads to the one database. -/
structure Session where
  fd : ℕ
  state : SessionState
  player : Option ℕ
  deriving DecidableEq

/-- The locks of the server. -/
inductive Lock where
  /-- The lock of the player cache. -/
  | cache
  /-- The lock of a player. -/
  | player (p : ℕ)
  /-- An element of `map_locks`. -/
  | map (i : ℕ)
  deriving DecidableEq

/-- What is written to a socket. -/
inductive Sent where
  | packet (packet : ServerPacket)
  /-- The close frame of `ws_close`. -/
  | close (code : ℕ)
  deriving DecidableEq

end World

/-- The state of the server. -/
structure World where
  maps : Heap Map
  /-- `tiles`: for every map id the loaded map. -/
  tiles : ℕ → Option ℕ
  players : Heap World.Player
  sessions : Heap World.Session
  /-- `player_cache`. -/
  cache : List (CString × ℕ)
  /-- `awaiting_connections_table`. -/
  table : AwaitingTable
  playerdata : List Document
  locks : List World.Lock
  /-- `packet_errno`. -/
  packetErrno : ℤ
  /-- Everything written to the sockets, with the file descriptor it went to. -/
  out : List (ℕ × World.Sent)

namespace World

/-- The server as `main` starts it, with a database that may hold anything. -/
def boot (playerdata : List Document) : World where
  maps := Heap.empty
  tiles _ := none
  players := Heap.empty
  sessions := Heap.empty
  cache := []
  table := AwaitingTable.init
  playerdata := playerdata
  locks := []
  packetErrno := 0
  out := []

/-! ## Memory -/

/-- Write a map. -/
def setMap (m : ℕ) (map : Map) (w : World) : World :=
  { w with maps := w.maps.set m map }

/-- Write a player. -/
def setPlayer (p : ℕ) (player : Player) (w : World) : World :=
  { w with players := w.players.set p player }

/-- Write a session. -/
def setSession (s : ℕ) (session : Session) (w : World) : World :=
  { w with sessions := w.sessions.set s session }

/-- The map a pointer points to. -/
def derefMap (m : ℕ) : Exec World Map := do
  let w ← Exec.get
  Exec.need (w.maps.get m)

/-- The player a pointer points to. -/
def derefPlayer (p : ℕ) : Exec World Player := do
  let w ← Exec.get
  Exec.need (w.players.get p)

/-- The session a pointer points to. -/
def derefSession (s : ℕ) : Exec World Session := do
  let w ← Exec.get
  Exec.need (w.sessions.get s)

/-- Change the map a pointer points to. -/
def updateMap (m : ℕ) (f : Map → Map) : Exec World Unit := do
  let map ← derefMap m
  Exec.modify (setMap m (f map))

/-- Change the player a pointer points to. -/
def updatePlayer (p : ℕ) (f : Player → Player) : Exec World Unit := do
  let player ← derefPlayer p
  Exec.modify (setPlayer p (f player))

/-- Change the session a pointer points to. -/
def updateSession (s : ℕ) (f : Session → Session) : Exec World Unit := do
  let session ← derefSession s
  Exec.modify (setSession s (f session))

/-! ## Locks -/

/-- The state while other locks are held. -/
def setLocks (locks : List Lock) (w : World) : World := { w with locks := locks }

/-- `pthread_mutex_lock`. -/
def lock (l : Lock) : Exec World Unit := do
  let w ← Exec.get
  if l ∈ w.locks then Exec.stop .deadlock
  else Exec.modify (setLocks (l :: w.locks))

/-- `pthread_mutex_unlock`. -/
def unlock (l : Lock) : Exec World Unit := Exec.modify fun w => w.setLocks (w.locks.erase l)

/-! ## Parts of the state with code of their own -/

/-- Write another table. -/
def setTable (table : AwaitingTable) (w : World) : World := { w with table := table }

/-- A call that works on the table of awaiting connections. -/
def onTable {α : Type} (x : Exec AwaitingTable α) : Exec World α := fun w =>
  match x w.table with
  | .ok (a, t) => .ok (a, w.setTable t)
  | .error e => .error e

/-- Write to a socket. -/
def write (fd : ℕ) (sent : Sent) (w : World) : World := { w with out := w.out ++ [(fd, sent)] }

/-- `packet_write`. -/
def packetWrite (fd : ℕ) (packet : ServerPacket) : Exec World Unit :=
  Exec.modify (write fd (.packet packet))

/-- `ws_close`. -/
def wsClose (fd code : ℕ) : Exec World Unit := Exec.modify (write fd (.close code))

/-! ## Reading after writing -/

section Fields

variable (w : World) (m p s fd : ℕ) (map : Map) (player : Player) (session : Session)
  (sent : Sent) (locks : List Lock) (table : AwaitingTable)

@[simp] theorem maps_setMap : (w.setMap m map).maps = w.maps.set m map := rfl
@[simp] theorem tiles_setMap : (w.setMap m map).tiles = w.tiles := rfl
@[simp] theorem players_setMap : (w.setMap m map).players = w.players := rfl
@[simp] theorem sessions_setMap : (w.setMap m map).sessions = w.sessions := rfl
@[simp] theorem locks_setMap : (w.setMap m map).locks = w.locks := rfl
@[simp] theorem out_setMap : (w.setMap m map).out = w.out := rfl
@[simp] theorem maps_setPlayer : (w.setPlayer p player).maps = w.maps := rfl
@[simp] theorem tiles_setPlayer : (w.setPlayer p player).tiles = w.tiles := rfl
@[simp] theorem players_setPlayer :
    (w.setPlayer p player).players = w.players.set p player := rfl
@[simp] theorem sessions_setPlayer : (w.setPlayer p player).sessions = w.sessions := rfl
@[simp] theorem locks_setPlayer : (w.setPlayer p player).locks = w.locks := rfl
@[simp] theorem out_setPlayer : (w.setPlayer p player).out = w.out := rfl
@[simp] theorem maps_setSession : (w.setSession s session).maps = w.maps := rfl
@[simp] theorem tiles_setSession : (w.setSession s session).tiles = w.tiles := rfl
@[simp] theorem players_setSession : (w.setSession s session).players = w.players := rfl
@[simp] theorem sessions_setSession :
    (w.setSession s session).sessions = w.sessions.set s session := rfl
@[simp] theorem locks_setSession : (w.setSession s session).locks = w.locks := rfl
@[simp] theorem out_setSession : (w.setSession s session).out = w.out := rfl
@[simp] theorem maps_write : (w.write fd sent).maps = w.maps := rfl
@[simp] theorem tiles_write : (w.write fd sent).tiles = w.tiles := rfl
@[simp] theorem players_write : (w.write fd sent).players = w.players := rfl
@[simp] theorem sessions_write : (w.write fd sent).sessions = w.sessions := rfl
@[simp] theorem locks_write : (w.write fd sent).locks = w.locks := rfl
@[simp] theorem out_write : (w.write fd sent).out = w.out ++ [(fd, sent)] := rfl

end Fields

/-! ## Inversion -/

section Inversion

variable {w w' : World} {m p s : ℕ}

@[simp] theorem derefMap_eq_ok {map : Map} :
    derefMap m w = .ok (map, w') ↔ w.maps.get m = some map ∧ w = w' := by
  simp [derefMap, Exec.bind_eq_ok, and_comm]

@[simp] theorem derefPlayer_eq_ok {player : Player} :
    derefPlayer p w = .ok (player, w') ↔ w.players.get p = some player ∧ w = w' := by
  simp [derefPlayer, Exec.bind_eq_ok, and_comm]

@[simp] theorem derefSession_eq_ok {session : Session} :
    derefSession s w = .ok (session, w') ↔ w.sessions.get s = some session ∧ w = w' := by
  simp [derefSession, Exec.bind_eq_ok, and_comm]

theorem updateMap_eq_ok {f : Map → Map} {u : Unit} :
    updateMap m f w = .ok (u, w') ↔ ∃ map, w.maps.get m = some map ∧ w.setMap m (f map) = w' := by
  simp [updateMap, Exec.bind_eq_ok]

theorem updatePlayer_eq_ok {f : Player → Player} {u : Unit} :
    updatePlayer p f w = .ok (u, w') ↔
      ∃ player, w.players.get p = some player ∧ w.setPlayer p (f player) = w' := by
  simp [updatePlayer, Exec.bind_eq_ok]

theorem updateSession_eq_ok {f : Session → Session} {u : Unit} :
    updateSession s f w = .ok (u, w') ↔
      ∃ session, w.sessions.get s = some session ∧ w.setSession s (f session) = w' := by
  simp [updateSession, Exec.bind_eq_ok]

theorem lock_eq_ok {l : Lock} {u : Unit} :
    lock l w = .ok (u, w') ↔ l ∉ w.locks ∧ w.setLocks (l :: w.locks) = w' := by
  simp [lock, Exec.bind_eq_ok, Exec.ite_eq_ok]

@[simp] theorem unlock_eq_ok {l : Lock} {u : Unit} :
    unlock l w = .ok (u, w') ↔ w.setLocks (w.locks.erase l) = w' := by
  simp [unlock]

@[simp] theorem packetWrite_eq_ok {fd : ℕ} {packet : ServerPacket} {u : Unit} :
    packetWrite fd packet w = .ok (u, w') ↔ w.write fd (.packet packet) = w' := by
  simp [packetWrite]

theorem onTable_eq_ok {α : Type} {x : Exec AwaitingTable α} {a : α} :
    onTable x w = .ok (a, w') ↔ ∃ t, x w.table = .ok (a, t) ∧ w.setTable t = w' := by
  unfold onTable
  cases x w.table with
  | error e => simp
  | ok r =>
    obtain ⟨b, t⟩ := r
    simp

end Inversion

end World
end MmoBackend
