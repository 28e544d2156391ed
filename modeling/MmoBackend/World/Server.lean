import Mathlib.Data.List.TakeWhile
import MmoBackend.World.Movement

/-!
# Requests

A session receives packets and answers them one by one.  `eventLoop` is one round of
`event_loop_start`: it checks that the state of the session allows the packet, runs
the handler and writes the answer.

`Step` is the server.  Between two rounds of one session anything may happen in the
others, a client may connect, and the auth receiver may store a token.  A step is one
of these, run to its end; a call that does not return is no step.
-/

namespace MmoBackend

open Authentication Bytes Communication Db Maps

namespace World

variable (defs : MapDefs)

/-! ## Loading a player -/

/-- `bson_get_string`.  The copy ends at the first zero byte. -/
def bsonGetString : Bson → Option CString
  | .utf8 s => some (s.takeWhile fun b => b ≠ 0)
  | _ => none

/-- A string is copied whole if it has no zero byte. -/
theorem bsonGetString_utf8_iff {s : CString} : bsonGetString (.utf8 s) = some s ↔ 0 ∉ s := by
  rw [bsonGetString, Option.some.injEq, List.takeWhile_eq_self_iff]
  constructor
  · exact fun h hzero => of_decide_eq_true (h 0 hzero) rfl
  · exact fun h b hb => decide_eq_true fun hzero => h (hzero ▸ hb)

/-- `bson_iter_int32`, which returns zero for another type. -/
def bsonIterInt32 : Bson → ℤ
  | .int32 n => n
  | _ => 0

/-- One round of the loop of `db_player_get_player` over the fields of a document.
`max_move` is a `short`. -/
def readField (p : ℕ) (field : String × Bson) : Exec World Unit :=
  if field.1 = "id" then do
    let s ← Exec.need (bsonGetString field.2)
    updatePlayer p fun player => { player with id := some s }
  else if field.1 = "name" then do
    let s ← Exec.need (bsonGetString field.2)
    updatePlayer p fun player => { player with name := some s }
  else if field.1 = "map" then do
    let loaded ← mapLoad defs (bsonIterInt32 field.2)
    updatePlayer p fun player => { player with map := loaded }
  else if field.1 = "x" then
    updatePlayer p fun player => { player with x := bsonIterInt32 field.2 }
  else if field.1 = "y" then
    updatePlayer p fun player => { player with y := bsonIterInt32 field.2 }
  else if field.1 = "max_move" then
    updatePlayer p fun player =>
      { player with maxMove := Int.bmod (bsonIterInt32 field.2) (2 ^ 16) }
  else pure ()

/-- `db_player_get_player`, for a player that is not in the cache. -/
def readPlayer (id : CString) : Exec World (Option ℕ) := do
  let w ← Exec.get
  match findById id w.playerdata with
  | none => pure none
  | some doc => do
    let p ← playerCreate
    Exec.forEach doc.fields (readField defs p)
    pure (some p)

/-- `db_player_get_player`. -/
def dbPlayerGetPlayer (id : CString) : Exec World (Option ℕ) := do
  let cached ← playerCacheFind id
  match cached with
  | some p => pure (some p)
  | none => readPlayer defs id

/-! ## Handlers -/

/-- The string a pointer points to.  `none` is a string that does not end. -/
def cString (memory : List UInt8) : Option CString :=
  if 0 ∈ memory then some (memory.takeWhile fun b => b ≠ 0) else none

/-- The `int` at an offset of some memory. -/
def intAt (memory : List UInt8) (offset : ℕ) : Option ℤ :=
  if offset + 4 ≤ memory.length then some (bytesInt ((memory.drop offset).take 4)) else none

/-- `packet_handle_login` after the spawn.  `map_spawn_player` does not return `-1`. -/
def loginReply (packet : Packet) (s : ℕ) (spawned : ℤ) : Exec World (Option ServerPacket) :=
  if spawned = -1 then do
    sessionDestroy defs s
    Exec.modify fun w => { w with packetErrno := invalidAwaitingConnection }
    pure none
  else pure (some (.success packet.id))

/-- `packet_handle_login` from the assignment of `session->player->session` on. -/
def loginPlayer (fuel : ℕ) (packet : Packet) (code : CString) (s p : ℕ) :
    Exec World (Option ServerPacket) := do
  updatePlayer p fun player => { player with session := some s }
  updateSession s fun session => { session with state := .roaming }
  let _ ← onTable (AwaitingTable.remove code)
  let player ← derefPlayer p
  let m ← Exec.need player.map
  let map ← derefMap m
  let spawned ← mapSpawnPlayer defs fuel map.id p player.x player.y 1
  loginReply defs packet s spawned

/-- `packet_handle_login` from the load of the player on. -/
def loginAs (fuel : ℕ) (packet : Packet) (code id : CString) (s : ℕ) :
    Exec World (Option ServerPacket) := do
  let found ← dbPlayerGetPlayer defs id
  updateSession s fun session => { session with player := found }
  match found with
  | none => pure (some (.failure packet.id))
  | some p => loginPlayer defs fuel packet code s p

/-- `packet_handle_login`. -/
def packetHandleLogin (fuel : ℕ) (packet : Packet) (s : ℕ) : Exec World (Option ServerPacket) := do
  let code ← Exec.need (cString packet.data)
  let found ← onTable (AwaitingTable.find code)
  match found with
  | none => do
    Exec.modify fun w => { w with packetErrno := invalidAwaitingConnection }
    pure none
  | some c => do
    let w ← Exec.get
    let id ← Exec.need (w.table.ids c)
    loginAs defs fuel packet code id s

/-- `packet_handle_move`. -/
def packetHandleMove (fuel : ℕ) (packet : Packet) (s : ℕ) : Exec World (Option ServerPacket) := do
  let x ← Exec.need (intAt packet.data 0)
  let y ← Exec.need (intAt packet.data 4)
  let session ← derefSession s
  let p ← Exec.need session.player
  let moved ← playerMove defs fuel p x y MoveArgs.zero
  if moved then pure none else pure (some (.failure packet.id))

/-- The answer to an inspect request. -/
def inspectReply (packet : Packet) : Option ℕ → Exec World (Option ServerPacket)
  | none => pure (some (.failure packet.id))
  | some p => do
    let player ← derefPlayer p
    let name ← Exec.need player.name
    pure (some (.player packet.id name player.x player.y))

/-- `packet_handle_inspect_player`.  `strncpy` stops at a zero byte. -/
def packetHandleInspectPlayer (packet : Packet) : Exec World (Option ServerPacket) := do
  let id := (packet.data.take packet.length.toNat).takeWhile fun b => b ≠ 0
  let found ← dbPlayerGetPlayer defs id
  inspectReply packet found

/-- The handlers that `packet_handle_route` calls. -/
inductive Handler where
  | login
  | logout
  | move
  | inspect
  deriving DecidableEq

/-- What the handlers do.  `packet_handle_logout` ends without a `return`. -/
def Handler.call (fuel : ℕ) (packet : Packet) (s : ℕ) :
    Handler → Exec World (Option ServerPacket)
  | login => packetHandleLogin defs fuel packet s
  | logout => Exec.stop .fault
  | move => packetHandleMove defs fuel packet s
  | inspect => packetHandleInspectPlayer defs packet

/-- `packet_handle_route`, over what its handlers do.  For the opcode of an error it ends
without a `return`. -/
def packetHandleRouteWith (call : Handler → Exec World (Option ServerPacket)) (packet : Packet) :
    Exec World (Option ServerPacket) :=
  if packet.opcode = 0 then Exec.stop .fault
  else if packet.opcode = loginPacket then call .login
  else if packet.opcode = logoutPacket then call .logout
  else if packet.opcode = movePacket then call .move
  else if packet.opcode = inspectPlayerPacket then call .inspect
  else pure none

/-- `packet_handle_route`. -/
def packetHandleRoute (fuel : ℕ) (packet : Packet) (s : ℕ) : Exec World (Option ServerPacket) :=
  packetHandleRouteWith (Handler.call defs fuel packet s) packet

section Routes

variable {defs} {fuel s : ℕ} {packet : Packet}

theorem packetHandleRoute_login (h : packet.opcode = loginPacket) :
    packetHandleRoute defs fuel packet s = packetHandleLogin defs fuel packet s := by
  rw [packetHandleRoute, packetHandleRouteWith, h]
  rfl

theorem packetHandleRoute_move (h : packet.opcode = movePacket) :
    packetHandleRoute defs fuel packet s = packetHandleMove defs fuel packet s := by
  rw [packetHandleRoute, packetHandleRouteWith, h]
  rfl

theorem packetHandleRoute_inspect (h : packet.opcode = inspectPlayerPacket) :
    packetHandleRoute defs fuel packet s = packetHandleInspectPlayer defs packet := by
  rw [packetHandleRoute, packetHandleRouteWith, h]
  rfl

end Routes

/-! ## The event loop -/

/-- `session_valid_packets`. -/
def sessionValidPackets : SessionState → List UInt8
  | .disabled => [loginPacket]
  | .roaming => [movePacket, inspectPlayerPacket]

/-- `session_verify_packet`. -/
def sessionVerifyPacket (session : Session) (packet : Packet) : Bool :=
  packet.opcode ∈ sessionValidPackets session.state

/-- `event_loop_error`. -/
def eventLoopError (fd : ℕ) (code : ℤ) : Exec World Unit := do
  let packet ← Exec.need (packetTemplateError code)
  packetWrite fd packet
  wsClose fd 1008

/-- Report a packet that could not be read. -/
def reportBadPacket (fd : ℕ) : Option Packet → Exec World Unit
  | none => eventLoopError fd badPacket
  | some _ => pure ()

/-- Report the error number, if there is one. -/
def reportErrno (fd : ℕ) : Exec World Unit := do
  let w ← Exec.get
  if w.packetErrno = 0 then pure () else eventLoopError fd w.packetErrno

/-- Write the answer of a handler. -/
def respond (s : ℕ) : Option ServerPacket → Exec World Unit
  | none => pure ()
  | some response => do
    let session ← derefSession s
    packetWrite session.fd response

/-- The part of a round that is for valid packets, over the way they are routed. -/
def handlePacketWith (route : Packet → Exec World (Option ServerPacket)) (packet : Packet)
    (s fd : ℕ) : Exec World Unit := do
  reportErrno fd
  let response ← route packet
  respond s response

/-- One round of the loop of `event_loop_start`, with what `packet_read` returned, over the way
packets are routed. -/
def eventLoopWith (route : Packet → Exec World (Option ServerPacket)) (s : ℕ)
    (received : Option Packet) : Exec World Unit := do
  let session ← derefSession s
  reportBadPacket session.fd received
  let packet ← Exec.need received
  if sessionVerifyPacket session packet then handlePacketWith route packet s session.fd
  else packetWrite session.fd (.badState packet.id)

/-- One round of the loop of `event_loop_start`. -/
def eventLoop (fuel : ℕ) (s : ℕ) (received : Option Packet) : Exec World Unit :=
  eventLoopWith (fun packet => packetHandleRoute defs fuel packet s) s received

/-! ## The server -/

/-- What can happen. -/
inductive Request where
  /-- A client connects. -/
  | connect (fd : ℕ)
  /-- The auth receiver stores a token. -/
  | token (token id : CString) (now : ℕ)
  /-- A session receives a packet. -/
  | packet (s : ℕ) (packet : Packet)

/-- The steps of the server.  A file descriptor belongs to one session. -/
inductive Step : World → Request → World → Prop
  | connect {w w' : World} {fd s : ℕ} :
      (∀ s session, w.sessions.get s = some session → session.fd ≠ fd) →
      sessionCreate fd w = .ok (s, w') → Step w (.connect fd) w'
  | token {w w' : World} {token id : CString} {now : ℕ} {inserted : Bool} :
      onTable (AwaitingTable.insert token id now) w = .ok (inserted, w') →
      Step w (.token token id now) w'
  | packet {w w' : World} {s fuel : ℕ} {packet : Packet} :
      eventLoop defs fuel s (some packet) w = .ok ((), w') → Step w (.packet s packet) w'

end World
end MmoBackend
