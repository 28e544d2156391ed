import MmoBackend.Library.Trace
import MmoBackend.World.Settled

/-!
# Requests, one by one

A round of the event loop either refuses the packet, or reports the error number, runs
one of the three handlers and writes the answer.  What it writes itself says nothing
about players.

`packet_handle_login` has three ends.  The code is not in the table, or the account has
no record, or a player is read from the record and spawned where the record says.  The
account a packet logs in is `accountOf`.
-/

namespace MmoBackend

open Authentication Bytes Communication Db Maps Player

namespace World

open Scene

/-! ## Accounts -/

/-- The account whose code is in a login packet. -/
def accountOf (w : World) (packet : Packet) : Option CString := do
  let code ← cString packet.data
  let c ← w.table.entries.lookup code
  let conn ← w.table.conns c
  w.table.ids conn.id

/-- A request to log in an account, in a session that may. -/
def LoginFor (w : World) (a : Request) (id : CString) : Prop :=
  ∃ s packet session, a = .packet s packet ∧ packet.opcode = loginPacket ∧
    w.sessions.get s = some session ∧ session.state = .disabled ∧ accountOf w packet = some id

variable {defs : MapDefs} {w w' : World} {fuel s : ℕ} {packet : Packet} {session : Session}
  {r : Option ServerPacket} {u : Unit}

/-! ## The event loop -/

/-- What is written to report an error number. -/
def errorReport (fd : ℕ) (errno : ℤ) : List (ℕ × Sent) :=
  if errno = 0 then []
  else (packetTemplateError errno).toList.flatMap fun packet =>
    [(fd, .packet packet), (fd, .close 1008)]

theorem fst_errorReport (fd : ℕ) (errno : ℤ) : ∀ e ∈ errorReport fd errno, e.1 = fd := by
  intro e he
  rw [errorReport] at he
  split at he
  · exact absurd he List.not_mem_nil
  · obtain ⟨_, -, he⟩ := List.mem_flatMap.mp he
    simp only [List.mem_cons, List.not_mem_nil, or_false] at he
    rcases he with rfl | rfl
    · rfl
    · rfl

theorem messageOf_errorReport (fd : ℕ) (errno : ℤ) :
    ∀ e ∈ errorReport fd errno, messageOf e.2 = none := by
  intro e he
  rw [errorReport] at he
  split at he
  · exact absurd he List.not_mem_nil
  · obtain ⟨packet, hpacket, he⟩ := List.mem_flatMap.mp he
    simp only [List.mem_cons, List.not_mem_nil, or_false] at he
    rcases he with rfl | rfl
    · exact message_packetTemplateError (Option.mem_toList.mp hpacket)
    · rfl

theorem reportErrno_eq_ok {fd : ℕ} (h : reportErrno fd w = .ok (u, w')) :
    w' = w.emit (errorReport fd w.packetErrno) := by
  simp only [reportErrno, Exec.bind_eq_ok, Exec.get_eq_ok, Exec.ite_eq_ok] at h
  obtain ⟨_, _, ⟨rfl, rfl⟩, ⟨hzero, h⟩ | ⟨hzero, h⟩⟩ := h
  · obtain ⟨-, rfl⟩ := Exec.pure_eq_ok.mp h
    rw [errorReport, if_pos hzero, emit_nil]
  · simp only [eventLoopError, wsClose, Exec.bind_eq_ok, Exec.need_eq_ok, packetWrite_eq_ok,
      Exec.modify_eq_ok] at h
    obtain ⟨packet, _, ⟨hpacket, rfl⟩, _, _, rfl, rfl⟩ := h
    rw [errorReport, if_neg hzero, hpacket]
    simp [emit, write]

/-- An answer says nothing about players. -/
def Silent (r : Option ServerPacket) : Prop :=
  ∀ response, r = some response → response.message = none

theorem silent_none : Silent none := fun _ h => absurd h.symm (Option.some_ne_none _)

theorem silent_some {response : ServerPacket} (h : response.message = none) :
    Silent (some response) := by
  rintro _ ⟨⟩
  exact h

/-- An answer is written and nothing else. -/
theorem respond_emit (h : respond s r w = .ok (u, w')) : ∃ l, w' = w.emit l ∧
    ∀ e ∈ l, ∃ response, r = some response ∧ e.2 = .packet response := by
  cases r with
  | none =>
    obtain ⟨-, rfl⟩ := Exec.pure_eq_ok.mp h
    exact ⟨[], (emit_nil _).symm, fun e he => absurd he List.not_mem_nil⟩
  | some response =>
    simp only [respond, Exec.bind_eq_ok, derefSession_eq_ok, packetWrite_eq_ok] at h
    obtain ⟨session, _, ⟨-, rfl⟩, rfl⟩ := h
    refine ⟨[(session.fd, .packet response)], rfl, fun e he => ⟨response, rfl, ?_⟩⟩
    rw [List.mem_singleton.mp he]

theorem respond_eq_ok (hr : Silent r)
    (h : respond s r w = .ok (u, w')) : ∃ l, w' = w.emit l ∧ ∀ e ∈ l, messageOf e.2 = none := by
  obtain ⟨l, rfl, hl⟩ := respond_emit h
  refine ⟨l, rfl, fun e he => ?_⟩
  obtain ⟨response, hresponse, hpacket⟩ := hl e he
  rw [hpacket]
  exact hr response hresponse

/-- **One round of the event loop.** -/
theorem eventLoop_eq_ok (h : eventLoop defs fuel s (some packet) w = .ok (u, w')) :
    ∃ session, w.sessions.get s = some session ∧
      (sessionVerifyPacket session packet = false ∧
          w' = w.write session.fd (.packet (.badState packet.id)) ∨
        sessionVerifyPacket session packet = true ∧ ∃ r w₁,
          packetHandleRoute defs fuel packet s
            (w.emit (errorReport session.fd w.packetErrno)) = .ok (r, w₁) ∧
          respond s r w₁ = .ok (u, w')) := by
  simp only [eventLoop, eventLoopWith, reportBadPacket, Exec.bind_eq_ok, derefSession_eq_ok,
    Exec.need_eq_ok, Exec.pure_eq_ok, Exec.ite_eq_ok, packetWrite_eq_ok] at h
  obtain ⟨session, _, ⟨hsession, rfl⟩, _, _, ⟨-, rfl⟩, _, _, ⟨hpacket, rfl⟩, h⟩ := h
  obtain rfl := Option.some.inj hpacket
  refine ⟨session, hsession, ?_⟩
  rcases h with ⟨hverify, h⟩ | ⟨hverify, rfl⟩
  · simp only [handlePacketWith, Exec.bind_eq_ok] at h
    obtain ⟨_, w₁, hreport, r, w₂, hroute, hrespond⟩ := h
    obtain rfl := reportErrno_eq_ok hreport
    exact Or.inr ⟨hverify, r, w₂, hroute, hrespond⟩
  · exact Or.inl ⟨by simpa using hverify, rfl⟩

/-- A disabled session may only log in. -/
theorem opcode_of_disabled (h : sessionVerifyPacket session packet = true)
    (hstate : session.state = .disabled) : packet.opcode = loginPacket := by
  rw [sessionVerifyPacket, hstate, decide_eq_true_eq] at h
  exact List.mem_singleton.mp h

/-- A session that roams may move and inspect. -/
theorem opcode_of_roaming (h : sessionVerifyPacket session packet = true)
    (hstate : session.state = .roaming) :
    packet.opcode = movePacket ∨ packet.opcode = inspectPlayerPacket := by
  rw [sessionVerifyPacket, hstate, decide_eq_true_eq] at h
  rcases List.mem_cons.mp h with hmove | hinspect
  · exact Or.inl hmove
  · exact Or.inr (List.mem_singleton.mp hinspect)

/-! ## The spawn of a login

`packet_handle_login` calls `map_spawn_player` in one place.  Over another function there the
login comes to this place in the same state. -/

section Over

variable (defs : MapDefs) (spawn : ℤ → ℕ → ℤ → ℤ → ℤ → Exec World ℤ) (packet : Packet)

/-- `packet_handle_login` from the assignment of `session->player->session` on, over the
`map_spawn_player` it calls. -/
def loginPlayerWith (code : CString) (s p : ℕ) : Exec World (Option ServerPacket) := do
  updatePlayer p fun player => { player with session := some s }
  updateSession s fun session => { session with state := .roaming }
  let _ ← onTable (AwaitingTable.remove code)
  let player ← derefPlayer p
  let m ← Exec.need player.map
  let map ← derefMap m
  let spawned ← spawn map.id p player.x player.y 1
  loginReply defs packet s spawned

/-- `packet_handle_login` from the load of the player on, over the spawn. -/
def loginAsWith (code id : CString) (s : ℕ) : Exec World (Option ServerPacket) := do
  let found ← dbPlayerGetPlayer defs id
  updateSession s fun session => { session with player := found }
  match found with
  | none => pure (some (.failure packet.id))
  | some p => loginPlayerWith defs spawn packet code s p

/-- `packet_handle_login`, over the `map_spawn_player` it calls. -/
def packetHandleLoginWith (s : ℕ) : Exec World (Option ServerPacket) := do
  let code ← Exec.need (cString packet.data)
  let found ← onTable (AwaitingTable.find code)
  match found with
  | none => do
    Exec.modify fun w => { w with packetErrno := invalidAwaitingConnection }
    pure none
  | some c => do
    let w ← Exec.get
    let id ← Exec.need (w.table.ids c)
    loginAsWith defs spawn packet code id s

end Over

theorem packetHandleLoginWith_eq (defs : MapDefs) (fuel : ℕ) :
    packetHandleLoginWith defs (mapSpawnPlayer defs fuel) = packetHandleLogin defs fuel := rfl

/-! ## `packet_handle_login` -/

/-- The state `w₁` in which a login calls `map_spawn_player` with the id of the map `map`,
for the player read from the record of the account `id`. -/
structure Enters (defs : MapDefs) (w : World) (s : ℕ) (session : Session) (id : CString)
    (player : Player) (m : ℕ) (map : Map) (w₁ : World) : Prop where
  kept : Kept defs w w₁
  bits : SameBits defs w w₁
  scene_eq : w₁.scene =
    (w.scene.setPlayer w.players.next { player with session := some s }).setSession s
      { session with player := some w.players.next, state := .roaming }
  refs_eq : player.refs = 1
  id_eq : player.id = some id
  map_eq : player.map = some m
  get_eq : w₁.maps.get m = some map

/-- The three ends of a login, whatever the records hold. -/
inductive LoginEnds (defs : MapDefs) (fuel : ℕ) (packet : Packet) (s : ℕ) (session : Session)
    (w : World) : Option ServerPacket → World → Prop
  /-- The code is not in the table. -/
  | unknown :
      accountOf w packet = none →
      LoginEnds defs fuel packet s session w none
        { w with packetErrno := invalidAwaitingConnection }
  /-- There is no record. -/
  | noRecord {id : CString} :
      accountOf w packet = some id → findById id w.playerdata = none →
      LoginEnds defs fuel packet s session w (some (.failure packet.id))
        (w.setSession s { session with player := none })
  /-- The player is spawned. -/
  | spawned {id : CString} {player : Player} {m : ℕ} {map : Map} {v w₁ w' : World} {n : ℤ}
      {doc : Document} :
      accountOf w packet = some id → findById id w.playerdata = some doc →
      dbPlayerGetPlayer defs id w = .ok (some w.players.next, v) →
      Reads defs w w.players.next player v → w₁.tiles = v.tiles →
      Enters defs w s session id player m map w₁ →
      mapSpawnPlayer defs fuel map.id w.players.next player.x player.y 1 w₁ = .ok (n, w') →
      LoginEnds defs fuel packet s session w (some (.success packet.id)) w'

/-- A login that finds the record `doc` reads the player from it, comes to the state `w₁` and
calls there whatever stands for `map_spawn_player`. -/
structure LoginCalls (defs : MapDefs) (packet : Packet) (s : ℕ) (session : Session) (w : World)
    (id : CString) (doc : Document) (player : Player) (m : ℕ) (map : Map) (v w₁ : World) :
    Prop where
  account_eq : accountOf w packet = some id
  record_eq : findById id w.playerdata = some doc
  get_eq : dbPlayerGetPlayer defs id w = .ok (some w.players.next, v)
  reads : Reads defs w w.players.next player v
  tiles_eq : w₁.tiles = v.tiles
  enters : Enters defs w s session id player m map w₁
  calls : ∀ spawn, packetHandleLoginWith defs spawn packet s w
    = (spawn map.id w.players.next player.x player.y 1 >>= loginReply defs packet s) w₁

/-- The state in which a login calls `map_spawn_player`, for the player `p` that was read in
the state `v`. -/
def boarded (v : World) (s p : ℕ) (session : Session) (player : Player) (t : AwaitingTable) :
    World :=
  (((v.setSession s { session with player := some p }).setPlayer p
    { player with session := some s }).setSession s
      { session with player := some p, state := .roaming }).setTable t

variable (packet) in
/-- From the record to the spawn. -/
theorem loginPlayerWith_eq {id code : CString} {player : Player} {v : World} {m : ℕ} {map : Map}
    {b : Bool} {t : AwaitingTable} (hsession : w.sessions.get s = some session)
    (hreads : Reads defs w w.players.next player v) (hid : player.id = some id)
    (hm : player.map = some m) (hmap : v.maps.get m = some map)
    (hremove : AwaitingTable.remove code v.table = .ok (b, t)) :
    Enters defs w s session id player m map (boarded v s w.players.next session player t) ∧
      ∀ spawn, loginPlayerWith defs spawn packet code s w.players.next
        (v.setSession s { session with player := some w.players.next })
          = (spawn map.id w.players.next player.x player.y 1 >>= loginReply defs packet s)
            (boarded v s w.players.next session player t) := by
  have hv := hreads.session_get hsession
  have hp : (v.setSession s { session with player := some w.players.next }).players.get
      w.players.next = some player := hreads.get_eq
  have hs₁ := Heap.get_set_self { session with player := some w.players.next } hv
  refine ⟨⟨?_, ?_, ?_, hreads.refs, hid, hm, hmap⟩, fun spawn => ?_⟩
  · exact hreads.kept.trans (Kept.of_eq rfl rfl rfl rfl)
  · exact hreads.bits.trans (SameBits.of_maps rfl)
  · have hsetsession : (v.setSession s { session with player := some w.players.next }).scene
        = v.scene.setSession s { session with player := some w.players.next } :=
      scene_setSession hv
    show (((v.setSession s { session with player := some w.players.next }).setPlayer w.players.next
      { player with session := some s }).setSession s _).scene = _
    rw [scene_setSession hs₁, scene_setPlayer hp, hsetsession, hreads.scene_eq]
    simp [Scene.setSession, Scene.setPlayer]
  · have hset : (boarded v s w.players.next session player t).players.get w.players.next
        = some { player with session := some s } := Heap.get_set_self _ hp
    have hmap' : (boarded v s w.players.next session player t).maps.get m = some map := hmap
    have htable : onTable (AwaitingTable.remove code)
        (((v.setSession s { session with player := some w.players.next }).setPlayer w.players.next
          { player with session := some s }).setSession s
            { session with player := some w.players.next, state := .roaming })
          = .ok (b, boarded v s w.players.next session player t) :=
      onTable_eq_ok.mpr ⟨t, hremove, rfl⟩
    rw [loginPlayerWith, Exec.bind_of_ok ((updatePlayer_eq_ok (u := ())).mpr ⟨player, hp, rfl⟩)]
    refine (Exec.bind_of_ok ((updateSession_eq_ok (u := ())).mpr ⟨_, hs₁, rfl⟩)).trans ?_
    refine (Exec.bind_of_ok htable).trans ?_
    refine (Exec.bind_of_ok (derefPlayer_eq_ok.mpr ⟨hset, rfl⟩)).trans ?_
    dsimp only
    rw [hm, Exec.need_some_bind, Exec.bind_of_ok (derefMap_eq_ok.mpr ⟨hmap', rfl⟩)]

/-- A login whose code is in the table and whose player has a map comes to the spawn. -/
theorem loginCalls_boarded {id code : CString} {doc : Document} {player : Player} {v : World}
    {m c : ℕ} {conn : AwaitingConnection} {map : Map} {b : Bool} {t : AwaitingTable}
    (hsession : w.sessions.get s = some session) (hcode : cString packet.data = some code)
    (hlookup : w.table.entries.lookup code = some c) (hconn : w.table.conns c = some conn)
    (hid : w.table.ids conn.id = some id) (hdoc : findById id w.playerdata = some doc)
    (hget : dbPlayerGetPlayer defs id w = .ok (some w.players.next, v))
    (hreads : Reads defs w w.players.next player v) (hpid : player.id = some id)
    (hm : player.map = some m) (hmap : v.maps.get m = some map)
    (hremove : AwaitingTable.remove code v.table = .ok (b, t)) :
    LoginCalls defs packet s session w id doc player m map v
      (boarded v s w.players.next session player t) := by
  obtain ⟨henters, hcalls⟩ :=
    loginPlayerWith_eq packet hsession hreads hpid hm hmap hremove
  have hfind := AwaitingTable.find_of_some hlookup hconn
  have hv := hreads.session_get hsession
  refine ⟨by simp [accountOf, hcode, hlookup, hconn, hid], hdoc, hget, hreads, rfl, henters,
    fun spawn => ?_⟩
  rw [packetHandleLoginWith, hcode, Exec.need_some_bind]
  refine (Exec.bind_of_ok (onTable_eq_ok.mpr ⟨_, hfind, rfl⟩)).trans ?_
  refine (Exec.bind_of_ok (t := w) (a := w) rfl).trans ?_
  rw [hid, Exec.need_some_bind, loginAsWith, Exec.bind_of_ok hget]
  refine (Exec.bind_of_ok ((updateSession_eq_ok (u := ())).mpr ⟨session, hv, rfl⟩)).trans ?_
  exact hcalls spawn

/-- **The calls of `packet_handle_login`.** -/
theorem packetHandleLogin_calls (hcache : w.cache = []) (hsession : w.sessions.get s = some session)
    (h : packetHandleLogin defs fuel packet s w = .ok (r, w')) :
    accountOf w packet = none ∧ r = none ∧
        w' = { w with packetErrno := invalidAwaitingConnection } ∨
      (∃ id, accountOf w packet = some id ∧ findById id w.playerdata = none ∧
        r = some (.failure packet.id) ∧ w' = w.setSession s { session with player := none }) ∨
      ∃ id doc player m map v w₁, LoginCalls defs packet s session w id doc player m map v w₁ := by
  simp only [packetHandleLogin, Exec.bind_eq_ok, Exec.need_eq_ok, onTable_eq_ok] at h
  obtain ⟨code, _, ⟨hcode, rfl⟩, found, _, ⟨t, hfind, rfl⟩, h⟩ := h
  obtain ⟨rfl, ⟨hlookup, rfl⟩ | ⟨c, conn, hlookup, hconn, rfl⟩⟩ := AwaitingTable.find_cases hfind
  · simp only [Exec.bind_eq_ok, Exec.modify_eq_ok, Exec.pure_eq_ok] at h
    obtain ⟨_, _, rfl, rfl, rfl⟩ := h
    exact Or.inl ⟨by simp [accountOf, hcode, hlookup], rfl, rfl⟩
  · simp only [Exec.bind_eq_ok, Exec.get_eq_ok, Exec.need_eq_ok, loginAs, updateSession_eq_ok] at h
    obtain ⟨_, _, ⟨rfl, rfl⟩, id, _, ⟨hid, rfl⟩, found, v, hget, _, _, ⟨session', hsession', rfl⟩,
      h⟩ := h
    have hid' : w.table.ids conn.id = some id := hid
    have haccount : accountOf w packet = some id := by
      simpa [accountOf, hcode, hlookup, hconn] using hid'
    have hget' : dbPlayerGetPlayer defs id w = .ok (found, v) := hget
    rcases dbPlayerGetPlayer_found hcache hget' with ⟨hnone, rfl, rfl⟩ |
      ⟨doc, player, hdoc, rfl, hreads, hpid⟩
    · obtain rfl := Option.some.inj (hsession.symm.trans hsession')
      obtain ⟨rfl, rfl⟩ := Exec.pure_eq_ok.mp h
      exact Or.inr (Or.inl ⟨id, haccount, hnone, rfl, rfl⟩)
    · have hv := hreads.session_get hsession
      obtain rfl := Option.some.inj (hv.symm.trans hsession')
      -- the call comes to the spawn, so the player has a map and the token was removed
      simp only [loginPlayer, Exec.bind_eq_ok, updatePlayer_eq_ok, updateSession_eq_ok,
        onTable_eq_ok, derefPlayer_eq_ok, Exec.need_eq_ok, derefMap_eq_ok] at h
      obtain ⟨_, _, ⟨player', hp', rfl⟩, _, _, ⟨_, -, rfl⟩, _, _, ⟨t, hremove, rfl⟩, player₁, _,
        ⟨hp₁, rfl⟩, m, _, ⟨hm, rfl⟩, map, _, ⟨hmap, rfl⟩, -⟩ := h
      obtain rfl := Option.some.inj (hreads.get_eq.symm.trans hp')
      have hset := Heap.get_set_self { player with session := some s } hreads.get_eq
      obtain rfl := Option.some.inj (hset.symm.trans hp₁)
      exact Or.inr (Or.inr ⟨id, doc, player, m, map, v, _, loginCalls_boarded hsession hcode hlookup
        hconn hid' hdoc hget' hreads hpid hm hmap hremove⟩)

/-- **`packet_handle_login`** ends in one of three ways. -/
theorem packetHandleLogin_ends (hcache : w.cache = []) (hsession : w.sessions.get s = some session)
    (h : packetHandleLogin defs fuel packet s w = .ok (r, w')) :
    LoginEnds defs fuel packet s session w r w' := by
  rcases packetHandleLogin_calls hcache hsession h with ⟨hnone, rfl, rfl⟩ |
    ⟨id, haccount, hnone, rfl, rfl⟩ | ⟨id, doc, player, m, map, v, w₁, hcalls⟩
  · exact .unknown hnone
  · exact .noRecord haccount hnone
  · rw [← packetHandleLoginWith_eq, hcalls.calls, Exec.bind_eq_ok] at h
    obtain ⟨n, w₂, hspawn, hreply⟩ := h
    rw [loginReply, if_neg (mapSpawnPlayer_ne hspawn), Exec.pure_eq_ok] at hreply
    obtain ⟨rfl, rfl⟩ := hreply
    exact .spawned hcalls.account_eq hcalls.record_eq hcalls.get_eq hcalls.reads hcalls.tiles_eq
      hcalls.enters hspawn

/-- With valid records the player is spawned where it is, on a map that is in memory. -/
theorem Enters.onMap {id : CString} {player : Player} {m : ℕ} {map : Map} {v w₁ : World}
    {doc : Document} (hw : Sound defs w) (hdata : ValidRecords defs w.playerdata)
    (hdoc : findById id w.playerdata = some doc)
    (hget : dbPlayerGetPlayer defs id w = .ok (some w.players.next, v))
    (hreads : Reads defs w w.players.next player v) (htiles : w₁.tiles = v.tiles)
    (h : Enters defs w s session id player m map w₁) :
    ∃ i base, map.id = (i : ℕ) ∧ w₁.tiles i = some m ∧ defs.loaders[i]? = some base ∧
      mapCheckBounds base player.x player.y = true := by
  rcases dbPlayerGetPlayer_valid hw.cache hdata hget with ⟨hnone, -⟩ |
    ⟨_, player, i, base, m', -, -, hreads', -, hm, htile, hbase, hbounds⟩
  · exact absurd (hdoc.symm.trans hnone) (Option.some_ne_none _)
  · obtain rfl := Option.some.inj (hreads.get_eq.symm.trans hreads'.get_eq)
    obtain rfl := Option.some.inj (hm.symm.trans h.map_eq)
    have htile₁ := htiles ▸ htile
    exact ⟨i, base, (h.kept.sound hw).id_of_tile htile₁ h.get_eq, htile₁, hbase, hbounds⟩

/-- The state `w₁` in which a login calls `map_spawn_player`, for the player `p` read from
the valid record of the account `id`. -/
structure Boards (defs : MapDefs) (w : World) (s : ℕ) (session : Session) (id : CString)
    (player : Player) (i m : ℕ) (base : Map) (w₁ : World) : Prop where
  kept : Kept defs w w₁
  scene_eq : w₁.scene =
    (w.scene.setPlayer w.players.next { player with session := some s }).setSession s
      { session with player := some w.players.next, state := .roaming }
  refs_eq : player.refs = 1
  id_eq : player.id = some id
  map_eq : player.map = some m
  tile_eq : w₁.tiles i = some m
  base_eq : defs.loaders[i]? = some base
  bounds : mapCheckBounds base player.x player.y = true

/-- The three ends of a login when the records are valid. -/
inductive LoginResult (defs : MapDefs) (fuel : ℕ) (packet : Packet) (s : ℕ) (session : Session)
    (w : World) : Option ServerPacket → World → Prop
  /-- The code is not in the table. -/
  | unknown :
      accountOf w packet = none →
      LoginResult defs fuel packet s session w none
        { w with packetErrno := invalidAwaitingConnection }
  /-- There is no record. -/
  | noRecord {id : CString} :
      accountOf w packet = some id → findById id w.playerdata = none →
      LoginResult defs fuel packet s session w (some (.failure packet.id))
        (w.setSession s { session with player := none })
  /-- The player is spawned. -/
  | spawned {id : CString} {player : Player} {i m : ℕ} {base : Map} {w₁ w₂ w' : World} {n : ℤ}
      {doc : Document} {r : Option ServerPacket} :
      accountOf w packet = some id → findById id w.playerdata = some doc →
      Boards defs w s session id player i m base w₁ →
      mapSpawnPlayer defs fuel i w.players.next player.x player.y 1 w₁ = .ok (n, w₂) →
      loginReply defs packet s n w₂ = .ok (r, w') →
      LoginResult defs fuel packet s session w r w'

/-- **`packet_handle_login`** with valid records. -/
theorem packetHandleLogin_eq_ok (hw : Sound defs w) (hdata : ValidRecords defs w.playerdata)
    (hsession : w.sessions.get s = some session)
    (h : packetHandleLogin defs fuel packet s w = .ok (r, w')) :
    LoginResult defs fuel packet s session w r w' := by
  cases packetHandleLogin_ends hw.cache hsession h with
  | unknown hnone => exact .unknown hnone
  | noRecord haccount hnone => exact .noRecord haccount hnone
  | spawned haccount hdoc hget hreads htiles henters hspawn =>
    obtain ⟨i, base, hid, htile, hbase, hbounds⟩ :=
      henters.onMap hw hdata hdoc hget hreads htiles
    rw [hid] at hspawn
    exact .spawned haccount hdoc ⟨henters.kept, henters.scene_eq, henters.refs_eq, henters.id_eq,
      henters.map_eq, htile, hbase, hbounds⟩ hspawn
      (by rw [loginReply, if_neg (mapSpawnPlayer_ne hspawn)]; rfl)

/-! ## The first login of a server -/

/-- A record on the first map of the repository. -/
def firstRecord : Document where
  fields := [("id", .utf8 [97]), ("map", .int32 0), ("x", .int32 1), ("y", .int32 1),
    ("max_move", .int32 1)]
  nodup := by decide

/-- A login packet with a code of one digit. -/
def firstLogin : Packet where
  opcode := loginPacket
  id := 7
  length := 2
  data := [49, 0]
  length_le := by decide

/-- The server when a client has connected. -/
def afterConnect : World :=
  { boot [firstRecord] with sessions := Heap.empty.alloc ⟨3, .disabled, none⟩ }

/-- The server when its code has arrived. -/
def afterToken : World :=
  afterConnect.setTable
    ⟨Function.update (fun _ => none) 0 (some [97]),
      Function.update (fun _ => none) 0 (some ⟨0, AwaitingTable.timeToLive⟩), [([49], 0)], 1⟩

theorem validRecords_firstRecord : ValidRecords mapLoaders [firstRecord] := by
  intro doc hdoc
  rw [List.mem_singleton.mp hdoc]
  exact ⟨0, mapDefTestTile, 1, 1, by decide, by decide, by decide, rfl, by decide⟩

theorem step_afterConnect : Step mapLoaders (boot [firstRecord]) (.connect 3) afterConnect :=
  .connect (fun _ _ h => absurd h.symm (Option.some_ne_none _)) (s := 0) rfl

theorem step_afterToken : Step mapLoaders afterConnect (.token [49] [97] 0) afterToken :=
  .token (show onTable _ _ = .ok (true, _) from rfl)

/-- The login succeeds, and the player stands on a cell that is walkable. -/
theorem eventLoop_firstLogin :
    ∃ w map player, eventLoop mapLoaders 1 0 (some firstLogin) afterToken = .ok ((), w) ∧
      w.sessions.get 0 = some ⟨3, .roaming, some 0⟩ ∧ w.maps.get 0 = some map ∧
      map.players = [0] ∧ w.players.get 0 = some player ∧ player.map = some 0 ∧
      mapCoordIsWalkable map player.x player.y = some true ∧ w.packetErrno = 0 := by
  have hrun : Exec.value (do
      eventLoop mapLoaders 1 0 (some firstLogin)
      let w ← Exec.get
      let map ← derefMap 0
      let player ← derefPlayer 0
      pure (decide (w.sessions.get 0 = some ⟨3, .roaming, some 0⟩ ∧ map.players = [0] ∧
        player.map = some 0 ∧ mapCoordIsWalkable map player.x player.y = some true ∧
        w.packetErrno = 0)))
      afterToken = some true := by
    decide +kernel
  obtain ⟨_, hrun⟩ := Exec.value_eq_some.mp hrun
  simp only [Exec.bind_eq_ok, Exec.get_eq_ok, derefMap_eq_ok, derefPlayer_eq_ok, Exec.pure_eq_ok,
    decide_eq_true_iff] at hrun
  obtain ⟨_, w, hloop, _, _, ⟨rfl, rfl⟩, map, _, ⟨hmap, rfl⟩, player, _, ⟨hplayer, rfl⟩,
    ⟨hs, hplayers, hm, hwalkable, herrno⟩, -⟩ := hrun
  exact ⟨w, map, player, hloop, hs, hmap, hplayers, hplayer, hm, hwalkable, herrno⟩

/-! ## Two clients and a portal -/

/-- A record next to the portal of the first map. -/
def gateRecord : Document where
  fields := [("id", .utf8 [97]), ("map", .int32 0), ("x", .int32 31), ("y", .int32 4),
    ("max_move", .int32 1)]
  nodup := by decide

/-- A record on the second map. -/
def farRecord : Document where
  fields := [("id", .utf8 [98]), ("map", .int32 1), ("x", .int32 1), ("y", .int32 1),
    ("max_move", .int32 1)]
  nodup := by decide

/-- A login packet with another code. -/
def secondLogin : Packet where
  opcode := loginPacket
  id := 8
  length := 2
  data := [50, 0]
  length_le := by decide

/-- A move to the portal of the first map. -/
def stepOnPortal : Packet where
  opcode := movePacket
  id := 9
  length := 8
  data := [31, 0, 0, 0, 5, 0, 0, 0, 0]
  length_le := by decide

/-- The server when two clients have connected. -/
def afterConnects (records : List Document) : World :=
  { boot records with
    sessions := (Heap.empty.alloc ⟨3, .disabled, none⟩).alloc ⟨4, .disabled, none⟩ }

/-- The server when two codes have arrived, one of them for the account `id`. -/
def twoTokens (records : List Document) (id : CString) : World :=
  (afterConnects records).setTable
    ⟨Function.update (Function.update (fun _ => none) 0 (some [97])) 1 (some id),
      Function.update (Function.update (fun _ => none) 0
        (some ⟨0, AwaitingTable.timeToLive⟩)) 1 (some ⟨1, AwaitingTable.timeToLive⟩),
      [([50], 1), ([49], 0)], 2⟩

/-- Nothing that is forbidden on maps has happened before the first login. -/
theorem trace_twoTokens (guard : World → Request → Prop)
    (hempty : ∀ w a, w.maps = Heap.empty → guard w a) (records : List Document) (id : CString) :
    ∃ v₁ v₂ v₃, Trace (Guarded (Step mapLoaders) guard) (boot records)
      [(.connect 3, v₁), (.connect 4, v₂), (.token [49] [97] 0, v₃),
        (.token [50] id 0, twoTokens records id)] (twoTokens records id) := by
  have hconnect : Step mapLoaders (boot records) (.connect 3)
      { boot records with sessions := Heap.empty.alloc ⟨3, .disabled, none⟩ } :=
    .connect (fun _ _ h => absurd h.symm (Option.some_ne_none _)) (s := 0) rfl
  have hconnect' : Step mapLoaders { boot records with
      sessions := Heap.empty.alloc ⟨3, .disabled, none⟩ } (.connect 4) (afterConnects records) := by
    refine .connect (fun s session hs => ?_) (s := 1) rfl
    rcases Heap.get_alloc_eq_some hs with ⟨-, rfl⟩ | ⟨-, hold⟩
    · decide
    · exact absurd hold.symm (Option.some_ne_none _)
  have htoken : Step mapLoaders (afterConnects records) (.token [49] [97] 0)
      ((afterConnects records).setTable afterToken.table) :=
    .token (show onTable _ _ = .ok (true, _) from rfl)
  have htoken' : Step mapLoaders ((afterConnects records).setTable afterToken.table)
      (.token [50] id 0) (twoTokens records id) :=
    .token (show onTable _ _ = .ok (true, _) from rfl)
  exact ⟨_, _, _, (((Trace.nil.snoc ⟨hconnect, hempty _ _ rfl⟩).snoc
    ⟨hconnect', hempty _ _ rfl⟩).snoc ⟨htoken, hempty _ _ rfl⟩).snoc ⟨htoken', hempty _ _ rfl⟩⟩

/-- The server when both players are on the second map. -/
structure BothArrived (w : World) : Prop where
  first_session : w.sessions.get 0 = some ⟨3, .roaming, some 0⟩
  second_session : w.sessions.get 1 = some ⟨4, .roaming, some 1⟩
  first_player : w.players.get 0 = some ⟨0, 5, 0, 1, 2, some 1, some 0, none, some [97]⟩
  second_player : w.players.get 1 = some ⟨1, 1, 0, 1, 2, some 1, some 1, none, some [98]⟩
  map : ∃ map, w.maps.get 1 = some map ∧ map.id = 1 ∧ map.players = [0, 1] ∧
    mapCheckBounds map 0 5 = true ∧ mapCoordIsWalkable map 0 5 = some false
  written : (w.out.filter fun e => e.1 = 4).length = 5

theorem validRecords_gateRecord : ValidRecords mapLoaders [gateRecord, farRecord] := by
  intro doc hdoc
  rcases List.mem_cons.mp hdoc with rfl | hdoc
  · exact ⟨0, mapDefTestTile, 31, 4, by decide, by decide, by decide, rfl, by decide⟩
  · rw [List.mem_singleton.mp hdoc]
    exact ⟨1, mapDefTestTile2, 1, 1, by decide, by decide, by decide, rfl, by decide⟩

/-- Both clients log in, and the first one walks through the portal to the map of the other. -/
theorem run_throughPortal : ∃ w₁ w₂ w,
    eventLoop mapLoaders 1 0 (some firstLogin) (twoTokens [gateRecord, farRecord] [98])
      = .ok ((), w₁) ∧
    eventLoop mapLoaders 1 1 (some secondLogin) w₁ = .ok ((), w₂) ∧
    eventLoop mapLoaders 1 0 (some stepOnPortal) w₂ = .ok ((), w) ∧
    (w₁.sessions.get 0 = some ⟨3, .roaming, some 0⟩ ∧ accountOf w₁ secondLogin = some [98] ∧
      w₁.players.next = 1 ∧ (w₁.players.get 0).map Player.id = some (some [97])) ∧
    BothArrived w := by
  have hrun : Exec.value (do
      eventLoop mapLoaders 1 0 (some firstLogin)
      let w₁ ← Exec.get
      eventLoop mapLoaders 1 1 (some secondLogin)
      let w₂ ← Exec.get
      eventLoop mapLoaders 1 0 (some stepOnPortal)
      let w ← Exec.get
      let map ← derefMap 1
      pure (decide (
        (w₁.sessions.get 0 = some ⟨3, .roaming, some 0⟩ ∧ accountOf w₁ secondLogin = some [98] ∧
          w₁.players.next = 1 ∧ (w₁.players.get 0).map Player.id = some (some [97])) ∧
        w.sessions.get 0 = some ⟨3, .roaming, some 0⟩ ∧
        w.sessions.get 1 = some ⟨4, .roaming, some 1⟩ ∧
        w.players.get 0 = some ⟨0, 5, 0, 1, 2, some 1, some 0, none, some [97]⟩ ∧
        w.players.get 1 = some ⟨1, 1, 0, 1, 2, some 1, some 1, none, some [98]⟩ ∧
        (map.id = 1 ∧ map.players = [0, 1] ∧ mapCheckBounds map 0 5 = true ∧
          mapCoordIsWalkable map 0 5 = some false) ∧
        (w.out.filter fun e => e.1 = 4).length = 5)))
      (twoTokens [gateRecord, farRecord] [98]) = some true := by
    decide +kernel
  obtain ⟨_, hrun⟩ := Exec.value_eq_some.mp hrun
  simp only [Exec.bind_eq_ok, Exec.get_eq_ok, derefMap_eq_ok, Exec.pure_eq_ok,
    decide_eq_true_iff] at hrun
  obtain ⟨_, w₁, hfirst, _, _, ⟨rfl, rfl⟩, _, w₂, hsecond, _, _, ⟨rfl, rfl⟩, _, w, hmove, _, _,
    ⟨rfl, rfl⟩, map, _, ⟨hmap, rfl⟩, ⟨hbetween, hs, hs', hp, hp', hat, hwritten⟩, -⟩ := hrun
  exact ⟨w₁, w₂, w, hfirst, hsecond, hmove, hbetween, hs, hs', hp, hp', ⟨map, hmap, hat⟩, hwritten⟩

/-- The run, if nothing in it is forbidden. -/
theorem trace_throughPortal (guard : World → Request → Prop)
    (hempty : ∀ w a, w.maps = Heap.empty → guard w a)
    (hlogin : ∀ w, accountOf w secondLogin = some [98] →
      (∀ q player, w.players.get q = some player → player.id = some [97]) →
      guard w (.packet 1 secondLogin))
    (hmove : ∀ w, guard w (.packet 0 stepOnPortal)) :
    ∃ l w₁ w, Trace (Guarded (Step mapLoaders) guard) (boot [gateRecord, farRecord]) l w ∧
      l.map Prod.fst = [.connect 3, .connect 4, .token [49] [97] 0, .token [50] [98] 0,
        .packet 0 firstLogin, .packet 1 secondLogin, .packet 0 stepOnPortal] ∧
      (.packet 0 firstLogin, w₁) ∈ l ∧ w₁.sessions.get 0 = some ⟨3, .roaming, some 0⟩ ∧
      BothArrived w := by
  obtain ⟨v₁, v₂, v₃, htokens⟩ := trace_twoTokens guard hempty [gateRecord, farRecord] [98]
  obtain ⟨w₁, w₂, w, hfirst, hsecond, hthird, ⟨hs, haccount, hnext, hid⟩, harrived⟩ :=
    run_throughPortal
  have honly : ∀ q player, w₁.players.get q = some player → player.id = some [97] := by
    intro q player hq
    have hlt : q < 1 := hnext ▸ Heap.lt_next hq
    obtain rfl : q = 0 := by omega
    rw [hq] at hid
    exact Option.some.inj hid
  refine ⟨_, w₁, w, ((htokens.snoc ⟨.packet hfirst, hempty _ _ rfl⟩).snoc
    ⟨.packet hsecond, hlogin _ haccount honly⟩).snoc ⟨.packet hthird, hmove _⟩, rfl, ?_, hs,
    harrived⟩
  simp

end World
end MmoBackend
