import MmoBackend.Library.Reorder
import MmoBackend.World.InspectPlayer
import MmoBackend.World.Login
import MmoBackend.World.OnePlayer
import MmoBackend.World.PlainMove
import MmoBackend.World.Sockets

/-!
# Maps that know nothing of each other

Most packets of players that roam concern one map.  A move to a cell without a portal writes
two bits of this map and the position of one player on it, and only the clients on this map
hear of it.  A packet that the state of the session does not allow is answered to its client
and does nothing else.  Such packets are `Local`.

The session threads run in any order, and `maps_independent` says how little this matters for
local packets: as long as each map gets its own in the same order, every order of all of them
is possible, and it leads to the same state and the same bytes on every socket.  So a server
could keep each of its maps in a process of its own.

What a local packet does is a `Patch` of one map and one player, which depends on them, the
sockets of the players and the error number only.
-/

namespace MmoBackend

open Authentication Communication Exec Maps Player

namespace World

open Scene

/-- What a packet does: it writes a map, a player and to the sockets. -/
structure Patch where
  map : Map
  player : Player
  out : List (ℕ × Sent)

/-- The state with the map `m` and the player `p` written. -/
def Patch.apply (c : Patch) (m p : ℕ) (w : World) : World :=
  ((w.setMap m c.map).setPlayer p c.player).emit c.out

instance (player : Player) (map : Map) (x y : ℤ) : Decidable (Allowed player map x y) :=
  inferInstanceAs (Decidable (_ ∧ _ ∧ _))

/-- What a call of `player_move` on a cell without a portal returns and does. -/
def movePatch (s : Scene) (player : Player) (map : Map) (k : CString) (x y : ℤ) : Bool × Patch :=
  if Allowed player map x y then
    if mapCheckBounds map player.x player.y then
      (true, ⟨steppedMap map player x y, { player with x := x, y := y },
        s.copies map.players (.updatePosition k x y)⟩)
    else (false, ⟨switchCoord map x y true, player, []⟩)
  else (false, ⟨map, player, []⟩)

variable {defs : MapDefs} {w w' v : World} {p m s fuel : ℕ} {k : CString} {player : Player}
  {map : Map} {x y : ℤ} {packet : Packet} {session : Session} {a : Request}

namespace Standing

theorem setPlayer_self (h : Standing defs w p player m map) (map' : Map) :
    (w.setMap m map').setPlayer p player = w.setMap m map' := by
  have hp : w.players.set p player = w.players := Heap.set_eq_self h.player_eq
  simp only [setMap, setPlayer, hp]

/-- The map and the player as they are. -/
theorem apply_self (h : Standing defs w p player m map) (l : List (ℕ × Sent)) :
    Patch.apply ⟨map, player, l⟩ m p w = w.emit l := by
  have hm : w.setMap m map = w := by rw [setMap, Heap.set_eq_self h.get_eq]
  rw [Patch.apply, h.setPlayer_self, hm]

/-- The clients are reached as before. -/
theorem told_eq (h : Standing defs w p player m map) (hk : player.id = some k) :
    told w p player m map x y = w.scene.copies map.players (.updatePosition k x y) := by
  have hmap : (w.setMap m (steppedMap map player x y)).scene = w.scene :=
    scene_setMap_of_players h.get_eq rfl
  have hp : (w.setMap m (steppedMap map player x y)).players.get p = some player := h.player_eq
  have hp' : w.scene.player p = some player := h.player_eq
  have hfd : (World.stepped w p player m map x y).scene.fdOf = w.scene.fdOf := by
    rw [World.stepped, scene_setPlayer hp, hmap]
    exact fdOf_setPlayer hp' rfl
  rw [told, announcements, hk]
  exact copies_congr hfd _ _

/-- A player that is not on its map takes the cell and stays. -/
theorem sticks (h : Standing defs w p player m map)
    (hout : ¬mapCheckBounds map player.x player.y = true) (hallowed : Allowed player map x y)
    (fuel : ℕ) :
    playerMove defs fuel p x y .zero w = .ok (false, w.setMap m (switchCoord map x y true)) := by
  obtain ⟨hvalid, hbounds, hwalkable⟩ := hallowed
  have hget : (w.setMap m (switchCoord map x y true)).maps.get m
      = some (switchCoord map x y true) := Heap.get_set_self _ h.get_eq
  have hp : (w.setMap m (switchCoord map x y true)).players.get p = some player := h.player_eq
  have hmiss : mapToggleCoord (switchCoord map x y true) player.x player.y false
      = some (false, switchCoord map x y true) := by
    rcases mapToggleCoord_spec (wellShaped_switchCoord h.shaped x y true) player.x player.y false
      with ⟨htoggle, -⟩ | ⟨htoggle, -⟩
    · rcases mapToggleCoord_eq_some htoggle with ⟨hfalse, -⟩ | ⟨-, -, hin, -⟩
      · exact absurd hfalse (by simp)
      · exact absurd hin hout
    · exact htoggle
  have hset : (w.setMap m (switchCoord map x y true)).setMap m (switchCoord map x y true)
      = w.setMap m (switchCoord map x y true) := by
    rw [setMap, setMap, Heap.set_set]
  have henable : enableOldCoord p player.map (w.setMap m (switchCoord map x y true))
      = .ok (false, w.setMap m (switchCoord map x y true)) := by
    rw [h.map_eq, enableOldCoord, bind_of_ok (derefPlayer_eq_ok.mpr ⟨hp, rfl⟩),
      toggleCoord_run hget hmiss, hset]
  rw [playerMove, playerMoveWith, bind_of_ok (derefPlayer_eq_ok.mpr ⟨h.player_eq, rfl⟩)]
  refine (bind_of_ok (t := w) rfl).trans ?_
  rw [bind_of_ok h.checks, if_pos hvalid, moveWithin,
    bind_of_ok (derefPlayer_eq_ok.mpr ⟨h.player_eq, rfl⟩), h.map_eq, need_some_bind,
    bind_of_ok (derefMap_eq_ok.mpr ⟨h.get_eq, rfl⟩), if_pos hbounds,
    bind_of_ok (h.disables hbounds hwalkable)]
  have hmoveFrom : moveFrom (mapEventActivate defs (mapSpawnPlayer defs fuel)) player.map p x y
      .zero (w.setMap m (switchCoord map x y true))
        = .ok (false, w.setMap m (switchCoord map x y true)) := bind_of_ok henable
  exact h.map_eq ▸ hmoveFrom

/-- **A call of `player_move`** on a cell without a portal. -/
theorem playerMove_eq (h : Standing defs w p player m map) (hk : player.id = some k)
    (hquiet : NoPortal map x y) (fuel : ℕ) :
    playerMove defs fuel p x y .zero w
      = .ok ((movePatch w.scene player map k x y).1,
          (movePatch w.scene player map k x y).2.apply m p w) := by
  by_cases hallowed : Allowed player map x y
  · rw [movePatch, if_pos hallowed]
    by_cases hin : mapCheckBounds map player.x player.y = true
    · rw [if_pos hin, h.moves_told hin hquiet hallowed, h.told_eq hk]
      rfl
    · rw [if_neg hin, h.sticks hin hallowed, Patch.apply, h.setPlayer_self, emit_nil]
  · rw [movePatch, if_neg hallowed, h.stays hallowed, h.apply_self, emit_nil]

end Standing

/-! ## Packets that concern one map -/

/-- Nothing is wrong, or there is a text for it. -/
def Reportable (errno : ℤ) : Prop := errno ≠ 0 → ∃ error, packetTemplateError errno = some error

theorem reportErrno_run {fd : ℕ} (h : Reportable w.packetErrno) :
    reportErrno fd w = .ok ((), w.emit (errorReport fd w.packetErrno)) := by
  rw [reportErrno, get_bind, errorReport]
  by_cases hzero : w.packetErrno = 0
  · rw [if_pos hzero, if_pos hzero, emit_nil]
    rfl
  · obtain ⟨error, herror⟩ := h hzero
    rw [if_neg hzero, if_neg hzero, eventLoopError, herror, need_some_bind, packetWrite,
      modify_bind, wsClose]
    show Except.ok ((), _) = _
    simp [emit, write]

theorem reportable_of_ok {fd : ℕ} (h : reportErrno fd w = .ok ((), w')) :
    Reportable w.packetErrno := by
  intro hzero
  simp only [reportErrno, eventLoopError, Exec.bind_eq_ok, get_eq_ok, ite_eq_ok, need_eq_ok] at h
  obtain ⟨_, _, ⟨rfl, rfl⟩, ⟨h, -⟩ | ⟨-, error, _, ⟨herror, -⟩, -⟩⟩ := h
  · exact absurd h hzero
  · exact ⟨error, herror⟩

/-- An answer is written. -/
theorem respond_run {moved : Bool} {response : ServerPacket}
    (hs : w.sessions.get s = some session) :
    respond s (if moved then none else some response) w
      = .ok ((), w.emit (if moved then [] else [(session.fd, .packet response)])) := by
  cases moved with
  | true => exact congrArg (fun v => Except.ok ((), v)) (emit_nil w).symm
  | false => exact bind_of_ok (derefSession_eq_ok.mpr ⟨hs, rfl⟩)

/-- A move request calls `player_move`. -/
theorem packetHandleMove_run {moved : Bool} (hs : w.sessions.get s = some session)
    (hp : session.player = some p) (hx : intAt packet.data 0 = some x)
    (hy : intAt packet.data 4 = some y)
    (hmove : playerMove defs fuel p x y .zero w = .ok (moved, v)) :
    packetHandleMove defs fuel packet s w
      = .ok (if moved then none else some (.failure packet.id), v) := by
  rw [packetHandleMove, hx, need_some_bind, hy, need_some_bind,
    bind_of_ok (derefSession_eq_ok.mpr ⟨hs, rfl⟩), hp, need_some_bind, bind_of_ok hmove]
  cases moved <;> rfl

/-- What a packet of a player that roams concerns: its session, the player and the map it is
on.  If the packet asks for a move, then to a cell without a portal. -/
structure Asks (defs : MapDefs) (w : World) (s : ℕ) (packet : Packet) (session : Session) (p : ℕ)
    (player : Player) (m : ℕ) (map : Map) (k : CString) : Prop
    extends Standing defs w p player m map where
  session_eq : w.sessions.get s = some session
  roams : session.state = .roaming
  player_of : session.player = some p
  session_of : player.session = some s
  id_eq : player.id = some k
  listed : p ∈ map.players
  opcode : packet.opcode ≠ inspectPlayerPacket
  quiet : packet.opcode = movePacket → ∀ x y, intAt packet.data 0 = some x →
    intAt packet.data 4 = some y → NoPortal map x y

/-- What a move request does. -/
def requestPatch (s : Scene) (errno : ℤ) (session : Session) (packet : Packet) (player : Player)
    (map : Map) (k : CString) (x y : ℤ) : Patch :=
  { (movePatch s player map k x y).2 with
    out := errorReport session.fd errno ++ (movePatch s player map k x y).2.out ++
      if (movePatch s player map k x y).1 then []
      else [(session.fd, .packet (.failure packet.id))] }

theorem Standing.emit (h : Standing defs w p player m map) (l : List (ℕ × Sent)) :
    Standing defs (w.emit l) p player m map :=
  ⟨(Kept.emit l).sound h.sound, h.locks, h.player_eq, h.map_eq, h.get_eq, h.shaped, h.tellable⟩

namespace Asks

theorem verify (h : Asks defs w s packet session p player m map k) :
    sessionVerifyPacket session packet = true ↔ packet.opcode = movePacket := by
  rw [sessionVerifyPacket, h.roams, decide_eq_true_iff, sessionValidPackets, List.mem_cons,
    List.mem_singleton]
  exact or_iff_left h.opcode

/-- **A packet that is not allowed** is answered. -/
theorem eventLoop_refused (h : Asks defs w s packet session p player m map k)
    (hop : packet.opcode ≠ movePacket) (fuel : ℕ) :
    eventLoop defs fuel s (some packet) w = .ok ((),
      Patch.apply ⟨map, player, [(session.fd, .packet (.badState packet.id))]⟩ m p w) := by
  have hverify : ¬sessionVerifyPacket session packet = true := fun hv => hop (h.verify.mp hv)
  rw [eventLoop, eventLoopWith, bind_of_ok (derefSession_eq_ok.mpr ⟨h.session_eq, rfl⟩),
    h.apply_self]
  refine (bind_of_ok (t := w) rfl).trans ?_
  rw [need_some_bind, if_neg hverify]
  rfl

/-- **A move request** is handled. -/
theorem eventLoop_move (h : Asks defs w s packet session p player m map k)
    (hop : packet.opcode = movePacket) (hx : intAt packet.data 0 = some x)
    (hy : intAt packet.data 4 = some y) (herrno : Reportable w.packetErrno) (fuel : ℕ) :
    eventLoop defs fuel s (some packet) w = .ok ((),
      (requestPatch w.scene w.packetErrno session packet player map k x y).apply m p w) := by
  -- the report of an old error number comes before anything else
  have hmove : playerMove defs fuel p x y .zero (w.emit (errorReport session.fd w.packetErrno))
      = .ok ((movePatch w.scene player map k x y).1,
          (movePatch w.scene player map k x y).2.apply m p
            (w.emit (errorReport session.fd w.packetErrno))) :=
    (h.toStanding.emit _).playerMove_eq h.id_eq (h.quiet hop x y hx hy) fuel
  have hs : ∀ c : Patch, (c.apply m p (w.emit (errorReport session.fd w.packetErrno))).sessions.get
      s = some session := fun _ => h.session_eq
  have hs₀ : (w.emit (errorReport session.fd w.packetErrno)).sessions.get s = some session :=
    h.session_eq
  rw [eventLoop, eventLoopWith, bind_of_ok (derefSession_eq_ok.mpr ⟨h.session_eq, rfl⟩)]
  refine (bind_of_ok (t := w) rfl).trans ?_
  rw [need_some_bind, if_pos (h.verify.mpr hop), handlePacketWith,
    bind_of_ok (reportErrno_run herrno), packetHandleRoute_move hop,
    bind_of_ok (packetHandleMove_run hs₀ h.player_of hx hy hmove), requestPatch]
  generalize movePatch w.scene player map k x y = r
  refine (respond_run (hs r.2)).trans ?_
  simp [Patch.apply, World.emit, setMap, setPlayer]

end Asks

/-! ## Patches of one map -/

/-- A patch keeps who is on the map and which clients they have, and only these are written
to. -/
structure Patch.Inside (c : Patch) (s : Scene) (player : Player) (map : Map) : Prop where
  players_eq : c.map.players = map.players
  map_eq : c.player.map = player.map
  session_eq : c.player.session = player.session
  heard : ∀ e ∈ c.out, ∃ q ∈ map.players, s.fdOf q = some e.1

theorem movePatch_congr {s s' : Scene} (h : s'.fdOf = s.fdOf) :
    movePatch s' player map k x y = movePatch s player map k x y := by
  simp only [movePatch, copies_congr h]

theorem movePatch_inside (s : Scene) :
    (movePatch s player map k x y).2.Inside s player map := by
  unfold movePatch
  split
  · split
    · exact ⟨rfl, rfl, rfl, fun e he => by
        obtain ⟨q, hq, hfd, -⟩ := mem_copies.mp he
        exact ⟨q, hq, hfd⟩⟩
    · exact ⟨rfl, rfl, rfl, by simp⟩
  · exact ⟨rfl, rfl, rfl, by simp⟩

namespace Asks

/-- The client is one of those on the map. -/
theorem fdOf_eq (h : Asks defs w s packet session p player m map k) :
    w.scene.fdOf p = some session.fd := by
  have hp : w.scene.player p = some player := h.player_eq
  have hs : w.scene.session s = some session := h.session_eq
  simp [fdOf, hp, h.session_of, hs]

theorem requestPatch_inside (h : Asks defs w s packet session p player m map k) (errno : ℤ) :
    (requestPatch w.scene errno session packet player map k x y).Inside w.scene player map := by
  have hpatch : (movePatch w.scene player map k x y).2.Inside w.scene player map :=
    movePatch_inside _
  refine ⟨hpatch.players_eq, hpatch.map_eq, hpatch.session_eq, fun e he => ?_⟩
  have hself : e.1 = session.fd → ∃ q ∈ map.players, w.scene.fdOf q = some e.1 :=
    fun hfd => ⟨p, h.listed, h.fdOf_eq.trans (congrArg some hfd.symm)⟩
  rw [requestPatch, List.append_assoc, List.mem_append, List.mem_append] at he
  rcases he with he | he | he
  · exact hself (fst_errorReport _ _ e he)
  · exact hpatch.heard e he
  · split at he
    · exact absurd he List.not_mem_nil
    · exact hself (by rw [List.mem_singleton.mp he])

/-- A move request that is handled has two coordinates, and the error number had a text. -/
theorem move_of_ok (h : Asks defs w s packet session p player m map k)
    (hop : packet.opcode = movePacket)
    (hloop : eventLoop defs fuel s (some packet) w = .ok ((), w')) :
    Reportable w.packetErrno ∧
      ∃ x y, intAt packet.data 0 = some x ∧ intAt packet.data 4 = some y := by
  simp only [eventLoop, eventLoopWith, reportBadPacket, Exec.bind_eq_ok, derefSession_eq_ok,
    need_eq_ok, pure_eq_ok] at hloop
  obtain ⟨_, _, ⟨hs, rfl⟩, _, _, ⟨-, rfl⟩, _, _, ⟨hpacket, rfl⟩, hloop⟩ := hloop
  obtain rfl := Option.some.inj (h.session_eq.symm.trans hs)
  obtain rfl := Option.some.inj hpacket
  rw [if_pos (h.verify.mpr hop), handlePacketWith] at hloop
  obtain ⟨_, v, hreport, hloop⟩ := Exec.bind_eq_ok.mp hloop
  refine ⟨reportable_of_ok hreport, ?_⟩
  obtain rfl := reportErrno_eq_ok hreport
  obtain ⟨r, _, hroute, -⟩ := Exec.bind_eq_ok.mp hloop
  rw [packetHandleRoute_move hop] at hroute
  have hs' : (w.emit (errorReport session.fd w.packetErrno)).sessions.get s = some session := hs
  obtain ⟨x, y, -, -, hx, hy, -, -⟩ := packetHandleMove_turn hs' hroute
  exact ⟨x, y, hx, hy⟩

/-- **What a packet does** is a patch, and wherever the packet finds the same things, it does
the same. -/
theorem patch (h : Asks defs w s packet session p player m map k)
    (hstep : Step defs w (.packet s packet) w') :
    ∃ c : Patch, c.Inside w.scene player map ∧ w' = c.apply m p w ∧
      ∀ v, Asks defs v s packet session p player m map k → v.scene.fdOf = w.scene.fdOf →
        v.packetErrno = w.packetErrno → Step defs v (.packet s packet) (c.apply m p v) := by
  obtain ⟨fuel, hloop⟩ : ∃ fuel, eventLoop defs fuel s (some packet) w = .ok ((), w') := by
    cases hstep with
    | packet hloop => exact ⟨_, hloop⟩
  by_cases hop : packet.opcode = movePacket
  · obtain ⟨herrno, x, y, hx, hy⟩ := h.move_of_ok hop hloop
    rw [h.eventLoop_move hop hx hy herrno] at hloop
    refine ⟨_, h.requestPatch_inside w.packetErrno,
      (Prod.mk.inj (Except.ok.inj hloop)).2.symm, fun v hv hfd hv' => ?_⟩
    have hsame : requestPatch v.scene v.packetErrno session packet player map k x y
        = requestPatch w.scene w.packetErrno session packet player map k x y := by
      rw [requestPatch, requestPatch, movePatch_congr hfd, hv']
    rw [← hsame]
    exact .packet (hv.eventLoop_move hop hx hy (hv' ▸ herrno) 0)
  · rw [h.eventLoop_refused hop] at hloop
    refine ⟨_, ⟨rfl, rfl, rfl, fun e he => ⟨p, h.listed, ?_⟩⟩,
      (Prod.mk.inj (Except.ok.inj hloop)).2.symm,
      fun v hv _ _ => .packet (hv.eventLoop_refused hop 0)⟩
    rw [h.fdOf_eq, List.mem_singleton.mp he]

end Asks

/-! ## The states of the server -/

/-- What is known of every state the server comes to. -/
structure Regular (defs : MapDefs) (w : World) : Prop where
  member : Member defs w
  locks : w.locks = []
  shapely : Shapely w
  fds : DistinctFds w

theorem Regular.step (hdefs : defs.WellShaped) (h : Regular defs w) (hstep : Step defs w a w') :
    Regular defs w' where
  member := (h.member.step hstep).1
  locks := hstep.writes.locks_eq.trans h.locks
  shapely := h.shapely.step hdefs h.member h.locks hstep
  fds := h.fds.step h.member hstep

theorem regular_run {playerdata : List Db.Document} {l : List (Request × World)}
    (hdefs : defs.WellShaped) (h : Trace (Step defs) (boot playerdata) l w) : Regular defs w :=
  Trace.invariant (I := Regular defs) (fun _ _ _ ht hstep => ht.step hdefs hstep)
    ⟨member_boot playerdata, rfl, fun _ _ hm => absurd hm.symm (Option.some_ne_none _),
      fun _ _ _ _ hs => absurd hs.symm (Option.some_ne_none _)⟩ h

/-- The map the player of a session is on. -/
def homeOf (w : World) (s : ℕ) : Option ℕ := do
  let session ← w.sessions.get s
  let p ← session.player
  let player ← w.players.get p
  player.map

/-- A packet of a session that roams, other than an inspection, and no move onto a portal. -/
structure Local (w : World) (s : ℕ) (packet : Packet) : Prop where
  roams : ∃ p, w.scene.RoamsWith s p
  opcode : packet.opcode ≠ inspectPlayerPacket
  quiet : packet.opcode = movePacket → ∀ m map, homeOf w s = some m → w.maps.get m = some map →
    ∀ x y, intAt packet.data 0 = some x → intAt packet.data 4 = some y → NoPortal map x y

theorem Asks.homeOf_eq (h : Asks defs w s packet session p player m map k) :
    homeOf w s = some m := by
  simp [homeOf, h.session_eq, h.player_of, h.player_eq, h.map_eq]

/-- **What a local packet concerns** is there. -/
theorem Regular.asks (h : Regular defs w) (hlocal : Local w s packet) :
    ∃ session p player m map k, Asks defs w s packet session p player m map k := by
  obtain ⟨p, hroams⟩ := hlocal.roams
  obtain ⟨hpeople, k, hsturdy⟩ := h.member.sturdy h.locks h.shapely hroams
  obtain ⟨player, m, map, hstanding⟩ := InOrder.standing ⟨hpeople, k, s, hsturdy⟩
  obtain ⟨player', m', k', hlisted, hid, hback⟩ := h.member.membership.present hroams
  obtain ⟨session, hs, hstate, hplayer⟩ := hroams
  obtain rfl := Option.some.inj (hstanding.player_eq.symm.trans hlisted.player_eq)
  obtain rfl := Option.some.inj (hstanding.map_eq.symm.trans hlisted.map_eq)
  have hmem := hlisted.mem_iff.mpr rfl
  rw [roster_eq hstanding.get_eq] at hmem
  have hs' : w.sessions.get s = some session := hs
  have hhome : homeOf w s = some m := by
    simp [homeOf, hs', hplayer, hstanding.player_eq, hstanding.map_eq]
  exact ⟨session, p, player, m, map, k', hstanding, hs, hstate, hplayer, hback, hid, hmem,
    hlocal.opcode, fun hop => hlocal.quiet hop m map hhome hstanding.get_eq⟩

/-- **A packet that finds the same things** in another state. -/
theorem Asks.transfer (h : Asks defs w s packet session p player m map k) (hv : Regular defs v)
    (hsessions : v.sessions = w.sessions) (hp : v.players.get p = some player)
    (hm : v.maps.get m = some map) : Asks defs v s packet session p player m map k := by
  have hs : v.sessions.get s = some session := hsessions ▸ h.session_eq
  have hhome : homeOf v s = some m := by
    simp [homeOf, hs, h.player_of, hp, h.map_eq]
  have hlocal : Local v s packet :=
    ⟨⟨p, session, hs, h.roams, h.player_of⟩, h.opcode, fun hop m' map' hm' hmap' => by
      obtain rfl := Option.some.inj (hhome.symm.trans hm')
      obtain rfl := Option.some.inj (hm.symm.trans hmap')
      exact h.quiet hop⟩
  obtain ⟨session', p', player', m', map', k', h'⟩ := hv.asks hlocal
  obtain rfl := Option.some.inj (hs.symm.trans h'.session_eq)
  obtain rfl := Option.some.inj (h.player_of.symm.trans h'.player_of)
  obtain rfl := Option.some.inj (hp.symm.trans h'.player_eq)
  obtain rfl := Option.some.inj (h.map_eq.symm.trans h'.map_eq)
  obtain rfl := Option.some.inj (hm.symm.trans h'.get_eq)
  obtain rfl := Option.some.inj (h.id_eq.symm.trans h'.id_eq)
  exact h'

/-! ## Packets for two maps -/

/-- Two states that differ in the order of what was written at most, and not in what was written
to any one socket. -/
structure Alike (w v : World) : Prop where
  veiled : v = veil w.packetErrno v.out w
  sent : ∀ fd, sentTo fd v = sentTo fd w

theorem Alike.trans {u : World} (h : Alike w v) (h' : Alike v u) : Alike w u where
  veiled := by
    rw [h'.veiled, h.veiled]
    rfl
  sent fd := (h'.sent fd).trans (h.sent fd)

/-- The part of an output that goes to one socket. -/
theorem sentTo_emit (fd : ℕ) (l : List (ℕ × Sent)) (w : World) :
    sentTo fd (w.emit l)
      = sentTo fd w ++ l.filterMap fun e => if e.1 = fd then some e.2 else none :=
  List.filterMap_append

section Two

variable {s' p' m' : ℕ} {player' : Player} {map' : Map} {k' : CString} {packet' : Packet}
  {session' : Session} {c c' : Patch} {t u : World}

/-- A patch keeps the clients of the players. -/
theorem Asks.fdOf_apply (h : Asks defs w s packet session p player m map k)
    (hc : c.Inside w.scene player map) : (c.apply m p w).scene.fdOf = w.scene.fdOf := by
  have hp : (w.setMap m c.map).players.get p = some player := h.player_eq
  have hp' : w.scene.player p = some player := h.player_eq
  rw [Patch.apply, scene_emit, scene_setPlayer hp, scene_setMap_of_players h.get_eq hc.players_eq]
  exact fdOf_setPlayer hp' hc.session_eq

/-- A patch keeps the maps of the players. -/
theorem Asks.homeOf_apply (h : Asks defs w s packet session p player m map k)
    (hc : c.Inside w.scene player map) : homeOf (c.apply m p w) = homeOf w := by
  have hmap : ∀ q, ((w.players.set p c.player).get q).bind World.Player.map
      = (w.players.get q).bind World.Player.map := by
    intro q
    by_cases hqp : q = p
    · subst hqp
      rw [Heap.get_set_self _ h.player_eq, h.player_eq]
      exact hc.map_eq
    · rw [Heap.get_set_of_ne _ hqp]
  funext s'
  show (w.sessions.get s').bind (fun session => session.player.bind fun q =>
    ((w.players.set p c.player).get q).bind World.Player.map) = _
  simp only [hmap]
  rfl

/-- Whoever is on a list has a client, and is on the map of the list. -/
theorem Regular.client (h : Regular defs w) {q : ℕ} (hm : w.maps.get m = some map)
    (hq : q ∈ map.players) : ∃ sid session player, w.sessions.get sid = some session ∧
      session.player = some q ∧ w.scene.fdOf q = some session.fd ∧
      w.players.get q = some player ∧ player.map = some m := by
  rw [← roster_eq hm] at hq
  obtain ⟨sid, hroams⟩ := h.member.membership.listed m q hq
  obtain ⟨player, m₁, _, hlisted, -, hback⟩ := h.member.membership.present hroams
  obtain ⟨session, hs, -, hplayer⟩ := hroams
  have hm₁ : m₁ = m := by
    by_contra hne
    exact hlisted.elsewhere m (Ne.symm hne) hq
  refine ⟨sid, session, player, hs, hplayer, ?_, hlisted.player_eq, hm₁ ▸ hlisted.map_eq⟩
  simp [fdOf, hlisted.player_eq, hback, hs]

/-- **Two maps** have no client in common. -/
theorem Regular.apart (h : Regular defs w) {q q' fd : ℕ} (hm : w.maps.get m = some map)
    (hm' : w.maps.get m' = some map') (hne : m ≠ m') (hq : q ∈ map.players)
    (hq' : q' ∈ map'.players) (hfd : w.scene.fdOf q = some fd) : w.scene.fdOf q' ≠ some fd := by
  intro hfd'
  obtain ⟨sid, session, player, hs, hback, hclient, hp, hhome⟩ := h.client hm hq
  obtain ⟨sid', session', player', hs', hback', hclient', hp', hhome'⟩ := h.client hm' hq'
  have heq : session.fd = session'.fd := by
    rw [← Option.some.inj (hfd.symm.trans hclient), ← Option.some.inj (hfd'.symm.trans hclient')]
  obtain rfl := h.fds sid sid' session session' hs hs' heq
  obtain rfl := Option.some.inj (hs.symm.trans hs')
  obtain rfl := Option.some.inj (hback.symm.trans hback')
  obtain rfl := Option.some.inj (hp.symm.trans hp')
  exact hne (Option.some.inj (hhome.symm.trans hhome'))

/-- Patches of two maps and two players, in either order. -/
theorem Patch.apply_comm (hm : m ≠ m') (hp : p ≠ p') :
    c.apply m p (c'.apply m' p' w) = veil w.packetErrno (w.out ++ c'.out ++ c.out)
      (c'.apply m' p' (c.apply m p w)) := by
  simp only [Patch.apply, emit, veil, setMap, setPlayer, Heap.set_comm _ hm, Heap.set_comm _ hp]

/-- Nobody hears of both. -/
theorem alike_apply_comm (h : Regular defs w) (hm : w.maps.get m = some map)
    (hm' : w.maps.get m' = some map') (hne : m ≠ m') (hp : p ≠ p')
    (hc : c.Inside w.scene player map) (hc' : c'.Inside w.scene player' map') :
    Alike (c'.apply m' p' (c.apply m p w)) (c.apply m p (c'.apply m' p' w)) := by
  refine ⟨Patch.apply_comm hne hp, fun fd => ?_⟩
  show List.filterMap _ (w.out ++ c'.out ++ c.out) = List.filterMap _ (w.out ++ c.out ++ c'.out)
  rw [List.append_assoc, List.append_assoc, List.filterMap_append, List.filterMap_append,
    List.filterMap_append, List.filterMap_append]
  congr 1
  by_cases hfd : ∃ q ∈ map.players, w.scene.fdOf q = some fd
  · -- then nothing of the other patch is for this socket
    obtain ⟨q, hq, hfd⟩ := hfd
    have hnone : c'.out.filterMap (fun e => if e.1 = fd then some e.2 else none) = [] := by
      refine List.filterMap_eq_nil_iff.mpr fun e he => if_neg fun heq => ?_
      obtain ⟨q', hq', hfd'⟩ := hc'.heard e he
      exact h.apart hm hm' hne hq hq' hfd (heq ▸ hfd')
    rw [hnone, List.nil_append, List.append_nil]
  · have hnone : c.out.filterMap (fun e => if e.1 = fd then some e.2 else none) = [] := by
      refine List.filterMap_eq_nil_iff.mpr fun e he => if_neg fun heq => hfd ?_
      obtain ⟨q, hq, hfd'⟩ := hc.heard e he
      exact ⟨q, hq, heq ▸ hfd'⟩
    rw [hnone, List.nil_append, List.append_nil]

end Two

/-! ## Any order -/

/-- The map a request is for. -/
def home (w : World) : Request → Option ℕ
  | .packet s _ => homeOf w s
  | _ => none

/-- The request is a local packet. -/
def LocalRequest (w : World) : Request → Prop
  | .packet s packet => Local w s packet
  | _ => False

theorem Asks.toLocal (h : Asks defs w s packet session p player m map k) : Local w s packet :=
  ⟨⟨p, session, h.session_eq, h.roams, h.player_of⟩, h.opcode, fun hop m' map' hm' hmap' => by
    obtain rfl := Option.some.inj (h.homeOf_eq.symm.trans hm')
    obtain rfl := Option.some.inj (h.get_eq.symm.trans hmap')
    exact h.quiet hop⟩

/-- A local step is a packet with what it concerns. -/
theorem Regular.packet_of (h : Regular defs w) (hstep : Guarded (Step defs) LocalRequest w a w') :
    ∃ s packet session p player m map k, a = .packet s packet ∧
      Asks defs w s packet session p player m map k ∧ Step defs w (.packet s packet) w' := by
  obtain ⟨hstep, hlocal⟩ := hstep
  cases a with
  | connect => exact absurd hlocal id
  | token => exact absurd hlocal id
  | packet s packet =>
    obtain ⟨session, p, player, m, map, k, hasks⟩ := h.asks hlocal
    exact ⟨s, packet, session, p, player, m, map, k, rfl, hasks, hstep⟩

/-- **Local steps for different maps** may change places. -/
theorem commutes_local (hdefs : defs.WellShaped) (w : World) :
    Commutes (Guarded (Step defs) LocalRequest) (home w)
      (fun v => Regular defs v ∧ homeOf v = homeOf w) Alike where
  keeps v a t hv hstep := by
    obtain ⟨s, packet, session, p, player, m, map, k, rfl, hasks, hpacket⟩ := hv.1.packet_of hstep
    obtain ⟨c, hc, rfl, -⟩ := hasks.patch hpacket
    exact ⟨hv.1.step hdefs hpacket, (hasks.homeOf_apply hc).trans hv.2⟩
  refl v _ := ⟨rfl, fun _ => rfl⟩
  trans _ _ _ h h' := h.trans h'
  follows v v' a t hv hv' hR hstep := by
    obtain ⟨s, packet, session, p, player, m, map, k, rfl, hasks, hpacket⟩ := hv.1.packet_of hstep
    obtain ⟨c, hc, rfl, hsame⟩ := hasks.patch hpacket
    have hasks' : Asks defs v' s packet session p player m map k := by
      refine hasks.transfer hv'.1 ?_ ?_ ?_ <;> rw [hR.veiled]
      · rfl
      · exact hasks.player_eq
      · exact hasks.get_eq
    have hstep' := hsame v' hasks' (by rw [hR.veiled]; rfl) (by rw [hR.veiled]; rfl)
    refine ⟨_, ⟨hstep', hasks'.toLocal⟩, ?_, fun fd => ?_⟩
    · rw [hR.veiled]
      rfl
    · rw [Patch.apply, Patch.apply, sentTo_emit, sentTo_emit]
      exact congrArg (· ++ _) (hR.sent fd)
  swaps v a b t u hv hab hstep hstep' := by
    obtain ⟨s, packet, session, p, player, m, map, k, rfl, hasks, hpacket⟩ := hv.1.packet_of hstep
    obtain ⟨c, hc, rfl, hsame⟩ := hasks.patch hpacket
    have ht := hv.1.step hdefs hpacket
    obtain ⟨s', packet', session', p', player', m', map', k', rfl, hasks', hpacket'⟩ :=
      ht.packet_of hstep'
    obtain ⟨c', hc', rfl, hsame'⟩ := hasks'.patch hpacket'
    have hfd := hasks.fdOf_apply hc
    have hne : m ≠ m' := by
      rintro rfl
      refine hab ?_
      show homeOf w s = homeOf w s'
      rw [← hv.2, hasks.homeOf_eq, ← hasks.homeOf_apply hc, hasks'.homeOf_eq]
    have hp : p ≠ p' := by
      rintro rfl
      have hplayer : (v.players.set p c.player).get p = some player' := hasks'.player_eq
      rw [Heap.get_set_self _ hasks.player_eq] at hplayer
      obtain rfl := Option.some.inj hplayer
      exact hne (Option.some.inj (hasks.map_eq.symm.trans (hc.map_eq.symm.trans hasks'.map_eq)))
    -- the second packet finds in front of the first one what it finds behind it
    have hother : Asks defs v s' packet' session' p' player' m' map' k' :=
      hasks'.transfer hv.1 rfl ((Heap.get_set_of_ne _ hp.symm).symm.trans hasks'.player_eq)
        ((Heap.get_set_of_ne _ hne.symm).symm.trans hasks'.get_eq)
    have hfirst := hsame' v hother hfd.symm rfl
    have hc'' : c'.Inside v.scene player' map' :=
      ⟨hc'.players_eq, hc'.map_eq, hc'.session_eq, hfd ▸ hc'.heard⟩
    have hthen : Asks defs (c'.apply m' p' v) s packet session p player m map k :=
      hasks.transfer (hv.1.step hdefs hfirst) rfl
        ((Heap.get_set_of_ne _ hp).trans hasks.player_eq)
        ((Heap.get_set_of_ne _ hne).trans hasks.get_eq)
    have hsecond := hsame _ hthen (hother.fdOf_apply hc'') rfl
    exact ⟨_, _, ⟨hfirst, hother.toLocal⟩, ⟨hsecond, hthen.toLocal⟩,
      alike_apply_comm hv.1 hasks.get_eq hother.get_eq hne hp hc hc''⟩

/-- **Maps are independent.**  Take a run of local packets from any state of the server, and
any list with the same packets for each map, in the same order.  The server can handle the
packets in the order of this list, too.  It ends in the same state, but for the order of what
it wrote, and to every socket it has written the same. -/
theorem maps_independent {playerdata : List Db.Document} {l₀ l : List (Request × World)}
    {l' : List Request} (hdefs : defs.WellShaped) (h₀ : Trace (Step defs) (boot playerdata) l₀ w)
    (h : Trace (Guarded (Step defs) LocalRequest) w l w')
    (hl : ∀ m, (l.map Prod.fst).filter (fun a => home w a = m)
      = l'.filter fun a => home w a = m) :
    ∃ l₁ v, l₁.map Prod.fst = l' ∧ Trace (Guarded (Step defs) LocalRequest) w l₁ v ∧
      v = { w' with out := v.out } ∧ ∀ fd, sentTo fd v = sentTo fd w' := by
  obtain ⟨l₁, v, hl₁, hrun, halike⟩ :=
    (commutes_local hdefs w).trace ⟨regular_run hdefs h₀, rfl⟩ h hl
  exact ⟨l₁, v, hl₁, hrun, halike.veiled, halike.sent⟩

/-! ## Two players on two maps -/

/-- A session that roams on a map without a portal on the cell (2, 1) may step there. -/
theorem local_stepEast (hs : w.sessions.get s = some session) (hstate : session.state = .roaming)
    (hplayer : session.player = some p) (hhome : homeOf w s = some m)
    (hquiet : ∀ map ∈ w.maps.get m, ∀ e ∈ map.events, e.x = 2 → e.y = 1 → e.func ≠ .changeMap) :
    Local w s stepEast where
  roams := ⟨p, session, hs, hstate, hplayer⟩
  opcode := by decide
  quiet _ m' map hm' hmap x y hx hy := by
    obtain rfl := Option.some.inj (hhome.symm.trans hm')
    obtain rfl := Option.some.inj (hx.symm.trans (rfl : intAt stepEast.data 0 = some 2))
    obtain rfl := Option.some.inj (hy.symm.trans (rfl : intAt stepEast.data 4 = some 1))
    exact hquiet map hmap

/-- Two clients log in, and each of them steps to the east. -/
theorem run_twoMaps : ∃ l₀ w w₁ w₂, Trace (Step mapLoaders) (boot [firstRecord, farRecord]) l₀ w ∧
    homeOf w 0 = some 0 ∧ homeOf w 1 = some 1 ∧
    Trace (Guarded (Step mapLoaders) LocalRequest) w
      [(.packet 0 stepEast, w₁), (.packet 1 stepEast, w₂)] w₂ := by
  obtain ⟨_, _, _, htokens⟩ := trace_twoTokens (fun _ _ => True) (fun _ _ _ => trivial)
    [firstRecord, farRecord] [98]
  have hrun : Exec.value (do
      eventLoop mapLoaders 1 0 (some firstLogin)
      eventLoop mapLoaders 1 1 (some secondLogin)
      let w ← Exec.get
      eventLoop mapLoaders 1 0 (some stepEast)
      let w₁ ← Exec.get
      eventLoop mapLoaders 1 1 (some stepEast)
      pure (decide ((w.sessions.get 0 = some ⟨3, .roaming, some 0⟩ ∧ homeOf w 0 = some 0 ∧
          ∀ map ∈ w.maps.get 0, ∀ e ∈ map.events, e.x = 2 → e.y = 1 → e.func ≠ .changeMap) ∧
        homeOf w 1 = some 1 ∧ w₁.sessions.get 1 = some ⟨4, .roaming, some 1⟩ ∧
        homeOf w₁ 1 = some 1 ∧
          ∀ map ∈ w₁.maps.get 1, ∀ e ∈ map.events, e.x = 2 → e.y = 1 → e.func ≠ .changeMap)))
      (twoTokens [firstRecord, farRecord] [98]) = some true := by
    decide +kernel
  obtain ⟨_, hrun⟩ := Exec.value_eq_some.mp hrun
  simp only [Exec.bind_eq_ok, Exec.get_eq_ok, Exec.pure_eq_ok, decide_eq_true_iff] at hrun
  obtain ⟨_, v, hlogin, _, w, hlogin', _, _, ⟨rfl, rfl⟩, _, w₁, hmove, _, _, ⟨rfl, rfl⟩, _, w₂,
    hmove', ⟨⟨hs, hhome, hquiet⟩, hfar, hs', hhome', hquiet'⟩, -⟩ := hrun
  have hlogged : Trace (Step mapLoaders) (boot [firstRecord, farRecord]) _ w :=
    (htokens.of_guarded.snoc (.packet hlogin)).snoc (.packet hlogin')
  exact ⟨_, w, w₁, w₂, hlogged, hhome, hfar,
    (Trace.nil.snoc ⟨.packet hmove, local_stepEast hs rfl rfl hhome hquiet⟩).snoc
      ⟨.packet hmove', local_stepEast hs' rfl rfl hhome' hquiet'⟩⟩

/-- They may step the other way round. -/
theorem maps_independent_twoMaps : ∃ w w' v, ∃ l l₁ : List (Request × World),
    l.map Prod.fst = [.packet 0 stepEast, .packet 1 stepEast] ∧
      Trace (Guarded (Step mapLoaders) LocalRequest) w l w' ∧
      l₁.map Prod.fst = [.packet 1 stepEast, .packet 0 stepEast] ∧
      Trace (Guarded (Step mapLoaders) LocalRequest) w l₁ v ∧
      v = { w' with out := v.out } ∧ ∀ fd, sentTo fd v = sentTo fd w' := by
  obtain ⟨l₀, w, w₁, w₂, hlogged, hhome, hhome', hrun⟩ := run_twoMaps
  have h₀ : home w (.packet 0 stepEast) = some 0 := hhome
  have h₁ : home w (.packet 1 stepEast) = some 1 := hhome'
  have hl : ∀ m, [.packet 0 stepEast, .packet 1 stepEast].filter (fun a => home w a = m)
      = [.packet 1 stepEast, .packet 0 stepEast].filter fun a => home w a = m := by
    intro m
    simp only [List.filter_cons, List.filter_nil, h₀, h₁]
    by_cases hm : some 0 = m
    · subst hm
      simp
    · simp [hm]
  obtain ⟨l₁, v, hl₁, hrun', hv, hsent⟩ := maps_independent wellShaped_mapLoaders hlogged hrun hl
  exact ⟨w, w₂, v, _, l₁, rfl, hrun, hl₁, hrun', hv, hsent⟩

end World
end MmoBackend
