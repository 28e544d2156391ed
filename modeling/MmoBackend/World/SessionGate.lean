import MmoBackend.World.HandlerReads
import MmoBackend.World.LoopCalls
import MmoBackend.World.NoFault

/-!
# What a session may do

`session_verify_packet` lets a session that is not logged in log in and nothing else, and
one that roams move and inspect.  The handlers look at nothing of the kind: the one for
moves follows the pointers to the player and to its map without asking whether they are
null.  So they depend on the state of the session saying what is behind the pointers.

It does: a login assigns the player first and the state last, no login can fail once the
state is assigned, and a session that roams never logs in again.  `session_gate` is for
any number of sessions whose packets come in any order.  A move uses the pointers again
after every event, and there `proceeds_moveSession` says that it never uses one that leads
nowhere.
-/

namespace MmoBackend

open Authentication Communication Db Exec Maps Player

namespace World

open Scene

/-! ## The table of the states -/

/-- `StateArray`. -/
structure StateArray where
  size : ℕ
  validPacketTypes : List UInt8

/-- `session_populate_list`. -/
def sessionPopulateList : List StateArray :=
  [⟨1, [loginPacket]⟩, ⟨2, [movePacket, inspectPlayerPacket]⟩]

/-- The value of a state as an index. -/
def stateIndex : SessionState → ℕ
  | .disabled => 0
  | .roaming => 1

/-- The loop of `session_verify_packet`, from the index `i` on.  `none` is a read behind the
array. -/
def searchFrom (types : List UInt8) (opcode : UInt8) (i : ℕ) : ℕ → Option Bool
  | 0 => some false
  | left + 1 => types[i]?.bind fun type =>
    if type = opcode then some true else searchFrom types opcode (i + 1) left

/-- The search of `session_verify_packet` in the table. -/
def searchTable (session : Session) (packet : Packet) : Option Bool :=
  sessionPopulateList[stateIndex session.state]?.bind fun arr =>
    searchFrom arr.validPacketTypes packet.opcode 0 arr.size

/-- **The linear search** finds what is in the array, and stays inside it. -/
theorem searchFrom_eq {types : List UInt8} (opcode : UInt8) {i left : ℕ}
    (h : i + left = types.length) :
    searchFrom types opcode i left = some (decide (opcode ∈ types.drop i)) := by
  induction left generalizing i with
  | zero =>
    rw [searchFrom, List.drop_of_length_le (by omega)]
    rfl
  | succ left ih =>
    have hlt : i < types.length := by omega
    rw [searchFrom, List.getElem?_eq_getElem hlt, Option.bind_some,
      List.drop_eq_getElem_cons hlt, ih (by omega)]
    by_cases hop : types[i] = opcode
    · rw [if_pos hop, hop, decide_eq_true List.mem_cons_self]
    · rw [if_neg hop, Option.some.injEq, decide_eq_decide, List.mem_cons,
        or_iff_right (Ne.symm hop)]

/-- What `session_verify_packet` returns is what the search in the table finds. -/
theorem searchTable_eq (session : Session) (packet : Packet) :
    searchTable session packet = some (sessionVerifyPacket session packet) := by
  have hsearch : ∀ types : List UInt8, searchFrom types packet.opcode 0 types.length
      = some (decide (packet.opcode ∈ types)) := fun types =>
    searchFrom_eq packet.opcode (Nat.zero_add types.length)
  rw [searchTable, sessionVerifyPacket]
  cases session.state with
  | disabled => exact hsearch [loginPacket]
  | roaming => exact hsearch [movePacket, inspectPlayerPacket]

/-! ## Which handler runs -/

/-- The handler `packet_handle_route` calls. -/
def handlerOf (packet : Packet) : Option Handler :=
  if packet.opcode = 0 then none
  else if packet.opcode = loginPacket then some .login
  else if packet.opcode = logoutPacket then some .logout
  else if packet.opcode = movePacket then some .move
  else if packet.opcode = inspectPlayerPacket then some .inspect
  else none

/-- A round in which the session `s` receives the packet gets to the handler.  Put anything in
the place of the handlers: what stops this one stops the round. -/
def HandlerRuns (w : World) (s : ℕ) (packet : Packet) (handler : Handler) : Prop :=
  ∀ (call : Handler → Exec World (Option ServerPacket)) (e : Stop), call handler = Exec.stop e →
    eventLoopWith (packetHandleRouteWith call) s (some packet) w = .error e

variable {defs : MapDefs} {w w' : World} {s : ℕ} {packet : Packet} {session : Session}
  {handler : Handler}

/-- **The switch** calls this handler, and no other one. -/
theorem packetHandleRouteWith_eq (call : Handler → Exec World (Option ServerPacket))
    (packet : Packet) :
    packetHandleRouteWith call packet = match handlerOf packet with
      | some handler => call handler
      | none => if packet.opcode = 0 then Exec.stop .fault else pure none := by
  unfold packetHandleRouteWith handlerOf
  split_ifs <;> rfl

/-- A packet is routed when the session may send it. -/
theorem route_mem_roundCalls {errno : ℤ} {packet' : Packet} :
    LoopCall.route packet' ∈ roundCalls session errno (some packet) ↔
      packet' = packet ∧ sessionVerifyPacket session packet = true := by
  rw [roundCalls, packetCalls]
  split
  · split
    · simp_all
    · simp_all
  · simp_all

theorem stopsBy_derefSession : Exec.StopsBy (· = .fault) (derefSession s) w :=
  stopsBy_bind_ok rfl (stopsBy_need _)

/-- What is not a handler stops with a fault, if it stops. -/
theorem stopsBy_performCall {route : Packet → Exec World (Option ServerPacket)} {fd : ℕ}
    {c : LoopCall} (hroute : ∀ p, c = .route p → Exec.StopsBy (· = .fault) (route p) w) :
    Exec.StopsBy (· = .fault) (performCall route s fd c) w := by
  cases c with
  | error code =>
    exact stopsBy_bind (stopsBy_need _) fun packet _ _ =>
      stopsBy_bind (stopsBy_modify _) fun _ _ _ => stopsBy_modify _
  | verify received => exact stopsBy_bind (stopsBy_need _) fun _ _ _ => stopsBy_pure _
  | badState packet => exact stopsBy_modify _
  | route packet =>
    refine stopsBy_bind (hroute packet rfl) fun response v _ => ?_
    cases response with
    | none => exact stopsBy_pure _
    | some response =>
      exact stopsBy_bind stopsBy_derefSession fun _ _ _ => stopsBy_modify _

/-- **A handler that runs** is the one of the packet, and the session may send the packet. -/
theorem HandlerRuns.allowed (h : HandlerRuns w s packet handler) :
    ∃ session, w.sessions.get s = some session ∧ sessionVerifyPacket session packet = true ∧
      handlerOf packet = some handler := by
  -- a deadlock in the handler is one of the round, which has none of its own
  let call : Handler → Exec World (Option ServerPacket) := fun other =>
    if other = handler then Exec.stop .deadlock else pure none
  have hdeadlock := h call .deadlock (if_pos rfl)
  have hnot : ¬Exec.StopsBy (· = .fault)
      (eventLoopWith (packetHandleRouteWith call) s (some packet)) w := fun hstops =>
    Stop.noConfusion (hstops _ hdeadlock)
  cases hs : w.sessions.get s with
  | none =>
    refine (hnot (stopsBy_bind stopsBy_derefSession fun session v hderef => ?_)).elim
    obtain ⟨hsession, rfl⟩ := derefSession_eq_ok.mp hderef
    exact absurd (hs.symm.trans hsession) (Option.some_ne_none _).symm
  | some session =>
    refine ⟨session, rfl, ?_⟩
    by_contra hforbidden
    refine hnot fun e he => ?_
    rw [eventLoopWith_eq_calls _ _ _ hs] at he
    refine stopsBy_forEach (I := fun _ => True) (fun c hc v _ => ⟨stopsBy_performCall ?_, fun _ _ =>
      trivial⟩) trivial e he
    rintro packet' rfl
    obtain ⟨rfl, hverify⟩ := route_mem_roundCalls.mp hc
    rw [packetHandleRouteWith_eq]
    cases hhandler : handlerOf packet' with
    | none => exact stopsBy_ite (fun _ => stopsBy_stop rfl) fun _ => stopsBy_pure _
    | some other =>
      have hne : other ≠ handler := fun heq => hforbidden ⟨hverify, heq ▸ hhandler⟩
      show Exec.StopsBy _ (if other = handler then _ else _) v
      rw [if_neg hne]
      exact stopsBy_pure _

/-- A handler runs if no error number is to be reported first. -/
theorem handlerRuns_of_verify (hs : w.sessions.get s = some session)
    (hverify : sessionVerifyPacket session packet = true)
    (hhandler : handlerOf packet = some handler) (herrno : w.packetErrno = 0) :
    HandlerRuns w s packet handler := by
  intro call e hcall
  rw [eventLoopWith_eq_calls _ _ _ hs, roundCalls, packetCalls, if_pos hverify, if_pos herrno,
    forEach_cons, bind_of_ok (show performCall _ s session.fd (.verify (some packet)) w
      = .ok ((), w) from rfl), List.nil_append, forEach_singleton]
  refine bind_of_error ?_
  rw [packetHandleRouteWith_eq, hhandler]
  exact congrFun hcall w

theorem handlerOf_login (h : packet.opcode = loginPacket) : handlerOf packet = some .login := by
  rw [handlerOf, h]
  rfl

theorem handlerOf_move (h : packet.opcode = movePacket) : handlerOf packet = some .move := by
  rw [handlerOf, h]
  rfl

theorem handlerOf_inspect (h : packet.opcode = inspectPlayerPacket) :
    handlerOf packet = some .inspect := by
  rw [handlerOf, h]
  rfl

/-- **The gate.**  What a session may call depends on its state. -/
theorem HandlerRuns.state (h : HandlerRuns w s packet handler)
    (hs : w.sessions.get s = some session) :
    session.state = .disabled ∧ handler = .login ∨
      session.state = .roaming ∧ (handler = .move ∨ handler = .inspect) := by
  obtain ⟨session', hs', hverify, hhandler⟩ := h.allowed
  obtain rfl := Option.some.inj (hs.symm.trans hs')
  cases hstate : session.state with
  | disabled =>
    have hop := opcode_of_disabled hverify hstate
    exact Or.inl ⟨rfl, Option.some.inj (hhandler.symm.trans (handlerOf_login hop))⟩
  | roaming =>
    rcases opcode_of_roaming hverify hstate with hop | hop
    · exact Or.inr ⟨rfl, Or.inl (Option.some.inj (hhandler.symm.trans (handlerOf_move hop)))⟩
    · exact Or.inr ⟨rfl, Or.inr (Option.some.inj (hhandler.symm.trans (handlerOf_inspect hop)))⟩

/-- Every handler but the one for logins is for sessions that roam. -/
theorem HandlerRuns.roaming (h : HandlerRuns w s packet handler)
    (hne : handler ≠ .login) :
    ∃ session, w.sessions.get s = some session ∧ session.state = .roaming := by
  obtain ⟨session, hs, -⟩ := h.allowed
  rcases h.state hs with ⟨-, hlogin⟩ | ⟨hstate, -⟩
  · exact absurd hlogin hne
  · exact ⟨session, hs, hstate⟩

theorem HandlerRuns.disabled (h : HandlerRuns w s packet .login)
    (hs : w.sessions.get s = some session) : session.state = .disabled := by
  rcases h.state hs with ⟨hstate, -⟩ | ⟨-, hno | hno⟩
  · exact hstate
  · exact absurd hno (by decide)
  · exact absurd hno (by decide)

theorem not_handlerRuns_logout : ¬HandlerRuns w s packet .logout := by
  intro h
  obtain ⟨session, hs, -⟩ := h.allowed
  rcases h.state hs with ⟨-, hno⟩ | ⟨-, hno | hno⟩
  · exact absurd hno (by decide)
  · exact absurd hno (by decide)
  · exact absurd hno (by decide)

/-! ## Logins -/

/-- A round of the session `s` that logs it in: the login handler runs and answers with
success. -/
def LoginSucceeds (defs : MapDefs) (s : ℕ) (w : World) (packet : Packet) (w' : World) : Prop :=
  HandlerRuns w s packet .login ∧ ∃ fuel session v, w.sessions.get s = some session ∧
    packetHandleLogin defs fuel packet s (w.emit (errorReport session.fd w.packetErrno))
      = .ok (some (.success packet.id), v) ∧
    eventLoop defs fuel s (some packet) w = .ok ((), w')

/-- **Behind a login** the session roams. -/
theorem LoginSucceeds.roams (hw : Member defs w) (h : LoginSucceeds defs s w packet w') :
    ∃ q, w'.scene.RoamsWith s q := by
  obtain ⟨hruns, fuel, session, v, hs, hlogin, hloop⟩ := h
  have hstate := hruns.disabled hs
  have hs' : (w.emit (errorReport session.fd w.packetErrno)).sessions.get s = some session := hs
  have hmember := hw.emit (errorReport session.fd w.packetErrno)
  have hverify : sessionVerifyPacket session packet = true := by
    obtain ⟨session', hs'', hverify, -⟩ := hruns.allowed
    obtain rfl := Option.some.inj (hs.symm.trans hs'')
    exact hverify
  -- the round is the handler and its answer
  obtain ⟨l, rfl⟩ : ∃ l, w' = v.emit l := by
    obtain ⟨session', hs'', ⟨hnot, -⟩ | ⟨-, r, w₁, hroute, hrespond⟩⟩ := eventLoop_eq_ok hloop
    · obtain rfl := Option.some.inj (hs.symm.trans hs'')
      exact absurd (hverify.symm.trans hnot) (by simp)
    · obtain rfl := Option.some.inj (hs.symm.trans hs'')
      rw [packetHandleRoute_login (opcode_of_disabled hverify hstate)] at hroute
      obtain ⟨rfl, rfl⟩ := Prod.mk.inj (Except.ok.inj (hlogin.symm.trans hroute))
      obtain ⟨l, hl, -⟩ := respond_emit hrespond
      exact ⟨l, hl⟩
  have hends := packetHandleLogin_ends hmember.sound.cache hs' hlogin
  generalize hr : (some (ServerPacket.success packet.id) : Option ServerPacket) = r at hends
  cases hends with
  | unknown => exact absurd hr (Option.some_ne_none _)
  | noRecord => exact absurd (Option.some.inj hr) (by simp)
  | spawned _ _ _ _ _ henters hspawn =>
    obtain ⟨⟨session₁, hs₁, hroaming, hplayer⟩, -⟩ := hmember.boarding hs' hstate henters
    obtain ⟨-, -, hway⟩ := hmember.enters hs' hstate henters hspawn
    refine ⟨_, session₁, ?_, hroaming, hplayer⟩
    show v.scene.session s = some session₁
    rw [hway.moves.session]
    exact hs₁

/-! ## Moves of a session -/

section Shape

variable {q : ℕ}

/-- What the spawn of a login uses is there. -/
theorem Member.afoot_enters {id : CString} {player : Player} {m : ℕ} {map : Map} {w₁ : World}
    (hdefs : defs.WellShaped) (hw : Member defs w) (hshapely : Shapely w)
    (hs : w.sessions.get s = some session) (hstate : session.state = .disabled)
    (h : Enters defs w s session id player m map w₁) :
    Afoot w₁.scene w.players.next id s w₁ := by
  obtain ⟨-, -, hway⟩ := hw.boarding hs hstate h
  have hp : w₁.players.get w.players.next = some { player with session := some s } := by
    show w₁.scene.player w.players.next = _
    rw [h.scene_eq]
    exact Function.update_self _ _ _
  exact ⟨hway, h.bits.shapely hdefs hshapely, _, m, map, hp, h.map_eq, h.get_eq⟩

/-- A login keeps the rows of the maps as wide as the maps. -/
theorem LoginEnds.shapely {fuel : ℕ} {r : Option ServerPacket} (hdefs : defs.WellShaped)
    (hw : Member defs w) (hshapely : Shapely w) (hs : w.sessions.get s = some session)
    (hstate : session.state = .disabled) (h : LoginEnds defs fuel packet s session w r w') :
    Shapely w' := by
  cases h with
  | unknown => exact hshapely
  | noRecord => exact hshapely
  | spawned _ _ _ _ _ henters hspawn =>
    have hafoot := hw.afoot_enters hdefs hshapely hs hstate henters
    exact (mapSpawnPlayer_rule (carried_afoot hdefs) destinations_true fuel _ _ _ 1 _ _ _
      (henters.kept.sound hw.sound) hafoot (fun _ _ _ => trivial) hspawn).2.shapely

/-- What a move of the session `s` needs is there when the session roams. -/
theorem Member.sturdy (h : Member defs w) (hlocks : w.locks = []) (hshapely : Shapely w)
    (hroams : w.scene.RoamsWith s q) :
    w.scene.Peopled q ∧ ∃ k, Sturdy defs w.scene q k s w := by
  have hpresent := h.membership.present hroams
  obtain ⟨session, hs, -⟩ := id hroams
  refine ⟨fun m q' hq' _ => ?_, ?_⟩
  · obtain ⟨sid, hroams'⟩ := h.membership.listed m q' hq'
    obtain ⟨player, _, k, hlisted, hid, hsession⟩ := h.membership.present hroams'
    obtain ⟨session', hs', -⟩ := hroams'
    exact ⟨player, k, sid, session', hlisted.player_eq, hid, hsession, hs'⟩
  · obtain ⟨k, hway⟩ := hpresent.onWay hs
    obtain ⟨player, m, _, hlisted, -⟩ := hpresent
    obtain ⟨map, hmap, -⟩ := mem_roster.mp (hlisted.mem_iff.mpr rfl)
    obtain ⟨player', m', c, hlisted', -, hrest⟩ := hway.listed
    have hway' : OnWay w.scene q k s 0 w.scene :=
      ⟨hway.moves, ⟨player', m', c, hlisted', Nat.zero_le c, hrest⟩, hway.session⟩
    exact ⟨k, ⟨hway', hshapely, player, m, map, hlisted.player_eq, hlisted.map_eq, hmap⟩,
      h.sound, hlocks⟩

/-- **A step of the server** keeps the rows of the maps as wide as the maps. -/
theorem Shapely.step {a : Request} (hdefs : defs.WellShaped) (h : Shapely w)
    (hw : Member defs w) (hlocks : w.locks = []) (hstep : Step defs w a w') : Shapely w' := by
  cases hstep.turn hw.sound.cache with
  | connect => exact h
  | token => exact h
  | badState => exact h
  | @login _ _ _ _ _ v l _ hs hstate _ hends =>
    show Shapely v
    exact hends.shapely hdefs (hw.emit l) h hs hstate
  | @move _ s q _ session _ _ _ v l _ hs hstate hq _ _ _ hmove =>
    obtain ⟨-, k, hsturdy⟩ := (hw.emit l).sturdy hlocks h ⟨session, hs, hstate, hq⟩
    show Shapely v
    exact (hsturdy.move hdefs (fun _ hn => absurd hn.symm (Option.some_ne_none _)) hmove).2.shapely
  | @inspect _ _ _ _ _ l _ _ _ _ hget =>
    rcases dbPlayerGetPlayer_reads (hw.emit l).sound.cache hget with rfl | ⟨player, hreads⟩
    · exact h
    · exact hreads.bits.shapely hdefs h

theorem shapely_run {playerdata : List Document} {l : List (Request × World)}
    (hdefs : defs.WellShaped) (h : Trace (Step defs) (boot playerdata) l w) :
    w.locks = [] ∧ Shapely w := by
  obtain ⟨-, hlocks, hshapely⟩ := Trace.invariant
    (I := fun w => Member defs w ∧ w.locks = [] ∧ Shapely w)
    (fun _ _ _ ht hstep => ⟨(ht.1.step hstep).1, hstep.writes.locks_eq.trans ht.2.1,
      ht.2.2.step hdefs ht.1 ht.2.1 hstep⟩)
    ⟨member_boot playerdata, rfl, fun _ _ hm => absurd hm.symm (Option.some_ne_none _)⟩ h
  exact ⟨hlocks, hshapely⟩

end Shape

/-- `packet_handle_move` from the use of the session on, with the coordinates of the packet. -/
def moveSession (defs : MapDefs) (fuel s : ℕ) (x y : ℤ) : Exec World Bool := do
  let session ← derefSession s
  let p ← Exec.need session.player
  playerMove defs fuel p x y MoveArgs.zero

/-- The move handler reads the coordinates and moves the player of the session. -/
theorem packetHandleMove_eq {fuel : ℕ} {x y : ℤ} (hx : intAt packet.data 0 = some x)
    (hy : intAt packet.data 4 = some y) :
    packetHandleMove defs fuel packet s
      = moveSession defs fuel s x y >>= fun moved =>
          if moved then pure none else pure (some (.failure packet.id)) := by
  funext w
  rw [packetHandleMove, hx, hy, need_some_bind, need_some_bind, moveSession, Exec.assoc]
  simp only [Exec.assoc]

/-- **A move of a session that roams** uses no player and no map that is not there, whatever
the coordinates are and whatever the events of the cells do. -/
theorem proceeds_moveSession {q : ℕ} (hdefs : defs.WellShaped) (hportals : ValidPortals defs)
    (hw : Member defs w) (hlocks : w.locks = []) (hshapely : Shapely w)
    (hroams : w.scene.RoamsWith s q) (fuel : ℕ) (x y : ℤ) :
    Proceeds (moveSession defs fuel s x y) w := by
  obtain ⟨hpeople, k, hsturdy⟩ := hw.sturdy hlocks hshapely hroams
  obtain ⟨session, hs, -, hq⟩ := hroams
  refine stopsBy_bind_ok (derefSession_eq_ok.mpr ⟨hs, rfl⟩) (stopsBy_need_bind hq ?_)
  exact hsturdy.proceeds_playerMove hdefs hportals hpeople fuel x y
    fun _ hn => absurd hn.symm (Option.some_ne_none _)

/-- **The move handler** of such a session, whatever lies behind the data of its packet. -/
theorem proceeds_packetHandleMove {q : ℕ} (hdefs : defs.WellShaped) (hportals : ValidPortals defs)
    (hw : Member defs w) (hlocks : w.locks = []) (hshapely : Shapely w)
    (hroams : w.scene.RoamsWith s q) (fuel : ℕ) (hlen : 8 ≤ packet.data.length) :
    Proceeds (packetHandleMove defs fuel packet s) w := by
  have hx : intAt packet.data 0 = some _ := if_pos (by omega)
  have hy : intAt packet.data 4 = some _ := if_pos hlen
  rw [packetHandleMove_eq hx hy]
  refine stopsBy_bind (proceeds_moveSession hdefs hportals hw hlocks hshapely hroams fuel _ _)
    fun moved _ _ => ?_
  exact stopsBy_ite (fun _ => stopsBy_pure _) fun _ => stopsBy_pure _

/-! ## Runs of the server -/

/-- What the state of a session says behind the run `l`, which has led to `w`. -/
structure SessionGate (defs : MapDefs) (playerdata : List Document) (l : List (Request × World))
    (w : World) : Prop where
  /-- A session that roams has a player, which has a map and belongs to the session. -/
  roaming : ∀ s session, w.sessions.get s = some session → session.state = .roaming →
    ∃ q player m map, session.player = some q ∧ w.players.get q = some player ∧
      player.map = some m ∧ w.maps.get m = some map ∧ player.session = some s
  /-- Behind a handler that runs is the search for the opcode in the array of the state. -/
  searched : ∀ s packet handler, HandlerRuns w s packet handler →
    ∃ session, w.sessions.get s = some session ∧ searchTable session packet = some true
  /-- Moves and looks at players are for sessions that roam. -/
  inRoaming : ∀ s packet, HandlerRuns w s packet .move ∨ HandlerRuns w s packet .inspect →
    ∃ session, w.sessions.get s = some session ∧ session.state = .roaming
  /-- No login comes behind one that succeeded. -/
  loginFirst : ∀ s packet, HandlerRuns w s packet .login → ∀ l₁ l₂ v packet' v',
    l = l₁ ++ (.packet s packet', v') :: l₂ → Trace (Step defs) (boot playerdata) l₁ v →
      ¬LoginSucceeds defs s v packet' v'
  noLogout : ∀ s packet, ¬HandlerRuns w s packet .logout
  /-- The move handler follows no pointer that leads nowhere, whatever lies behind the data of
  the packet.  The error of an earlier login may be reported in front of it. -/
  move : defs.WellShaped → ValidPortals defs → ∀ s packet, HandlerRuns w s packet .move →
    ∀ fuel behind sent, 8 ≤ (packet.followedBy behind).data.length →
      Proceeds (packetHandleMove defs fuel (packet.followedBy behind) s) (w.emit sent)

/-- **The state of a session is the gate to its handlers.**  This holds after every run of
the server: any number of sessions, packets with any opcode, id and data in any order, and
any records.  A login whose record has no valid map does not return. -/
theorem session_gate {playerdata : List Document} {l : List (Request × World)}
    (h : Trace (Step defs) (boot playerdata) l w) : SessionGate defs playerdata l w := by
  have hmember := member_run h
  refine ⟨fun s session hs hstate => ?_, fun s packet handler hruns => ?_,
    fun s packet hruns => ?_, fun s packet hruns => ?_, fun s packet hruns => ?_,
    fun hdefs hportals s packet hruns fuel behind sent hlen => ?_⟩
  · obtain ⟨q, hq, player, m, _, hlisted, -, hsession⟩ :=
      hmember.membership.roaming s session hs hstate
    obtain ⟨map, hmap, -⟩ := mem_roster.mp (hlisted.mem_iff.mpr rfl)
    exact ⟨q, player, m, map, hq, hlisted.player_eq, hlisted.map_eq, hmap, hsession⟩
  · obtain ⟨session, hs, hverify, -⟩ := hruns.allowed
    exact ⟨session, hs, by rw [searchTable_eq, hverify]⟩
  · rcases hruns with hmove | hinspect
    · exact hmove.roaming (by decide)
    · exact hinspect.roaming (by decide)
  · rintro l₁ l₂ v packet' v' rfl hbefore hsucceeds
    obtain ⟨q, hroams⟩ := hsucceeds.roams (member_run hbefore)
    obtain ⟨session, hs, hstate, -⟩ := roamsWith_run h (.packet s packet', v')
      (List.mem_append_right l₁ List.mem_cons_self) hroams
    exact absurd (hstate.symm.trans (hruns.disabled hs)) (by decide)
  · exact not_handlerRuns_logout hruns
  · obtain ⟨hlocks, hshapely⟩ := shapely_run hdefs h
    obtain ⟨session, hs, hstate⟩ := hruns.roaming (by decide)
    obtain ⟨q, hq, -⟩ := hmember.membership.roaming s session hs hstate
    exact proceeds_packetHandleMove hdefs hportals (hmember.emit sent) hlocks hshapely
      ⟨session, hs, hstate, hq⟩ fuel hlen

/-- The portals of the repository lead to its two maps. -/
theorem validPortals_mapLoaders : ValidPortals mapLoaders := by
  intro base hbase e he hfunc
  rcases staticArgs_mapLoaders base hbase e he hfunc with hargs | hargs
  · rw [hargs]
    exact ⟨1, 0, 5, rfl, rfl, rfl, by decide⟩
  · rw [hargs]
    exact ⟨0, 31, 5, rfl, rfl, rfl, by decide⟩

/-- The run of the first login.  Then the session may move, with a packet of any length. -/
theorem session_gate_firstLogin : ∃ l w, Trace (Step mapLoaders) (boot [firstRecord]) l w ∧
    SessionGate mapLoaders [firstRecord] l w ∧
    (∃ player m, w.players.get 0 = some player ∧ player.map = some m ∧
      player.session = some 0) ∧
    HandlerRuns w 0 { firstLogin with opcode := movePacket } .move ∧
    ∀ fuel behind, 8 ≤ behind.length → Proceeds (packetHandleMove mapLoaders fuel
      (Packet.followedBy { firstLogin with opcode := movePacket } behind) 0) w := by
  obtain ⟨w, _, _, hloop, hs, -, -, -, -, -, herrno⟩ := eventLoop_firstLogin
  have hrun : Trace (Step mapLoaders) (boot [firstRecord]) _ w :=
    ((Trace.nil.snoc step_afterConnect).snoc step_afterToken).snoc (Step.packet hloop)
  have hgate := session_gate hrun
  obtain ⟨q, player, m, _, hq, hp, hm, -, hsession⟩ := hgate.roaming 0 _ hs rfl
  obtain rfl := Option.some.inj hq
  have hruns : HandlerRuns w 0 { firstLogin with opcode := movePacket } .move :=
    handlerRuns_of_verify hs rfl (handlerOf_move rfl) herrno
  refine ⟨_, w, hrun, hgate, ⟨player, m, hp, hm, hsession⟩, hruns, ?_⟩
  intro fuel behind hlen
  have hproceeds := hgate.move wellShaped_mapLoaders validPortals_mapLoaders 0 _ hruns fuel behind
    [] (by rw [Packet.followedBy, List.length_append]; omega)
  rwa [emit_nil] at hproceeds

end World
end MmoBackend
