import MmoBackend.Library.Trace
import MmoBackend.World.Login

/-!
# The clients agree with the server

Every step of the server keeps `Settled`: a client connects, a token arrives, or a
session sends a packet, which is refused or is a login, a move or an inspection.  So it
holds after every run, and with it every client that is logged in holds exactly the
players listed on its map, each with its current position, `clientView_eq`.

Three things are asked for.  The records of the database are valid, the events that
change the map lead to cells of valid maps and not into each other, and nobody logs in
an account that is in the world already.
-/

namespace MmoBackend

open Authentication Bytes Communication Db Maps Player

namespace World

open Scene

variable {defs : MapDefs} {w w' : World} {fuel s : ℕ} {packet : Packet} {session : Session}
  {r : Option ServerPacket}

/-- Nobody logs in an account whose player is listed on a map. -/
def DistinctLogin (w : World) (a : Request) : Prop :=
  ∀ id, LoginFor w a id → ∀ m map q player, w.maps.get m = some map → q ∈ map.players →
    w.players.get q = some player → player.id ≠ some id

/-! ## Logins -/

/-- A pointer that is not in use is in no list. -/
theorem notMem_roster_of_none (hs : w.scene.Orderly) {p : ℕ} (hp : w.players.get p = none) (m : ℕ) :
    p ∉ w.scene.roster m := by
  intro hm
  obtain ⟨player, _, _, _, hlogged, -⟩ := hs.listed m p hm
  exact absurd (hlogged.player_eq.symm.trans hp) (Option.some_ne_none _)

section Boarding

variable {id : CString} {player : Player} {i m : ℕ} {base : Map} {w₁ : World}

/-- Up to the spawn a login touches nobody on a map. -/
theorem Boards.apart (hw : Settled defs w) (hsession : w.sessions.get s = some session)
    (hplayer : session.player = none) (h : Boards defs w s session id player i m base w₁) :
    Apart w.scene w₁.scene := by
  have hfresh := notMem_roster_of_none hw.orderly (Heap.get_next w.players)
  rw [h.scene_eq]
  have hsession' : (w.scene.setPlayer w.players.next { player with session := some s }).session s
      = some session := hsession
  refine (Apart.setPlayer hfresh _).trans (Apart.setSession hsession' ?_ rfl)
  intro _ q _ hback
  exact absurd (hback.symm.trans hplayer) (Option.some_ne_none q)

theorem Boards.loggedIn (h : Boards defs w s session id player i m base w₁) :
    w₁.scene.LoggedIn w.players.next { player with session := some s } id s
      { session with player := some w.players.next, state := .roaming } where
  player_eq := by
    rw [h.scene_eq]
    exact Function.update_self _ _ _
  id_eq := h.id_eq
  session_eq := rfl
  get_eq := by
    rw [h.scene_eq]
    exact Function.update_self _ _ _
  back := rfl

/-- The other sessions are as they were. -/
theorem Boards.session_of_ne (h : Boards defs w s session id player i m base w₁) {sid : ℕ}
    (hne : sid ≠ s) : w₁.scene.session sid = w.scene.session sid := by
  rw [h.scene_eq]
  exact Function.update_of_ne hne _ _

/-- **A player boards** and is spawned. -/
theorem Boards.settles {w₂ : World} {n : ℤ} (hw : Settled defs w)
    (hsession : w.sessions.get s = some session) (hplayer : session.player = none)
    (hdistinct : ∀ m q c, q ∈ w.scene.roster m → w.scene.entryOf q ≠ some (id, c))
    (h : Boards defs w s session id player i m base w₁)
    (hspawn : mapSpawnPlayer defs fuel i w.players.next player.x player.y 1 w₁ = .ok (n, w₂)) :
    n = 1 ∧ Settled defs w₂ := by
  have hapart := h.apart hw hsession hplayer
  have horderly := hw.orderly.apart hapart
  have hfresh : w.players.next ∉ w₁.scene.roster m := by
    rw [hapart.roster]
    exact notMem_roster_of_none hw.orderly (Heap.get_next w.players) m
  obtain ⟨map, base', hmap, hbase, hframe, -⟩ := (h.kept.sound hw.sound).tile i m h.tile_eq
  obtain rfl := Option.some.inj (h.base_eq.symm.trans hbase)
  obtain ⟨hn, hkept, hspawned, hinside, hfollows, ⟨m', hm'⟩, hsync⟩ := mapSpawnPlayer_settles
    (h.kept.sound hw.sound) horderly
    (hw.inside.congr h.kept.toSteady hapart.roster hapart.player)
    ((hw.synced.apart hw.orderly hapart).but _ id) h.loggedIn h.map_eq
    (by rw [if_neg hfresh]; exact h.refs_eq) hmap
    (by rw [mapCheckBounds_of_frame hframe]; exact h.bounds)
    (fun k q c hq hentry => by
      rw [hapart.roster] at hq
      rw [entryOf_congr (hapart.player k q hq)] at hentry
      exact absurd hentry (hdistinct k q c hq))
    h.base_eq h.bounds (Or.inl rfl) hspawn
  have hall := h.kept.trans hkept
  refine ⟨hn, hall.sound hw.sound, hall.playerdata ▸ hw.records, hspawned, hinside, ?_, hsync⟩
  intro sid session' hsid
  rw [hfollows.session] at hsid
  by_cases hne : sid = s
  · subst hne
    obtain rfl := Option.some.inj (h.loggedIn.get_eq.symm.trans hsid)
    obtain ⟨player', hp', -, hs'⟩ := hfollows.player _ _ h.loggedIn.player_eq
    exact ⟨m', _, player', rfl, hm', hp', hs'⟩
  · rw [h.session_of_ne hne] at hsid
    exact ((hw.sessions sid session' hsid).apart hapart).follows hfollows

end Boarding

/-- **A login.** -/
theorem LoginResult.settles (hw : Settled defs w) (hsession : w.sessions.get s = some session)
    (hstate : session.state = .disabled)
    (hdistinct : ∀ id, accountOf w packet = some id → ∀ m q c, q ∈ w.scene.roster m →
      w.scene.entryOf q ≠ some (id, c))
    (h : LoginResult defs fuel packet s session w r w') : Settled defs w' ∧ Silent r := by
  have hplayer : session.player = none := by
    have hadmits := hw.sessions s session hsession
    rw [Admits, hstate] at hadmits
    exact hadmits
  cases h with
  | unknown _ =>
    exact ⟨hw.congr (Kept.setErrno _).toSteady rfl, silent_none⟩
  | noRecord _ _ =>
    have hsame : { session with player := none } = session := by
      rw [← hplayer]
    rw [hsame, setSession, Heap.set_eq_self hsession]
    exact ⟨hw, silent_some rfl⟩
  | spawned haccount _ hboards hspawn hreply =>
    obtain ⟨rfl, hsettled⟩ :=
      hboards.settles hw hsession hplayer (hdistinct _ haccount) hspawn
    rw [loginReply, if_neg (by omega), Exec.pure_eq_ok] at hreply
    obtain ⟨rfl, rfl⟩ := hreply
    exact ⟨hsettled, silent_some rfl⟩

/-! ## The other requests -/

/-- The player of a session that roams is listed. -/
theorem Settled.listed (hw : Settled defs w) (hsession : w.sessions.get s = some session)
    (hstate : session.state = .roaming) : ∃ m p player, session.player = some p ∧
      p ∈ w.scene.roster m ∧ w.scene.player p = some player ∧ player.session = some s := by
  have hadmits := hw.sessions s session hsession
  rw [Admits, hstate] at hadmits
  exact hadmits

theorem packetHandleMove_settles (hportals : GoodPortals defs) (hw : Settled defs w)
    (hsession : w.sessions.get s = some session) (hstate : session.state = .roaming)
    (h : packetHandleMove defs fuel packet s w = .ok (r, w')) : Settled defs w' ∧ Silent r := by
  simp only [packetHandleMove, Exec.bind_eq_ok, Exec.need_eq_ok, derefSession_eq_ok,
    Exec.ite_eq_ok, Exec.pure_eq_ok] at h
  obtain ⟨x, _, ⟨-, rfl⟩, y, _, ⟨-, rfl⟩, session', _, ⟨hsession', rfl⟩, p, _, ⟨hp, rfl⟩, moved, w₁,
    hmove, hreply⟩ := h
  obtain rfl := Option.some.inj (hsession.symm.trans hsession')
  obtain ⟨m, p', player, hp', hm, -⟩ := hw.listed hsession hstate
  obtain rfl := Option.some.inj (hp.symm.trans hp')
  have hsettled := playerMove_settles hportals hw hm hmove
  rcases hreply with ⟨-, rfl, rfl⟩ | ⟨-, rfl, rfl⟩
  · exact ⟨hsettled, silent_none⟩
  · exact ⟨hsettled, silent_some rfl⟩

theorem inspectReply_eq_ok {found : Option ℕ} (h : inspectReply packet found w = .ok (r, w')) :
    w' = w ∧ Silent r := by
  cases found with
  | none =>
    obtain ⟨rfl, rfl⟩ := Exec.pure_eq_ok.mp h
    exact ⟨rfl, silent_some rfl⟩
  | some p =>
    simp only [inspectReply, Exec.bind_eq_ok, derefPlayer_eq_ok, Exec.need_eq_ok,
      Exec.pure_eq_ok] at h
    obtain ⟨player, _, ⟨-, rfl⟩, name, _, ⟨-, rfl⟩, rfl, rfl⟩ := h
    exact ⟨rfl, silent_some rfl⟩

theorem packetHandleInspectPlayer_settles (hw : Settled defs w)
    (h : packetHandleInspectPlayer defs packet w = .ok (r, w')) : Settled defs w' ∧ Silent r := by
  simp only [packetHandleInspectPlayer, Exec.bind_eq_ok] at h
  obtain ⟨found, w₁, hget, hreply⟩ := h
  obtain ⟨rfl, hsilent⟩ := inspectReply_eq_ok hreply
  refine ⟨?_, hsilent⟩
  rcases dbPlayerGetPlayer_reads hw.sound.cache hget with rfl | ⟨player, hreads⟩
  · exact hw
  · have hfresh := notMem_roster_of_none hw.orderly (Heap.get_next w.players)
    refine hw.apart hreads.kept.toSteady (hreads.scene_eq ▸ Apart.setPlayer hfresh player) ?_
    intro sid session hsid
    rw [hreads.scene_eq] at hsid
    exact Or.inl hsid

/-! ## Steps -/

/-- A packet that the state of the session allows. -/
theorem packetHandleRoute_settles (hportals : GoodPortals defs) (hw : Settled defs w)
    (hsession : w.sessions.get s = some session)
    (hverify : sessionVerifyPacket session packet = true)
    (hdistinct : session.state = .disabled → ∀ id, accountOf w packet = some id → ∀ m q c,
      q ∈ w.scene.roster m → w.scene.entryOf q ≠ some (id, c))
    (h : packetHandleRoute defs fuel packet s w = .ok (r, w')) : Settled defs w' ∧ Silent r := by
  cases hstate : session.state with
  | disabled =>
    rw [packetHandleRoute_login (opcode_of_disabled hverify hstate)] at h
    exact (packetHandleLogin_eq_ok hw.sound hw.records hsession h).settles hw hsession hstate
      (hdistinct hstate)
  | roaming =>
    rcases opcode_of_roaming hverify hstate with hop | hop
    · rw [packetHandleRoute_move hop] at h
      exact packetHandleMove_settles hportals hw hsession hstate h
    · rw [packetHandleRoute_inspect hop] at h
      exact packetHandleInspectPlayer_settles hw h

/-- **Every step** of the server leads from one settled state to another. -/
theorem Settled.step {a : Request} (hportals : GoodPortals defs) (hw : Settled defs w)
    (h : Step defs w a w') (hguard : DistinctLogin w a) : Settled defs w' := by
  cases h with
  | @connect _ fd s hfd hcreate =>
    obtain rfl := sessionCreate_eq_ok hcreate
    have hscene : World.scene { w with sessions := w.sessions.alloc ⟨fd, .disabled, none⟩ }
        = w.scene.setSession w.sessions.next ⟨fd, .disabled, none⟩ := by
      refine Scene.ext rfl rfl (funext fun j => ?_) rfl
      show (w.sessions.alloc _).get j = Function.update w.scene.session w.sessions.next _ j
      rw [Heap.get_alloc, Function.update_apply]
      rfl
    refine hw.apart (Kept.newSession _).toSteady
      (hscene ▸ Apart.newSession (Heap.get_next w.sessions) hfd) fun sid session hsid => ?_
    rcases Heap.get_alloc_eq_some hsid with ⟨-, rfl⟩ | ⟨-, hold⟩
    · exact Or.inr rfl
    · exact Or.inl hold
  | token hinsert =>
    obtain ⟨t, -, rfl⟩ := onTable_eq_ok.mp hinsert
    exact hw.congr (Kept.setTable t).toSteady rfl
  | @packet _ s fuel packet hloop =>
    obtain ⟨session, hsession, ⟨-, rfl⟩ | ⟨hverify, r, w₁, hroute, hrespond⟩⟩ :=
      eventLoop_eq_ok hloop
    · refine hw.emit (Kept.write _ _).toSteady (scene_write _ _) fun e he => ?_
      rw [List.mem_singleton.mp he]
      rfl
    · have hl := messageOf_errorReport session.fd w.packetErrno
      generalize errorReport session.fd w.packetErrno = l at hl hroute
      have hw₀ : Settled defs (w.emit l) := hw.emit (Kept.emit l).toSteady (scene_emit l) hl
      have hdistinct : session.state = .disabled → ∀ id, accountOf (w.emit l) packet = some id →
          ∀ m q c, q ∈ (w.emit l).scene.roster m → (w.emit l).scene.entryOf q ≠ some (id, c) := by
        intro hstate id haccount m q c hq hentry
        obtain ⟨map, hmap, hmem⟩ := mem_roster.mp hq
        obtain ⟨player, _, _, _, hlogged, -⟩ := hw.orderly.listed m q hq
        have hop := opcode_of_disabled hverify hstate
        refine hguard id ⟨s, packet, session, rfl, hop, hsession, hstate, haccount⟩ m map q player
          hmap hmem hlogged.player_eq ?_
        have hkey := hlogged.entryOf_eq.symm.trans hentry
        rw [← (Prod.mk.inj (Option.some.inj hkey)).1]
        exact hlogged.id_eq
      obtain ⟨hw₁, hsilent⟩ :=
        packetHandleRoute_settles hportals hw₀ hsession hverify hdistinct hroute
      obtain ⟨l', rfl, hl'⟩ := respond_eq_ok hsilent hrespond
      exact hw₁.emit (Kept.emit l').toSteady (scene_emit l') hl'

/-! ## Runs -/

/-- What a settled state says about one session. -/
theorem Settled.session_view (hw : Settled defs w) (hsession : w.sessions.get s = some session)
    (hstate : session.state = .roaming) :
    ∃ p player m map, session.player = some p ∧ w.players.get p = some player ∧
      player.map = some m ∧ w.maps.get m = some map ∧ p ∈ map.players ∧
      (∀ q ∈ map.players, ∃ other k, w.players.get q = some other ∧ other.id = some k) ∧
      ∀ k c, clientView session.fd w.out k = some c ↔ ∃ q ∈ map.players, ∃ other,
        w.players.get q = some other ∧ other.id = some k ∧ (other.x, other.y) = c := by
  obtain ⟨m, p, player, hback, hm, hp, hsid⟩ := hw.listed hsession hstate
  obtain ⟨map, hmap, hmem⟩ := mem_roster.mp hm
  have hroster := roster_eq hmap
  have hfd : w.scene.fdOf p = some session.fd := by
    have hget : w.scene.session s = some session := hsession
    simp [fdOf, hp, hsid, hget]
  refine ⟨p, player, m, map, hback, hp, hw.orderly.map_eq hm hp, hmap, hmem, fun q hq => ?_,
    fun k c => ?_⟩
  · obtain ⟨other, k, _, _, hother, -⟩ := hw.orderly.listed m q (hroster ▸ hq)
    exact ⟨other, k, hother.player_eq, hother.id_eq⟩
  · rw [show w.out = w.scene.out from rfl, hw.synced m p hm session.fd hfd k c, Shows, hroster]
    refine exists_congr fun q => and_congr_right fun _ => ?_
    have hget : w.scene.player q = w.players.get q := rfl
    rw [entryOf, hget]
    cases hq : w.players.get q with
    | none => simp
    | some other =>
      cases hk : other.id with
      | none => simp [hk]
      | some k' => simp [hk, eq_comm]

/-- **The client view.**  After every run in which nobody logs in an account twice, every
session that roams has a player that is listed on its map, and the client has exactly the
players of that list, each under its id and with its current position. -/
theorem clientView_eq {playerdata : List Document} {l : List (Request × World)}
    (hrecords : ValidRecords defs playerdata) (hportals : GoodPortals defs)
    (h : Trace (Guarded (Step defs) DistinctLogin) (boot playerdata) l w)
    (hsession : w.sessions.get s = some session) (hstate : session.state = .roaming) :
    ∃ p player m map, session.player = some p ∧ w.players.get p = some player ∧
      player.map = some m ∧ w.maps.get m = some map ∧ p ∈ map.players ∧
      (∀ q ∈ map.players, ∃ other k, w.players.get q = some other ∧ other.id = some k) ∧
      ∀ k c, clientView session.fd w.out k = some c ↔ ∃ q ∈ map.players, ∃ other,
        w.players.get q = some other ∧ other.id = some k ∧ (other.x, other.y) = c := by
  have hsettled : Settled defs w :=
    Trace.invariant (I := Settled defs)
      (fun t a u ht hstep => Settled.step hportals ht hstep.1 hstep.2) (settled_boot hrecords) h
  exact hsettled.session_view hsession hstate

/-! ## The world of the repository -/

/-- The two portals of the repository lead into each other's map, and both suppress the
events there, since `5` is odd. -/
theorem goodPortals_mapLoaders : GoodPortals mapLoaders := by
  intro base hbase e he hfunc id x y hid hx hy
  rcases List.mem_cons.mp hbase with rfl | hbase
  · have he' : e ∈ [mapEventCreate 31 5 [1, 0, 5, 1] .changeMap,
        mapEventCreate 5 5 [] .goodbye, mapEventCreate 5 5 [] .hello] := he
    rcases List.mem_cons.mp he' with rfl | he'
    · obtain rfl := Option.some.inj hid
      obtain rfl := Option.some.inj hx
      obtain rfl := Option.some.inj hy
      exact ⟨1, mapDefTestTile2, rfl, rfl, by decide, Or.inl (by decide)⟩
    · rcases List.mem_cons.mp he' with rfl | he'
      · exact absurd hfunc (by decide)
      · rw [List.mem_singleton.mp he'] at hfunc
        exact absurd hfunc (by decide)
  · obtain rfl := List.mem_singleton.mp hbase
    have he' : e ∈ [mapEventCreate 0 5 [0, 31, 5, 1] .changeMap,
        mapEventCreate 5 5 [] .goodbye, mapEventCreate 5 5 [] .hello] := he
    rcases List.mem_cons.mp he' with rfl | he'
    · obtain rfl := Option.some.inj hid
      obtain rfl := Option.some.inj hx
      obtain rfl := Option.some.inj hy
      exact ⟨0, mapDefTestTile, rfl, rfl, by decide, Or.inl (by decide)⟩
    · rcases List.mem_cons.mp he' with rfl | he'
      · exact absurd hfunc (by decide)
      · rw [List.mem_singleton.mp he'] at hfunc
        exact absurd hfunc (by decide)

/-- The run through the portal, in which nobody logs in twice. -/
theorem trace_distinctLogin : ∃ l w,
    Trace (Guarded (Step mapLoaders) DistinctLogin) (boot [gateRecord, farRecord]) l w ∧
      BothArrived w := by
  have hempty : ∀ (w : World) a, w.maps = Heap.empty → DistinctLogin w a := by
    intro w a hw id _ m map q player hmap
    rw [hw] at hmap
    exact absurd hmap.symm (Option.some_ne_none map)
  have hlogin : ∀ w : World, accountOf w secondLogin = some [98] →
      (∀ q player, w.players.get q = some player → player.id = some [97]) →
      DistinctLogin w (.packet 1 secondLogin) := by
    rintro w haccount hids id ⟨s, packet, session, heq, -, -, -, hid⟩ m map q player - - hq heq'
    obtain ⟨rfl, rfl⟩ := Request.packet.inj heq
    rw [haccount, ← heq', hids q player hq] at hid
    exact absurd hid (by decide)
  have hmove : ∀ w : World, DistinctLogin w (.packet 0 stepOnPortal) := by
    rintro w id ⟨s, packet, session, heq, hopcode, -⟩
    obtain ⟨rfl, rfl⟩ := Request.packet.inj heq
    exact absurd hopcode (by decide)
  obtain ⟨l, _, w, hrun, -, -, -, harrived⟩ :=
    trace_throughPortal DistinctLogin hempty hlogin hmove
  exact ⟨l, w, hrun, harrived⟩

/-- What a client knows that knows where the players of its map are. -/
theorem BothArrived.view_eq (h : w.BothArrived) {view : CString → Option (ℤ × ℤ)} {p : ℕ}
    (hp : p = 0 ∨ p = 1)
    (hview : ∃ p' player m map, some p = some p' ∧ w.players.get p' = some player ∧
      player.map = some m ∧ w.maps.get m = some map ∧ p' ∈ map.players ∧
      (∀ q ∈ map.players, ∃ other k, w.players.get q = some other ∧ other.id = some k) ∧
      ∀ k c, view k = some c ↔ ∃ q ∈ map.players, ∃ other,
        w.players.get q = some other ∧ other.id = some k ∧ (other.x, other.y) = c) :
    view [97] = some (0, 5) ∧ view [98] = some (1, 1) := by
  obtain ⟨p', player, m, map, heq, hplayer, hm, hmap, -, -, hview⟩ := hview
  obtain rfl := Option.some.inj heq
  obtain ⟨map', hmap', -, hplayers, -⟩ := h.map
  have hmap₁ : m = 1 := by
    rcases hp with rfl | rfl
    · obtain rfl := Option.some.inj (h.first_player.symm.trans hplayer)
      exact (Option.some.inj hm).symm
    · obtain rfl := Option.some.inj (h.second_player.symm.trans hplayer)
      exact (Option.some.inj hm).symm
  obtain rfl := Option.some.inj (hmap'.symm.trans (hmap₁ ▸ hmap))
  exact ⟨(hview _ _).mpr ⟨0, by simp [hplayers], _, h.first_player, rfl, rfl⟩,
    (hview _ _).mpr ⟨1, by simp [hplayers], _, h.second_player, rfl, rfl⟩⟩

/-- Each client holds both players, the one that came through the portal at the place behind
it. -/
theorem clientView_eq_throughPortal : ∃ l w,
    Trace (Guarded (Step mapLoaders) DistinctLogin) (boot [gateRecord, farRecord]) l w ∧
      BothArrived w ∧
      (clientView 3 w.out [97] = some (0, 5) ∧ clientView 3 w.out [98] = some (1, 1)) ∧
      clientView 4 w.out [97] = some (0, 5) ∧ clientView 4 w.out [98] = some (1, 1) := by
  obtain ⟨l, w, hrun, harrived⟩ := trace_distinctLogin
  exact ⟨l, w, hrun, harrived,
    harrived.view_eq (.inl rfl) (clientView_eq validRecords_gateRecord goodPortals_mapLoaders hrun
      harrived.first_session rfl),
    harrived.view_eq (.inr rfl) (clientView_eq validRecords_gateRecord goodPortals_mapLoaders hrun
      harrived.second_session rfl)⟩

end World
end MmoBackend
