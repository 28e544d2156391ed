import MmoBackend.World.EmptyMaps
import MmoBackend.World.InspectPlayer
import MmoBackend.World.Portals

/-!
# Where a login puts its player

`player_move` returns 0 for coordinates that are not on the map, and has put the player into
the list of the map by then.  `map_spawn_player` does not look at what it returns; it returns
0 for an id that is not valid and 1 otherwise, while `packet_handle_login` waits for -1.  So a
login that has found a record always answers success, and its way out for a spawn that fails
is never taken.

`SpawnCalls` and `LoginCalls` say that the outcome of the move is not looked at.  The move is
found by putting other functions in its place: `LoginCallsMove` names the state and the
arguments it is called with, and these are unique.  `login_placed_iff` says that success is
true exactly for the records whose coordinates are on their map.
-/

namespace MmoBackend

open Authentication Communication Db Exec Maps Player

namespace World

open Scene

variable {defs : MapDefs} {w w' v : World} {fuel s p : ℕ} {packet : Packet} {session : Session}
  {id : CString} {x y : ℤ} {args : MoveArgs} {r : Option ServerPacket}
  {playerdata : List Document}

/-! ## The move inside a login -/

/-- A login comes to the state `v` and calls there whatever stands for `player_move`, for the
player `p`.  What this call returns is not looked at. -/
def LoginCallsMove (defs : MapDefs) (packet : Packet) (s : ℕ) (w : World) (p : ℕ) (x y : ℤ)
    (args : MoveArgs) (v : World) : Prop :=
  ∃ rest : Exec World (Option ServerPacket), ∀ move,
    packetHandleLoginWith defs (mapSpawnPlayerWith defs move) packet s w
      = (move p x y args >>= fun _ => rest) v

/-- There is one such call. -/
theorem LoginCallsMove.unique {p' : ℕ} {x' y' : ℤ} {args' : MoveArgs} {v' : World}
    (h : LoginCallsMove defs packet s w p x y args v)
    (h' : LoginCallsMove defs packet s w p' x' y' args' v') :
    (p', x', y', args', v') = (p, x, y, args, v) := by
  classical
  obtain ⟨rest, hcalls⟩ := h
  obtain ⟨rest', hcalls'⟩ := h'
  -- a function that stops in one way for the first call and in another for all others
  let probe : ℕ → ℤ → ℤ → MoveArgs → Exec World Bool := fun q a b c u =>
    if (q, a, b, c, u) = (p, x, y, args, v) then .error .fault else .error .deadlock
  by_contra hne
  have hfault : probe p x y args v = .error .fault := if_pos rfl
  have hdeadlock : probe p' x' y' args' v' = .error .deadlock := if_neg hne
  have hruns := (hcalls probe).symm.trans (hcalls' probe)
  rw [bind_of_error hfault, bind_of_error hdeadlock] at hruns
  exact absurd (Except.error.inj hruns) (by decide)

/-- A spawn inside a login that has been read from a record. -/
theorem LoginCalls.callsMove {doc : Document} {player : Player} {m n : ℕ} {map : Map}
    {v w₁ v₂ : World} (h : LoginCalls defs packet s session w id doc player m map v w₁)
    (hspawn : SpawnCalls defs map.id w.players.next player.x player.y 1 n w₁ v₂) :
    LoginCallsMove defs packet s w w.players.next player.x player.y ⟨true, true, some n⟩ v₂ := by
  refine ⟨(sendPositions n w.players.next >>= fun _ => pure 1) >>= loginReply defs packet s,
    fun move => ?_⟩
  rw [h.calls, bind_congr (hspawn move), Exec.assoc]
  rfl

/-! ## What success means -/

/-- The player of the session `s` is in the list of the map that its record `g` has, and the
`player_move` inside the login was called for the coordinates of the record and returned 1. -/
structure PlacedFrom (defs : MapDefs) (fuel : ℕ) (packet : Packet) (s : ℕ) (w w' : World)
    (g : Progress) : Prop where
  listed : ∃ session q i m map, w'.sessions.get s = some session ∧ session.player = some q ∧
    g.mapId = some (i : ℕ) ∧ w'.tiles i = some m ∧ w'.maps.get m = some map ∧ q ∈ map.players
  moved : ∃ q args v v', LoginCallsMove defs packet s w q g.x g.y args v ∧
    playerMove defs fuel q g.x g.y args v = .ok (true, v')

/-- The session may log in with the code as before.  The player is the one that a login
allocates next. -/
structure NotLoggedIn (w w' : World) (s : ℕ) (packet : Packet) (id : CString) : Prop where
  session : ∃ session, w'.sessions.get s = some session ∧ session.state = .disabled ∧
    session.player = none
  roster : ∀ m map, w'.maps.get m = some map → w.players.next ∉ map.players
  token : accountOf w' packet = some id

/-- A login answers success if and only if the player is placed. -/
structure SuccessIsPlaced (defs : MapDefs) (fuel : ℕ) (packet : Packet) (s : ℕ) (id : CString)
    (w : World) (r : Option ServerPacket) (w' : World) : Prop where
  success : r = some (.success packet.id) → ∃ doc g, findById id w.playerdata = some doc ∧
    recordProgress defs doc = some g ∧ PlacedFrom defs fuel packet s w w' g
  otherwise : r ≠ some (.success packet.id) → NotLoggedIn w w' s packet id

/-- The coordinates of the record are on its map. -/
def OnSavedMap (defs : MapDefs) (doc : Document) : Prop :=
  ∀ g i base, recordProgress defs doc = some g → g.mapId = some (i : ℕ) →
    defs.loaders[i]? = some base → mapCheckBounds base g.x g.y = true

/-! ## Logins -/

/-- What a login reads from its record. -/
theorem LoginCalls.progress {doc : Document} {player : Player} {m : ℕ} {map : Map}
    {v w₁ : World} (hw : Sound defs w) (hunsaved : Unsaved playerdata w)
    (h : LoginCalls defs packet s session w id doc player m map v w₁) :
    ∃ i base, map.id = (i : ℕ) ∧ w₁.tiles i = some m ∧ defs.loaders[i]? = some base ∧
      recordProgress defs doc = some (progressOf player (some i)) := by
  obtain ⟨i, hi, htile⟩ := (h.enters.kept.sound hw).map m map h.enters.get_eq
  obtain ⟨doc', g, hdoc, hrecord, hg⟩ := dbPlayerGetPlayer_progress hunsaved h.get_eq
  rw [← hunsaved.playerdata, h.record_eq] at hdoc
  obtain rfl := Option.some.inj hdoc
  obtain ⟨player', mapId, hp, hid, rfl⟩ := progress_eq_some.mp hg
  obtain rfl := Option.some.inj (h.reads.get_eq.symm.trans hp)
  obtain ⟨map', base, hmap', hbase, hframe, -⟩ :=
    (h.reads.kept.sound hw).tile i m (h.tiles_eq ▸ htile)
  rw [h.enters.map_eq, mapIdOf, hmap', Option.map_some, id_of_frame hframe,
    (defs.fresh i base hbase).1] at hid
  obtain rfl := Option.some.inj hid
  exact ⟨i, base, hi, htile, hbase, hrecord⟩

/-- A login that finds a record puts the player into the list of its map. -/
theorem Member.listed_login (hw : Member defs w) {doc : Document} {player : Player} {i m : ℕ}
    {map : Map} {v w₁ : World} {n : ℤ} (hs : w.sessions.get s = some session)
    (hstate : session.state = .disabled)
    (hcalls : LoginCalls defs packet s session w id doc player m map v w₁)
    (hi : map.id = (i : ℕ)) (htile : w₁.tiles i = some m)
    (hspawn : mapSpawnPlayer defs fuel map.id w.players.next player.x player.y 1 w₁
      = .ok (n, w')) :
    ∃ session q m map, w'.sessions.get s = some session ∧ session.player = some q ∧
      w'.tiles i = some m ∧ w'.maps.get m = some map ∧ q ∈ map.players := by
  have henters := hcalls.enters
  have hsound := henters.kept.sound hw.sound
  obtain ⟨⟨session₁, hs₁, -, hq⟩, -, -⟩ := hw.boarding hs hstate henters
  obtain ⟨-, -, hway⟩ := hw.enters hs hstate henters hspawn
  have hs' : w'.sessions.get s = some session₁ :=
    (congrFun hway.moves.session s).trans hs₁
  obtain ⟨player', m', c, hlisted, hone, -⟩ := hway.listed
  -- the journey of the player has led to its map
  have hstart := hw.travelled_enters hs hstate henters htile
  rw [hi] at hspawn
  obtain ⟨-, j, hj, hend⟩ := Travelled.spawn hsound fuel i _ _ 1 _ _ _ _ hstart hspawn
  obtain ⟨hplace, -⟩ := spawnJourney_suppressed (hsound.lt_count htile) hj
  obtain ⟨player'', m'', hp, hm, htile', -⟩ := hend.placed
  obtain rfl := Option.some.inj (hlisted.player_eq.symm.trans hp)
  obtain rfl := Option.some.inj (hlisted.map_eq.symm.trans hm)
  have hc : c = 1 := Nat.le_antisymm hlisted.le_one hone
  obtain ⟨map', hmap', hmem⟩ := mem_roster.mp (hlisted.mem_iff.mpr hc)
  exact ⟨session₁, _, m', map', hs', hq, hplace ▸ htile', hmap', hmem⟩

/-- **A login that finds a record** answers success.  The move inside it returns 1 if and only
if the coordinates are on the map of the player. -/
theorem Member.placed_iff (hw : Member defs w) (hunsaved : Unsaved playerdata w) {doc : Document}
    {player : Player} {m : ℕ} {map : Map} {v w₁ : World} (hs : w.sessions.get s = some session)
    (hstate : session.state = .disabled)
    (hcalls : LoginCalls defs packet s session w id doc player m map v w₁)
    (h : packetHandleLogin defs (fuel + 1) packet s w = .ok (r, w')) :
    r = some (.success packet.id) ∧ ∃ (i : ℕ) (base : Map), defs.loaders[i]? = some base ∧
      recordProgress defs doc = some (progressOf player (some i)) ∧
      (PlacedFrom defs fuel packet s w w' (progressOf player (some i)) ↔
        mapCheckBounds base player.x player.y = true) := by
  rw [← packetHandleLoginWith_eq, hcalls.calls, bind_eq_ok] at h
  obtain ⟨n, w₂, hspawn, hreply⟩ := h
  rw [loginReply, if_neg (mapSpawnPlayer_ne hspawn), pure_eq_ok] at hreply
  obtain ⟨rfl, rfl⟩ := hreply
  obtain ⟨i, base, hi, htile, hbase, hrecord⟩ := hcalls.progress hw.sound hunsaved
  have hsound := hcalls.enters.kept.sound hw.sound
  have hstart := hw.travelled_enters hs hstate hcalls.enters htile
  obtain ⟨session', q, m', map', hs', hq, htile', hmap', hmem⟩ :=
    hw.listed_login hs hstate hcalls hi htile hspawn
  -- the move
  rw [mapSpawnPlayer_succ] at hspawn
  rcases hstart.sent hsound hspawn with ⟨-, hbad⟩ |
    ⟨i', n', base', v₂, moved, v₃, hi', -, hbase', htile₂, -, h₂, hmove, -, hspawnCalls⟩
  · have hlt := hsound.lt_count htile
    omega
  obtain rfl : i = i' := by omega
  obtain rfl := Option.some.inj (hbase.symm.trans hbase')
  obtain ⟨-, -, -, hmoved, -⟩ := h₂.arrives hsound htile₂ hbase hbase hmove
  rw [Bool.and_self] at hmoved
  have hmoveCalled := hcalls.callsMove hspawnCalls
  refine ⟨rfl, i, base, hbase, hrecord, fun hplaced => ?_, fun hin => ?_⟩
  · obtain ⟨q', args, u, u', hcalled, hreturned⟩ := hplaced.moved
    obtain ⟨rfl, -, -, rfl, rfl⟩ := by
      simpa only [Prod.mk.injEq] using hmoveCalled.unique hcalled
    obtain ⟨rfl, -⟩ := Prod.mk.inj (Except.ok.inj (hreturned.symm.trans hmove))
    exact hmoved.symm
  · rw [hin] at hmoved
    subst hmoved
    exact ⟨⟨session', q, i, m', map', hs', hq, rfl, htile', hmap', hmem⟩,
      _, _, v₂, v₃, hmoveCalled, hmove⟩

/-- **A login answers success exactly if the player is placed** for the records whose
coordinates are on their map, and for no others. -/
theorem Member.successIsPlaced_iff (hw : Member defs w) (hunsaved : Unsaved playerdata w)
    (hs : w.sessions.get s = some session) (hstate : session.state = .disabled)
    (haccount : accountOf w packet = some id)
    (h : packetHandleLogin defs (fuel + 1) packet s w = .ok (r, w')) :
    SuccessIsPlaced defs fuel packet s id w r w' ↔
      ∀ doc, findById id playerdata = some doc → OnSavedMap defs doc := by
  rcases packetHandleLogin_calls hw.sound.cache hs h with ⟨hnone, -⟩ |
    ⟨id', haccount', hnone, rfl, rfl⟩ | ⟨id', doc, player, m, map, v, w₁, hcalls⟩
  · exact absurd (haccount.symm.trans hnone) (Option.some_ne_none id)
  · -- no record
    obtain rfl := Option.some.inj (haccount.symm.trans haccount')
    rw [hunsaved.playerdata] at hnone
    refine iff_of_true ⟨fun hsuccess => ?_, fun _ => ⟨?_, fun m map hm hmem => ?_, haccount⟩⟩
      fun doc hdoc => absurd (hdoc.symm.trans hnone) (Option.some_ne_none doc)
    · exact absurd (Option.some.inj hsuccess) (by simp)
    · exact ⟨_, Heap.get_set_self _ hs, hstate, rfl⟩
    · exact hw.membership.player_ne_none (mem_roster.mpr ⟨map, hm, hmem⟩) (Heap.get_next _)
  · -- the answer is success, whatever the move returns
    obtain rfl := Option.some.inj (haccount.symm.trans hcalls.account_eq)
    have hdoc : findById id playerdata = some doc := hunsaved.playerdata ▸ hcalls.record_eq
    obtain ⟨rfl, i, base, hbase, hrecord, hplaced⟩ := hw.placed_iff hunsaved hs hstate hcalls h
    constructor
    · intro hsuccess doc' hdoc' g i' base' hg hmap hbase'
      obtain rfl := Option.some.inj (hdoc.symm.trans hdoc')
      obtain rfl := Option.some.inj (hrecord.symm.trans hg)
      obtain rfl := Int.ofNat.inj (Option.some.inj hmap)
      obtain rfl := Option.some.inj (hbase.symm.trans hbase')
      obtain ⟨doc', g, hdoc', hg, hfrom⟩ := hsuccess.success rfl
      obtain rfl := Option.some.inj (hcalls.record_eq.symm.trans hdoc')
      obtain rfl := Option.some.inj (hrecord.symm.trans hg)
      exact hplaced.mp hfrom
    · intro hon
      exact ⟨fun _ => ⟨doc, _, hcalls.record_eq, hrecord,
        hplaced.mpr (hon doc hdoc _ i base hrecord rfl hbase)⟩, fun hne => absurd rfl hne⟩

/-! ## A login returns

The theorem behind this section is about the logins that return.  These are all logins whose
record has a valid map. -/

theorem mapLoad_table {i : ℤ} {found : Option ℕ} (h : mapLoad defs i w = .ok (found, w')) :
    w'.table = w.table := by
  rcases mapLoad_eq_ok h with ⟨-, -, rfl⟩ | ⟨_, _, _, -, -, -, hloads⟩
  · rfl
  · cases hloads with
    | loaded => rfl
    | created => rfl

theorem readField_table {field : String × Bson} {u : Unit}
    (h : readField defs p field w = .ok (u, w')) : w'.table = w.table := by
  have hset : ∀ {f : Player → Player} {w₁ : World}, updatePlayer p f w₁ = .ok (u, w') →
      w'.table = w₁.table := by
    intro f w₁ h
    obtain ⟨_, -, rfl⟩ := updatePlayer_eq_ok.mp h
    rfl
  have hstring : ∀ {f : CString → Player → Player},
      (Exec.need (bsonGetString field.2) >>= fun s => updatePlayer p (f s)) w = .ok (u, w') →
        w'.table = w.table := by
    intro f h
    obtain ⟨s, _, hs, h⟩ := bind_eq_ok.mp h
    obtain ⟨-, rfl⟩ := need_eq_ok.mp hs
    exact hset h
  rw [readField] at h
  split_ifs at h
  · exact hstring h
  · exact hstring h
  · obtain ⟨_, w₁, hload, h⟩ := bind_eq_ok.mp h
    exact (hset h).trans (mapLoad_table hload)
  · exact hset h
  · exact hset h
  · exact hset h
  · rw [(pure_eq_ok.mp h).2]

/-- Reading a record leaves the codes alone. -/
theorem dbPlayerGetPlayer_table {found : Option ℕ} (hcache : w.cache = [])
    (h : dbPlayerGetPlayer defs id w = .ok (found, w')) : w'.table = w.table := by
  rcases dbPlayerGetPlayer_eq_ok hcache h with ⟨-, -, rfl⟩ | ⟨doc, -, -, hloop⟩
  · rfl
  · exact forEach_invariant (I := fun v => v.table = w.table)
      (fun _ _ _ _ hv hread => (readField_table hread).trans hv) rfl hloop

theorem accountOf_eq_some (h : accountOf w packet = some id) : ∃ code c conn,
    cString packet.data = some code ∧ w.table.entries.lookup code = some c ∧
      w.table.conns c = some conn ∧ w.table.ids conn.id = some id := by
  simp only [accountOf, Option.bind_eq_bind, Option.bind_eq_some_iff] at h
  obtain ⟨code, hcode, c, hlookup, conn, hconn, hid⟩ := h
  exact ⟨code, c, conn, hcode, hlookup, hconn, hid⟩

theorem Scene.MembershipBut.peopled {sc : Scene} (h : sc.MembershipBut s p)
    (hroams : sc.RoamsWith s p) : sc.Peopled p := by
  intro m q hq hne
  obtain ⟨sid, session', hs', hroaming, hplayer⟩ := h.listed m q hq hne
  have hsid : sid ≠ s := by
    rintro rfl
    obtain ⟨session, hs, -, hp⟩ := hroams
    obtain rfl := Option.some.inj (hs.symm.trans hs')
    exact hne (Option.some.inj (hplayer.symm.trans hp))
  obtain ⟨q', -, hq', player, _, k, hlisted, hid, hsession⟩ :=
    h.roaming sid hsid session' hs' hroaming
  obtain rfl := Option.some.inj (hplayer.symm.trans hq')
  exact ⟨player, k, sid, session', hlisted.player_eq, hid, hsession, hs'⟩

/-- A login without a record answers failure. -/
theorem login_noRecord (hunsaved : Unsaved playerdata w) (hs : w.sessions.get s = some session)
    (haccount : accountOf w packet = some id) (hdoc : findById id playerdata = none) :
    packetHandleLogin defs (fuel + 1) packet s w
      = .ok (some (.failure packet.id), w.setSession s { session with player := none }) := by
  obtain ⟨code, c, conn, hcode, hlookup, hconn, hid⟩ := accountOf_eq_some haccount
  have hread : readPlayer defs id w = .ok (none, w) := by
    rw [readPlayer, get_bind, hunsaved.playerdata, hdoc]
    rfl
  have hget : dbPlayerGetPlayer defs id w = .ok (none, w) :=
    (bind_of_ok hunsaved.playerCacheFind_run).trans hread
  have hfind := AwaitingTable.find_of_some hlookup hconn
  rw [packetHandleLogin, hcode, need_some_bind]
  refine (bind_of_ok (onTable_eq_ok.mpr ⟨_, hfind, rfl⟩)).trans ?_
  refine (bind_of_ok (t := w) (a := w) rfl).trans ?_
  rw [hid, need_some_bind, loginAs, bind_of_ok hget]
  exact bind_of_ok ((updateSession_eq_ok (u := ())).mpr ⟨session, hs, rfl⟩)

/-- **A login returns** if its code is in the table and the record, if there is one, has a valid
map. -/
theorem Member.login_returns (hdefs : defs.WellShaped) (hw : Member defs w)
    (hshapely : Shapely w) (hunsaved : Unsaved playerdata w)
    (hs : w.sessions.get s = some session) (hstate : session.state = .disabled)
    (haccount : accountOf w packet = some id)
    (hrecord : ∀ doc, findById id playerdata = some doc →
      ∃ g i, recordProgress defs doc = some g ∧ g.mapId = some i) (fuel : ℕ) :
    ∃ r w', packetHandleLogin defs (fuel + 1) packet s w = .ok (r, w') := by
  cases hdoc : findById id playerdata with
  | none => exact ⟨_, _, login_noRecord hunsaved hs haccount hdoc⟩
  | some doc =>
    obtain ⟨code, c, conn, hcode, hlookup, hconn, hid⟩ := accountOf_eq_some haccount
    obtain ⟨g, i, hg, hmapId⟩ := hrecord doc hdoc
    obtain ⟨q, v, hget, hprogress⟩ := dbPlayerGetPlayer_returns hunsaved hdoc hg
    rcases dbPlayerGetPlayer_found hw.sound.cache hget with ⟨-, hnone, -⟩ |
      ⟨doc', player, hdoc', hq, hreads, hpid⟩
    · exact absurd hnone (Option.some_ne_none q)
    obtain rfl := Option.some.inj hq
    -- the record has a map, so the player has one
    obtain ⟨player', mapId, hp, hmap, rfl⟩ := progress_eq_some.mp hprogress
    obtain rfl := Option.some.inj (hreads.get_eq.symm.trans hp)
    obtain rfl : mapId = some i := hmapId
    obtain ⟨m, map, hm, hmap, -⟩ := mapIdOf_eq_some.mp hmap
    have htable := dbPlayerGetPlayer_table hw.sound.cache hget
    obtain ⟨t, hremove⟩ := AwaitingTable.remove_returns hlookup hconn hid
    rw [← htable] at hremove
    have hcalls := loginCalls_boarded hs hcode hlookup hconn hid
      (hunsaved.playerdata ▸ hdoc) hget hreads hpid hm hmap hremove
    -- the spawn runs no events
    obtain ⟨hroams, hbut, -⟩ := hw.boarding hs hstate hcalls.enters
    have hsound := hcalls.enters.kept.sound hw.sound
    have hlocks : v.locks = [] :=
      (within_dbPlayerGetPlayer _ _ _ _ hget).locks_eq.trans hunsaved.locks
    have hsturdy := Sturdy.mk (hw.afoot_enters hdefs hshapely hs hstate hcalls.enters) hsound
      hlocks
    obtain ⟨n, w', hspawn⟩ := (spawnsStop_dormant hdefs (hbut.peopled hroams) fuel map.id player.x
      player.y 1 _ ⟨hsound.id_ne_count hcalls.enters.get_eq, Or.inl rfl⟩ hsturdy).1.exists_ok
    refine ⟨some (.success packet.id), w', ?_⟩
    rw [← packetHandleLoginWith_eq, hcalls.calls, bind_of_ok hspawn, loginReply,
      if_neg (mapSpawnPlayer_ne hspawn)]
    rfl

/-! ## Runs of the server -/

/-- **What a login answers.**  In every state of every run a login with a code that is in the
table answers success exactly if the player is placed, if and only if the account has no
record or the coordinates of the record are on its map.  The error of an earlier login may be
reported in front of it. -/
theorem login_placed_iff {l : List (Request × World)}
    (hrun : Trace (Step defs) (boot playerdata) l w) (hs : w.sessions.get s = some session)
    (hstate : session.state = .disabled) (haccount : accountOf w packet = some id)
    (sent : List (ℕ × Sent))
    (h : packetHandleLogin defs (fuel + 1) packet s (w.emit sent) = .ok (r, w')) :
    SuccessIsPlaced defs fuel packet s id (w.emit sent) r w' ↔
      ∀ doc, findById id playerdata = some doc → OnSavedMap defs doc := by
  have hrecorded := (recorded_run hrun).emit sent
  exact hrecorded.member.successIsPlaced_iff hrecorded.unsaved hs hstate haccount h

/-- The server when a client has connected and its code has arrived, with one record. -/
def waiting (doc : Document) : World := { afterToken with playerdata := [doc] }

theorem trace_waiting (doc : Document) : Trace (Step mapLoaders) (boot [doc])
    [(.connect 3, { afterConnect with playerdata := [doc] }), (.token [49] [97] 0, waiting doc)]
    (waiting doc) := by
  have hconnect : Step mapLoaders (boot [doc]) (.connect 3)
      { afterConnect with playerdata := [doc] } :=
    .connect (s := 0) (fun _ _ h => absurd h.symm (Option.some_ne_none _)) rfl
  exact (Trace.nil.snoc hconnect).snoc (.token (show onTable _ _ = .ok (true, _) from rfl))

/-- A record with coordinates that are not on its map. -/
def strayRecord : Document where
  fields := [("id", .utf8 [97]), ("map", .int32 0), ("x", .int32 40), ("y", .int32 1),
    ("max_move", .int32 1)]
  nodup := by decide

/-- A login with a record on its map answers success and is placed. -/
theorem login_placed_iff_firstRecord : ∃ w',
    packetHandleLogin mapLoaders 1 firstLogin 0 (waiting firstRecord)
      = .ok (some (.success 7), w') ∧
    SuccessIsPlaced mapLoaders 0 firstLogin 0 [97] (waiting firstRecord)
      (some (.success 7)) w' := by
  have hvalue : (packetHandleLogin mapLoaders 1 firstLogin 0).value (waiting firstRecord)
      = some (some (.success 7)) := by decide +kernel
  obtain ⟨w', hlogin⟩ := Exec.value_eq_some.mp hvalue
  have hemit : packetHandleLogin mapLoaders (0 + 1) firstLogin 0 ((waiting firstRecord).emit [])
      = .ok (some (.success 7), w') := by rwa [emit_nil]
  have hiff := login_placed_iff (trace_waiting firstRecord) (s := 0) rfl rfl
    (by decide : accountOf (waiting firstRecord) firstLogin = some [97]) [] hemit
  rw [emit_nil] at hiff
  refine ⟨w', hlogin, hiff.mpr fun doc hdoc g i base hg hmap hbase => ?_⟩
  obtain rfl := Option.some.inj hdoc
  have hsaved : recordProgress mapLoaders firstRecord = some ⟨none, some 0, 1, 1, 1⟩ := by decide
  obtain rfl := Option.some.inj (hsaved.symm.trans hg)
  obtain rfl : 0 = i := Int.ofNat.inj (Option.some.inj hmap)
  obtain rfl := Option.some.inj hbase
  decide

/-- A login with a record off its map answers success too. -/
theorem not_successIsPlaced : ∃ l w w', Trace (Step mapLoaders) (boot [strayRecord]) l w ∧
    w.sessions.get 0 = some ⟨3, .disabled, none⟩ ∧ accountOf w firstLogin = some [97] ∧
    findById [97] w.playerdata = some strayRecord ∧
    recordProgress mapLoaders strayRecord = some ⟨none, some 0, 40, 1, 1⟩ ∧
    packetHandleLogin mapLoaders 1 firstLogin 0 w = .ok (some (.success 7), w') ∧
    ¬SuccessIsPlaced mapLoaders 0 firstLogin 0 [97] w (some (.success 7)) w' := by
  have hvalue : (packetHandleLogin mapLoaders 1 firstLogin 0).value (waiting strayRecord)
      = some (some (.success 7)) := by decide +kernel
  have hsaved : recordProgress mapLoaders strayRecord = some ⟨none, some 0, 40, 1, 1⟩ := by decide
  have haccount : accountOf (waiting strayRecord) firstLogin = some [97] := by decide
  have hdoc : findById [97] [strayRecord] = some strayRecord := rfl
  obtain ⟨w', hlogin⟩ := Exec.value_eq_some.mp hvalue
  have hrun := trace_waiting strayRecord
  have hrecorded := recorded_run hrun
  refine ⟨_, _, w', hrun, rfl, haccount, hdoc, hsaved, hlogin, fun hsuccess => ?_⟩
  have hon := (hrecorded.member.successIsPlaced_iff hrecorded.unsaved rfl rfl haccount hlogin).mp
    hsuccess strayRecord hdoc
  exact absurd (hon _ 0 mapDefTestTile hsaved rfl rfl) (by decide)

end World
end MmoBackend
