import MmoBackend.Library.Trace
import MmoBackend.World.Login

/-!
# The cells players stand on

The cell a player stands on should not be walkable.  A move sees to it in two steps: it
disables the new cell and enables the old one.  A login spawns the player where it
already is, because the record has been read into it, and then the new cell is the old
one and ends up enabled.

So a state with `Occupied` does not survive a login.  Before the first login nobody is
on a map, and `occupied_iff` says that the runs in which every state is `Occupied` are
exactly the runs in which no login finds its record.
-/

namespace MmoBackend

open Authentication Communication Db Maps Player

namespace World

open Scene

variable {defs : MapDefs} {w w' : World}

/-! ## Occupied cells -/

/-- No cell on which a player of a map's list stands is walkable. -/
def Occupied (w : World) : Prop :=
  ∀ m map q player m' map', w.maps.get m = some map → q ∈ map.players →
    w.players.get q = some player → player.map = some m' → w.maps.get m' = some map' →
    mapCoordIsWalkable map' player.x player.y = some false

/-- A request to log in an account that has a record. -/
def LogsIn (w : World) (a : Request) : Prop :=
  ∃ id doc, LoginFor w a id ∧ findById id w.playerdata = some doc

/-! ## Spawning on the spot -/

section Spot

variable {fuel n p : ℕ} {map : Map} {player : Player} {k : CString} {x y : ℤ} {r : Bool}

/-- A move that suppresses events does nothing to the maps after it has released the old
cell. -/
theorem maps_moveTo {activate : ℤ → ℤ → ℕ → ℕ → Exec World Unit} {m : ℕ} {u : Unit}
    (hp : w.players.get p = some player) (hm : player.map = some m)
    (h : moveTo activate p x y true w = .ok (u, w')) : w'.maps = w.maps := by
  obtain ⟨w₁, htrigger, hannounce⟩ := moveTo_eq_ok hp h
  rcases triggerEvents_eq_ok htrigger with ⟨-, rfl⟩ | ⟨hfalse, -⟩
  · have hp₁ : (w.setPlayer p { player with x := x, y := y }).players.get p
        = some { player with x := x, y := y } := Heap.get_set_self _ hp
    have hm₁ : ({ player with x := x, y := y } : Player).map = some m := hm
    rcases announce_eq_ok hp₁ hm₁ hannounce with ⟨-, rfl⟩ | ⟨_, _, -, -, rfl⟩
    · rfl
    · rfl
  · exact absurd hfalse (by simp)

/-- The positions that are sent at the end do nothing to the maps. -/
theorem maps_sendPositions {u : Unit} (h : sendPositions n p w = .ok (u, w')) :
    w'.maps = w.maps := by
  simp only [sendPositions, Exec.bind_eq_ok, derefMap_eq_ok] at h
  obtain ⟨_, _, ⟨-, rfl⟩, hloop⟩ := h
  refine Exec.forEach_invariant (I := fun v => v.maps = w.maps) (fun q _ v v' hv hq => ?_) rfl hloop
  rw [sendPosition, Exec.ite_eq_ok] at hq
  rcases hq with ⟨-, hq⟩ | ⟨-, hq⟩
  · exact (Exec.pure_eq_ok.mp hq).2 ▸ hv
  · simp only [Exec.bind_eq_ok, derefPlayer_eq_ok, Exec.need_eq_ok] at hq
    obtain ⟨_, _, ⟨-, rfl⟩, packet, _, ⟨-, rfl⟩, hq⟩ := hq
    rw [(writeToPlayer_eq_ok hq).2]
    exact hv

/-- **A spawn on the spot** leaves the cell of the player walkable. -/
theorem playerMove_onSpot (hw : Sound defs w) (hp : w.players.get p = some player)
    (hn : player.map = some n) (hk : player.id = some k)
    (hrefs : player.refs = if p ∈ w.scene.roster n then 2 else 1)
    (hmap : w.maps.get n = some map) (hon : mapCheckBounds map player.x player.y = true)
    (h : playerMove defs fuel p player.x player.y ⟨true, true, some n⟩ w = .ok (r, w')) :
    ∃ map', w'.maps.get n = some map' ∧
      mapCoordIsWalkable map' player.x player.y = some true := by
  obtain ⟨w₁, w₂, w₃, disabled, -, -, hp₁, htoggle, henable, hmove⟩ :=
    playerMove_moved hw hp hn hk hrefs hmap hon hmap hon h
  obtain ⟨-, -, hplayers₂⟩ := toggleCoord_scene defs htoggle
  obtain ⟨-, -, hplayers₃⟩ := enableOldCoord_scene defs henable
  have hp₂ := hplayers₂ ▸ hp₁
  have hp₃ := hplayers₃ ▸ hp₂
  -- the cell that is released is the one that was taken
  simp only [enableOldCoord, Exec.bind_eq_ok, derefPlayer_eq_ok] at henable
  obtain ⟨mover, _, ⟨hmover, rfl⟩, henable⟩ := henable
  obtain rfl := Option.some.inj (hp₂.symm.trans hmover)
  obtain ⟨map₂, map₃, hmap₂, hswitch, rfl⟩ := toggleCoord_eq_ok henable
  refine ⟨map₃, ?_, mapCoordIsWalkable_of_mapToggleCoord hswitch⟩
  rw [maps_moveTo hp₃ rfl hmove]
  exact Heap.get_set_self map₃ hmap₂

end Spot

/-! ## Logins -/

section Boarding

variable {fuel s i m : ℕ} {session : Session} {id : CString} {player : Player} {base : Map}
  {w₁ w₂ : World} {n : ℤ}

/-- **A player that logs in** ends up on a walkable cell. -/
theorem Boards.not_occupied (hw : Sound defs w) (hvacant : ∀ m, w.scene.roster m = [])
    (h : Boards defs w s session id player i m base w₁)
    (hspawn : mapSpawnPlayer defs fuel i w.players.next player.x player.y 1 w₁ = .ok (n, w₂)) :
    n = 1 ∧ ¬Occupied w₂ := by
  have hw₁ := h.kept.sound hw
  have hroster : w₁.scene.roster = w.scene.roster := by
    rw [h.scene_eq]
    rfl
  have hrefs : player.refs = if w.players.next ∈ w₁.scene.roster m then 2 else 1 := by
    rw [hroster, hvacant m, if_neg List.not_mem_nil]
    exact h.refs_eq
  have hp₁ : w₁.players.get w.players.next = some { player with session := some s } := by
    have hget := congrFun (congrArg Scene.player h.scene_eq) w.players.next
    exact hget.trans (Function.update_self _ _ _)
  have hs₁ : w₁.sessions.get s
      = some { session with player := some w.players.next, state := .roaming } := by
    have hget := congrFun (congrArg Scene.session h.scene_eq) s
    exact hget.trans (Function.update_self _ _ _)
  obtain ⟨map, base', hmap, hbase, hframe, -⟩ := hw₁.tile i m h.tile_eq
  obtain rfl := Option.some.inj (h.base_eq.symm.trans hbase)
  have hon : mapCheckBounds map player.x player.y = true := by
    rw [mapCheckBounds_of_frame hframe]
    exact h.bounds
  -- the player is on the list of the map, where its record says
  obtain ⟨hn, hkept, n', packet, htile, -, hscene⟩ := mapSpawnPlayer_scene hw₁ hp₁ h.map_eq
    h.id_eq rfl hs₁ hrefs hmap hon h.base_eq h.bounds (Or.inl rfl) hspawn
  -- its cell is walkable
  obtain ⟨-, n'', packet', w₃, moved, w₄, -, hkept₃, htile₃, hscene₃, hmove, hpositions⟩ :=
    mapSpawnPlayer_eq_ok hw₁ hp₁ rfl hs₁ h.base_eq hspawn
  obtain rfl := Option.some.inj ((hkept₃.tiles i m h.tile_eq).symm.trans htile₃)
  obtain rfl := Option.some.inj ((hkept.tiles i m h.tile_eq).symm.trans htile)
  obtain ⟨map₃, hmap₃, hframe₃⟩ := hkept₃.maps m map hmap
  have hp₃ : w₃.players.get w.players.next = some { player with session := some s } :=
    (congrFun (congrArg Scene.player hscene₃) _).trans hp₁
  obtain ⟨map₄, hmap₄, hwalkable⟩ := playerMove_onSpot (hkept₃.sound hw₁) hp₃ h.map_eq h.id_eq
    (by rw [hscene₃]; exact hrefs) hmap₃
    (by rw [mapCheckBounds_of_frame hframe₃]; exact hon) hmove
  refine ⟨hn, fun hoccupied => ?_⟩
  have hlisted : w.players.next ∈ w₂.scene.roster m := by
    rw [hscene]
    exact mem_roster_arrive
  have hp₂ := (congrFun (congrArg Scene.player hscene) w.players.next).trans player_settle_self
  obtain ⟨map₅, hmap₅, hmem⟩ := mem_roster.mp hlisted
  rw [← maps_sendPositions hpositions] at hmap₄
  obtain rfl := Option.some.inj (hmap₄.symm.trans hmap₅)
  have hfalse := hoccupied m _ _ _ m _ hmap₅ hmem hp₂ rfl hmap₅
  exact absurd (hwalkable.symm.trans hfalse) (by simp)

end Boarding

/-! ## Runs without a login -/

/-- Nobody is on a map and nobody is logged in. -/
structure Vacant (defs : MapDefs) (w : World) : Prop where
  sound : Sound defs w
  records : ValidRecords defs w.playerdata
  roster : ∀ m, w.scene.roster m = []
  sessions : ∀ sid session, w.sessions.get sid = some session →
    session.state = .disabled ∧ session.player = none

theorem vacant_boot {playerdata : List Document} (h : ValidRecords defs playerdata) :
    Vacant defs (boot playerdata) :=
  ⟨sound_boot playerdata, h, fun _ => rfl, fun _ _ hsid => absurd hsid.symm (Option.some_ne_none _)⟩

theorem Vacant.occupied (hw : Vacant defs w) : Occupied w := by
  intro m map q _ _ _ hmap hq
  have hmem := mem_roster.mpr ⟨map, hmap, hq⟩
  rw [hw.roster m] at hmem
  exact absurd hmem List.not_mem_nil

/-- Something is written, and nothing else. -/
theorem Vacant.emit (hw : Vacant defs w) (l : List (ℕ × Sent)) : Vacant defs (w.emit l) :=
  ⟨(Kept.emit l).sound hw.sound, hw.records, hw.roster, hw.sessions⟩

section Requests

variable {fuel s : ℕ} {packet : Packet} {session : Session} {r : Option ServerPacket}

/-- What a packet does when nobody is logged in: it logs nobody in and changes nothing, or
it logs somebody in. -/
theorem Vacant.loginResult (hw : Vacant defs w) (hsession : w.sessions.get s = some session)
    (h : LoginResult defs fuel packet s session w r w') :
    (Vacant defs w' ∧ Silent r ∧
        ∀ id doc, accountOf w packet = some id → findById id w.playerdata ≠ some doc) ∨
      ¬Occupied w' ∧ Silent r ∧
        ∃ id doc, accountOf w packet = some id ∧ findById id w.playerdata = some doc := by
  cases h with
  | unknown hnone =>
    refine Or.inl ⟨⟨(Kept.setErrno _).sound hw.sound, hw.records, hw.roster, hw.sessions⟩,
      silent_none, fun id _ hid => ?_⟩
    exact absurd (hid.symm.trans hnone) (Option.some_ne_none id)
  | @noRecord id haccount hnone =>
    have hsame : { session with player := none } = session := by
      rw [← (hw.sessions s session hsession).2]
    rw [hsame, setSession, Heap.set_eq_self hsession]
    refine Or.inl ⟨hw, silent_some rfl, fun id' doc hid' => ?_⟩
    obtain rfl := Option.some.inj (haccount.symm.trans hid')
    rw [hnone]
    exact fun hdoc => absurd hdoc.symm (Option.some_ne_none doc)
  | @spawned id _ _ _ _ _ _ _ _ doc _ haccount hdoc hboards hspawn hreply =>
    obtain ⟨rfl, hnot⟩ := hboards.not_occupied hw.sound hw.roster hspawn
    rw [loginReply, if_neg (by omega), Exec.pure_eq_ok] at hreply
    obtain ⟨rfl, rfl⟩ := hreply
    exact Or.inr ⟨hnot, silent_some rfl, id, doc, haccount, hdoc⟩

end Requests

/-- **One step** of a server nobody is logged in to.  It logs somebody in, and then a cell
is not occupied, or it does not. -/
theorem Vacant.step {a : Request} (hw : Vacant defs w) (h : Step defs w a w') :
    Vacant defs w' ∧ ¬LogsIn w a ∨ ¬Occupied w' ∧ LogsIn w a := by
  cases h with
  | @connect _ fd s _ hcreate =>
    obtain rfl := sessionCreate_eq_ok hcreate
    refine Or.inl ⟨⟨(Kept.newSession _).sound hw.sound, hw.records, hw.roster,
      fun sid session hsid => ?_⟩, ?_⟩
    · rcases Heap.get_alloc_eq_some hsid with ⟨-, rfl⟩ | ⟨-, hold⟩
      · exact ⟨rfl, rfl⟩
      · exact hw.sessions sid session hold
    · rintro ⟨_, _, ⟨_, _, _, ha, -⟩, -⟩
      exact Request.noConfusion ha
  | token hinsert =>
    obtain ⟨t, -, rfl⟩ := onTable_eq_ok.mp hinsert
    refine Or.inl ⟨⟨(Kept.setTable t).sound hw.sound, hw.records, hw.roster, hw.sessions⟩, ?_⟩
    rintro ⟨_, _, ⟨_, _, _, ha, -⟩, -⟩
    exact Request.noConfusion ha
  | @packet _ s fuel packet hloop =>
    obtain ⟨session, hsession, hround⟩ := eventLoop_eq_ok hloop
    have hdisabled := (hw.sessions s session hsession).1
    have hlogin : ∀ id, LoginFor w (.packet s packet) id →
        packet.opcode = loginPacket ∧ accountOf w packet = some id := by
      rintro id ⟨_, _, _, ha, hop, -, -, haccount⟩
      obtain ⟨rfl, rfl⟩ := Request.packet.inj ha
      exact ⟨hop, haccount⟩
    rcases hround with ⟨hverify, rfl⟩ | ⟨hverify, r, w₁, hroute, hrespond⟩
    · refine Or.inl ⟨hw.emit _, ?_⟩
      rintro ⟨id, _, hfor, -⟩
      rw [sessionVerifyPacket, hdisabled, (hlogin id hfor).1] at hverify
      exact absurd hverify (by decide)
    · have hop := opcode_of_disabled hverify hdisabled
      rw [packetHandleRoute_login hop] at hroute
      generalize errorReport session.fd w.packetErrno = l at hroute
      have hresult := packetHandleLogin_eq_ok (hw.emit l).sound hw.records hsession hroute
      rcases (hw.emit l).loginResult hsession hresult with ⟨hw₁, hsilent, hnone⟩ |
        ⟨hnot, hsilent, id, doc, haccount, hdoc⟩
      · obtain ⟨l', rfl, -⟩ := respond_eq_ok hsilent hrespond
        refine Or.inl ⟨hw₁.emit l', ?_⟩
        rintro ⟨id, doc, hfor, hdoc⟩
        exact hnone id doc (hlogin id hfor).2 hdoc
      · obtain ⟨l', rfl, -⟩ := respond_eq_ok hsilent hrespond
        exact Or.inr ⟨hnot, id, doc, ⟨s, packet, session, rfl, hop, hsession, hdisabled, haccount⟩,
          hdoc⟩

/-- **Occupancy.**  In a run every state is `Occupied` if and only if no step of it logs
in an account that has a record. -/
theorem occupied_iff {playerdata : List Document} {l : List (Request × World)}
    (hrecords : ValidRecords defs playerdata) (h : Trace (Step defs) (boot playerdata) l w) :
    (∀ e ∈ l, Occupied e.2) ↔
      Trace (Guarded (Step defs) fun w a => ¬LogsIn w a) (boot playerdata) l w := by
  have hvacant : ∀ t a u, Vacant defs t → Guarded (Step defs) (fun w a => ¬LogsIn w a) t a u →
      Vacant defs u := by
    intro t a u ht hstep
    rcases ht.step hstep.1 with ⟨hu, -⟩ | ⟨-, hlogs⟩
    · exact hu
    · exact absurd hlogs hstep.2
  constructor
  · intro hoccupied
    induction h with
    | nil => exact Trace.nil
    | @snoc l t u a _ hstep ih =>
      have hrun := ih fun e he => hoccupied e (List.mem_append_left _ he)
      refine hrun.snoc ⟨hstep, fun hlogs => ?_⟩
      have ht : Vacant defs t :=
        Trace.invariant (I := Vacant defs) hvacant (vacant_boot hrecords) hrun
      rcases ht.step hstep with ⟨-, hnot⟩ | ⟨hnot, -⟩
      · exact hnot hlogs
      · exact hnot (hoccupied (a, u) (List.mem_append_right l List.mem_cons_self))
  · intro hrun e he
    exact (Trace.invariant_mem (I := Vacant defs) hvacant (vacant_boot hrecords) hrun e he).occupied

/-- The first login of a server, as a run. -/
theorem trace_firstLogin : ∃ l w map player, Trace (Step mapLoaders) (boot [firstRecord]) l w ∧
    w.maps.get 0 = some map ∧ 0 ∈ map.players ∧ w.players.get 0 = some player ∧
    player.map = some 0 ∧ mapCoordIsWalkable map player.x player.y = some true := by
  obtain ⟨w, map, player, hloop, -, hmap, hplayers, hp, hm, hwalkable, -⟩ := eventLoop_firstLogin
  exact ⟨_, w, map, player,
    ((Trace.nil.snoc step_afterConnect).snoc step_afterToken).snoc (Step.packet hloop), hmap,
    by rw [hplayers]; exact List.mem_cons_self, hp, hm, hwalkable⟩

/-- The first login leaves its player on a walkable cell. -/
theorem not_occupied_firstLogin : ValidRecords mapLoaders [firstRecord] ∧
    ∃ l w, Trace (Step mapLoaders) (boot [firstRecord]) l w ∧ ¬Occupied w := by
  obtain ⟨l, w, map, player, hrun, hmap, hmem, hp, hm, hwalkable⟩ := trace_firstLogin
  refine ⟨validRecords_firstRecord, l, w, hrun, fun hoccupied => ?_⟩
  have hfalse := hoccupied 0 map 0 player 0 map hmap hmem hp hm hmap
  exact absurd (hwalkable.symm.trans hfalse) (by simp)

/-- What the theorem says about this run. -/
theorem occupied_iff_firstLogin : ∃ l w, Trace (Step mapLoaders) (boot [firstRecord]) l w ∧
    ((∀ e ∈ l, Occupied e.2) ↔
      Trace (Guarded (Step mapLoaders) fun w a => ¬LogsIn w a) (boot [firstRecord]) l w) := by
  obtain ⟨l, w, _, _, hrun, -⟩ := trace_firstLogin
  exact ⟨l, w, hrun, occupied_iff validRecords_firstRecord hrun⟩

end World
end MmoBackend
