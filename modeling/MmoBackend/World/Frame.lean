import MmoBackend.World.Server

/-!
# What a move does not touch

A move writes to maps and players and to the sockets, and it may load and free maps.  The
sessions, the codes that may log in and the error number are none of its business, and it
makes no players.  `Beside` says this of a call, and it is proved by going over the text.
-/

namespace MmoBackend

open Authentication Communication Db Exec Maps

namespace World

/-- The sessions, the codes, the error number and the number of players are the same. -/
structure Beside (w w' : World) : Prop where
  sessions : w'.sessions = w.sessions
  table : w'.table = w.table
  packetErrno : w'.packetErrno = w.packetErrno
  next : w'.players.next = w.players.next

instance : IsPreorder World Beside where
  refl _ := ⟨rfl, rfl, rfl, rfl⟩
  trans _ _ _ h h' := ⟨h'.sessions.trans h.sessions, h'.table.trans h.table,
    h'.packetErrno.trans h.packetErrno, h'.next.trans h.next⟩

variable {defs : MapDefs}

/-! ## Memory and locks -/

theorem beside_derefMap (m : ℕ) : Within Beside (derefMap m) :=
  within_of_state_eq fun _ _ _ h => (derefMap_eq_ok.mp h).2

theorem beside_derefPlayer (p : ℕ) : Within Beside (derefPlayer p) :=
  within_of_state_eq fun _ _ _ h => (derefPlayer_eq_ok.mp h).2

theorem beside_derefSession (s : ℕ) : Within Beside (derefSession s) :=
  within_of_state_eq fun _ _ _ h => (derefSession_eq_ok.mp h).2

theorem beside_updateMap (m : ℕ) (f : Map → Map) : Within Beside (updateMap m f) :=
  within_bind (beside_derefMap m) fun _ => within_modify fun _ => ⟨rfl, rfl, rfl, rfl⟩

theorem beside_updatePlayer (p : ℕ) (f : Player → Player) : Within Beside (updatePlayer p f) :=
  within_bind (beside_derefPlayer p) fun _ => within_modify fun _ => ⟨rfl, rfl, rfl, rfl⟩

theorem beside_lock (l : Lock) : Within Beside (lock l) :=
  within_get_bind fun _ => within_ite (within_stop _) (within_modify fun _ => ⟨rfl, rfl, rfl, rfl⟩)

theorem beside_unlock (l : Lock) : Within Beside (unlock l) :=
  within_modify fun _ => ⟨rfl, rfl, rfl, rfl⟩

theorem beside_writeSession (s : ℕ) (packet : ServerPacket) :
    Within Beside (derefSession s >>= fun session => packetWrite session.fd packet) :=
  within_bind (beside_derefSession s) fun _ => within_modify fun _ => ⟨rfl, rfl, rfl, rfl⟩

/-! ## Loading and freeing -/

theorem beside_mapLoad (id : ℤ) : Within Beside (mapLoad defs id) := by
  have htile : ∀ i map, Within Beside (ensureTile i map) := by
    refine fun i map => within_get_bind fun w => ?_
    cases w.tiles i with
    | some m => exact within_pure m
    | none =>
      exact within_bind (within_modify fun _ => ⟨rfl, rfl, rfl, rfl⟩) fun _ => within_pure _
  exact within_ite (within_pure _) (within_need_bind fun map _ => within_bind (beside_lock _)
    fun _ => within_bind (htile _ map) fun m => within_bind (beside_updateMap m _) fun _ =>
      within_bind (beside_unlock _) fun _ => within_get_bind fun _ => within_pure _)

section Free

variable {free : ℕ → Exec World Unit} (hfree : ∀ p, Within Beside (free p))

include hfree

theorem beside_mapUnloadWith (id : ℤ) : Within Beside (mapUnloadWith defs free id) := by
  have hmap : ∀ m, Within Beside (mapFree free m) := fun m =>
    within_bind (beside_derefMap m) fun _ => within_bind (within_forEach fun p _ => hfree p)
      fun _ => within_modify fun _ => ⟨rfl, rfl, rfl, rfl⟩
  have hunref : ∀ i m, Within Beside (unrefTile free i m) := fun i m =>
    within_bind (beside_derefMap m) fun _ =>
      within_bind (within_modify fun _ => ⟨rfl, rfl, rfl, rfl⟩) fun _ =>
        within_ite (within_bind (hmap m) fun _ => within_modify fun _ => ⟨rfl, rfl, rfl, rfl⟩)
          (within_pure ())
  refine within_ite (within_pure ()) (within_need_bind fun _ _ => within_get_bind fun w => ?_)
  cases w.tiles id.toNat with
  | none => exact within_pure ()
  | some m =>
    exact within_bind (beside_lock _) fun _ => within_bind (hunref _ m) fun _ => beside_unlock _

theorem beside_releasePlayer (p : ℕ) : Within Beside (releasePlayer defs free p) := by
  have hwrite : Within Beside (writeModified p) :=
    within_bind (beside_derefPlayer p) fun _ => within_ite (within_pure ())
      (within_bind (beside_derefPlayer p) fun _ => within_need_bind fun _ _ =>
        within_need_bind fun _ _ => within_need_bind fun m _ =>
          within_bind (beside_derefMap m) fun _ => within_modify fun _ => ⟨rfl, rfl, rfl, rfl⟩)
  have hunload : Within Beside (unloadPlayerMap defs free p) := by
    refine within_bind (beside_derefPlayer p) fun player => ?_
    cases player.map with
    | none => exact within_pure ()
    | some m => exact within_bind (beside_derefMap m) fun _ => beside_mapUnloadWith hfree _
  have hremove : ∀ id, Within Beside (playerCacheRemove free id) := by
    refine fun id => within_get_bind fun w => ?_
    cases w.cache.lookup id with
    | none => exact within_pure ()
    | some q =>
      exact within_bind (within_modify fun _ => ⟨rfl, rfl, rfl, rfl⟩) fun _ =>
        within_bind (beside_derefPlayer q) fun _ => within_ite (within_pure ()) (hfree q)
  have huncache : Within Beside (uncachePlayer free p) := by
    refine within_bind (beside_derefPlayer p) fun player => ?_
    cases player.id with
    | none => exact within_pure ()
    | some id => exact hremove id
  exact within_bind hwrite fun _ => within_bind hunload fun _ => within_bind huncache fun _ =>
    within_bind (beside_unlock _) fun _ => within_modify fun _ => ⟨rfl, rfl, rfl, rfl⟩

theorem beside_playerFreeWith (p : ℕ) : Within Beside (playerFreeWith defs free p) :=
  within_bind (beside_lock _) fun _ => within_bind (beside_lock _) fun _ =>
    within_bind (beside_updatePlayer p _) fun _ => within_bind (beside_derefPlayer p) fun _ =>
      within_ite (within_bind (beside_unlock _) fun _ => beside_unlock _)
        (beside_releasePlayer hfree p)

end Free

theorem beside_playerFree (p : ℕ) : Within Beside (playerFree defs p) :=
  beside_playerFreeWith (beside_playerFreeWith fun _ => within_stop _) p

/-! ## Moves -/

theorem beside_writeToPlayer (packet : ServerPacket) (p : ℕ) :
    Within Beside (writeToPlayer packet p) :=
  within_bind (beside_derefPlayer p) fun _ => within_need_bind fun s _ =>
    beside_writeSession s packet

theorem beside_mapSendPacket : ∀ (m : Option ℕ) (packet : Option ServerPacket),
    Within Beside (mapSendPacket m packet)
  | none, _ => within_pure ()
  | some _, none => within_pure ()
  | some m, some packet => by
    refine within_bind (beside_derefMap m) fun _ => within_forEach fun p _ => ?_
    refine within_bind (beside_derefPlayer p) fun player => ?_
    cases player.session with
    | none => exact within_pure ()
    | some s => exact beside_writeSession s packet

theorem beside_mapSendMapPacket : ∀ m s : Option ℕ, Within Beside (mapSendMapPacket defs m s)
  | none, _ => within_pure ()
  | some _, none => within_pure ()
  | some m, some s => within_bind (beside_derefMap m) fun map =>
      within_bind (within_bind (beside_mapLoad map.id) fun _ => within_need_bind fun k _ =>
        within_bind (beside_derefMap k) fun _ => within_pure _) fun packet =>
          beside_writeSession s packet

theorem beside_changeMap (oldMap : Option ℕ) (p : ℕ) :
    ∀ m, Within Beside (changeMap defs oldMap p m)
  | none => within_pure ()
  | some m => by
    have href : Within Beside (playerRef p) := within_bind (beside_lock _) fun _ =>
      within_bind (beside_updatePlayer p _) fun _ => beside_unlock _
    have hadd : Within Beside (mapAddPlayer defs m p) := within_bind href fun _ =>
      within_bind (beside_updateMap m _) fun _ => within_bind (beside_derefMap m) fun map =>
        within_bind (beside_mapLoad map.id) fun _ => beside_updatePlayer p _
    have hunlink : ∀ o, Within Beside (unlinkPlayer defs o p) := fun o =>
      within_bind (beside_derefMap o) fun _ => within_ite
        (within_bind (within_modify fun _ => ⟨rfl, rfl, rfl, rfl⟩) fun _ =>
          within_bind (beside_playerFree p) fun _ => within_pure true) (within_pure false)
    refine within_bind ?_ fun _ => hadd
    cases oldMap with
    | none => exact within_pure ()
    | some o =>
      exact within_bind (hunlink o) fun _ => within_bind (beside_derefPlayer p) fun _ =>
        within_need_bind fun id _ => within_ite (within_bind (beside_derefMap o) fun _ =>
          within_forEach fun q _ => beside_writeToPlayer (.leavingMap id) q) (within_pure ())

theorem beside_toggleCoord (m : ℕ) (x y : ℤ) (disable : Bool) :
    Within Beside (toggleCoord m x y disable) :=
  within_bind (beside_derefMap m) fun _ => within_need_bind fun _ _ =>
    within_bind (within_modify fun _ => ⟨rfl, rfl, rfl, rfl⟩) fun _ => within_pure _

section Circle

variable {spawn : ℤ → ℕ → ℤ → ℤ → ℤ → Exec World ℤ}

theorem beside_mapEventActivate
    (hspawn : ∀ id p x y suppress, Within Beside (spawn id p x y suppress)) (x y : ℤ)
    (m p : ℕ) : Within Beside (mapEventActivate defs spawn x y m p) := by
  have hevent : ∀ e : MapEvent, Within Beside (eventFunc spawn p e) := by
    intro e
    unfold eventFunc
    cases e.func with
    | changeMap =>
      exact within_need_bind fun _ _ => within_need_bind fun _ _ => within_need_bind fun _ _ =>
        within_need_bind fun _ _ => within_bind (hspawn _ p _ _ _) fun _ => within_pure ()
    | _ => exact within_bind (beside_derefPlayer p) fun _ => within_pure ()
  refine within_bind (beside_derefMap m) fun map => within_bind (beside_mapLoad map.id)
    fun loaded => within_bind (within_forEach fun e _ => ?_) fun _ => ?_
  · exact within_bind (beside_derefMap m) fun _ => within_ite (hevent e) (within_pure ())
  · cases loaded with
    | none => exact within_pure ()
    | some k =>
      exact within_bind (beside_derefMap k) fun _ => beside_mapUnloadWith beside_playerFree _

variable {activate : ℤ → ℤ → ℕ → ℕ → Exec World Unit}

theorem beside_playerMoveWith (hactivate : ∀ x y m p, Within Beside (activate x y m p))
    (p : ℕ) (x y : ℤ) (args : MoveArgs) :
    Within Beside (playerMoveWith defs activate p x y args) := by
  have hmoveTo : Within Beside (moveTo activate p x y args.suppressEvents) :=
    within_bind (beside_updatePlayer p _) fun _ => within_bind
      (within_ite (within_pure ()) (within_bind (beside_derefPlayer p) fun _ =>
        within_need_bind fun m _ => hactivate x y m p)) fun _ =>
          within_bind (beside_derefPlayer p) fun _ => beside_mapSendPacket _ _
  have henable : ∀ o, Within Beside (enableOldCoord p o)
    | none => within_pure true
    | some o => within_bind (beside_derefPlayer p) fun _ => beside_toggleCoord o _ _ false
  have hmoveFrom : ∀ o, Within Beside (moveFrom activate o p x y args) := fun o =>
    within_bind (henable o) fun _ =>
      within_ite (within_bind hmoveTo fun _ => within_pure true) (within_pure false)
  have hwithin : ∀ o, Within Beside (moveWithin activate o p x y args) := fun o =>
    within_bind (beside_derefPlayer p) fun _ => within_need_bind fun m _ =>
      within_bind (beside_derefMap m) fun _ => within_ite
        (within_bind (beside_toggleCoord m x y true) fun _ =>
          within_ite (hmoveFrom o) (within_pure false)) (within_pure false)
  have hvalid : ∀ m, Within Beside (moveValid p x y m)
    | none => within_bind (beside_derefPlayer p) fun _ => within_pure _
    | some _ => within_pure true
  exact within_bind (beside_derefPlayer p) fun player =>
    within_bind (beside_changeMap player.map p args.map) fun _ =>
      within_bind (hvalid args.map) fun _ => within_ite (hwithin player.map) (within_pure false)

variable {move : ℕ → ℤ → ℤ → MoveArgs → Exec World Bool}

theorem beside_mapSpawnPlayerWith (hmove : ∀ p x y args, Within Beside (move p x y args))
    (id : ℤ) (p : ℕ) (x y suppress : ℤ) :
    Within Beside (mapSpawnPlayerWith defs move id p x y suppress) := by
  have hposition : ∀ q, Within Beside (sendPosition p q) := fun q =>
    within_ite (within_pure ()) (within_bind (beside_derefPlayer q) fun _ =>
      within_need_bind fun packet _ => beside_writeToPlayer packet p)
  exact within_ite (within_pure 0) (within_bind (beside_mapLoad id) fun loaded =>
    within_bind (beside_derefPlayer p) fun player =>
      within_bind (beside_mapSendMapPacket loaded player.session) fun _ =>
        within_bind (hmove p x y _) fun _ => within_need_bind fun m _ =>
          within_bind (within_bind (beside_derefMap m) fun _ =>
            within_forEach fun q _ => hposition q) fun _ => within_pure 1)

end Circle

/-- **A spawn**, with all that its events lead to. -/
theorem beside_mapSpawnPlayer (fuel : ℕ) : ∀ id p x y suppress,
    Within Beside (mapSpawnPlayer defs fuel id p x y suppress) := by
  induction fuel with
  | zero => exact fun _ _ _ _ _ => within_stop _
  | succ fuel ih =>
    exact beside_mapSpawnPlayerWith (beside_playerMoveWith (beside_mapEventActivate ih))

/-- **A move**, with all that its events lead to. -/
theorem beside_playerMove (fuel : ℕ) (p : ℕ) (x y : ℤ) (args : MoveArgs) :
    Within Beside (playerMove defs fuel p x y args) :=
  beside_playerMoveWith (beside_mapEventActivate (beside_mapSpawnPlayer fuel)) p x y args

end World
end MmoBackend
