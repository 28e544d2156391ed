import Mathlib.Data.Fintype.EquivFin
import Mathlib.Order.Fin.Basic
import MmoBackend.Library.Threads
import MmoBackend.World.Server
import MmoBackend.World.Walks

/-!
# The order in which locks are taken

The server runs one thread for every client, and the threads share the player cache, the
players and the maps.  `player_free` takes the lock of the cache, then the lock of the
player, and then, through `map_unload`, the lock of a map id.  The other functions take
locks in this order as well, or one lock only, with one exception: `map_free` frees the
players that a map still lists, and it is called under the lock of the map.

So the discipline is stated for the server as long as no map is freed that lists players.
The walks are those of `World.Walks`.  They stop at every lock and between the reads and
writes of memory; `player_ref`, `map_toggle_coord` and the calls that only write to sockets
are one step each.  The locks of the rows of a map, which only `map_toggle_coord` takes, and
`write_lock`, which only the table of awaiting connections takes, are left out: a thread that
holds one of them takes no further lock.

Nothing in the server puts a player into the cache, so `player_cache_destroy_cache`, which
would call `player_free` under the lock of the cache, is not called.

`Restores` is proved of one function after the other: its steps keep the discipline, and at
its end it has given back the locks it has taken.
-/

namespace MmoBackend

open Authentication Communication Db Discipline Maps Walk

namespace World

/-- The order of the locks. -/
def lockRank : Lock → Fin 3
  | .cache => 0
  | .player _ => 1
  | .map _ => 2

/-- The locks of the server, for an empty player cache and maps that are freed without
players. -/
def lockOrder : Discipline World Notes Lock (Fin 3) where
  locks := World.locks
  rank := lockRank
  keeps w := w.cache = []
  clean g := ∀ map ∈ g.freed, map.players = []

variable {defs : MapDefs} {mine : List Lock}

/-! ## Steps without locks -/

section Neutral

theorem neutral_write {f : World → World} (hf : ∀ w, (f w).cache = w.cache)
    (hlocks : ∀ w, (f w).locks = w.locks) : lockOrder.Neutral (Exec.modify f) :=
  neutral_modify (fun w hw => (hf w).trans hw) hlocks

theorem neutral_derefMap (m : ℕ) : lockOrder.Neutral (derefMap m) :=
  neutral_get.bind fun _ => neutral_need _

theorem neutral_derefPlayer (p : ℕ) : lockOrder.Neutral (derefPlayer p) :=
  neutral_get.bind fun _ => neutral_need _

theorem neutral_derefSession (s : ℕ) : lockOrder.Neutral (derefSession s) :=
  neutral_get.bind fun _ => neutral_need _

theorem neutral_updateMap (m : ℕ) (f : Map → Map) : lockOrder.Neutral (updateMap m f) :=
  (neutral_derefMap m).bind fun _ => neutral_write (fun _ => rfl) fun _ => rfl

theorem neutral_updatePlayer (p : ℕ) (f : Player → Player) :
    lockOrder.Neutral (updatePlayer p f) :=
  (neutral_derefPlayer p).bind fun _ => neutral_write (fun _ => rfl) fun _ => rfl

theorem neutral_updateSession (s : ℕ) (f : Session → Session) :
    lockOrder.Neutral (updateSession s f) :=
  (neutral_derefSession s).bind fun _ => neutral_write (fun _ => rfl) fun _ => rfl

theorem neutral_packetWrite (fd : ℕ) (packet : ServerPacket) :
    lockOrder.Neutral (packetWrite fd packet) :=
  neutral_write (fun _ => rfl) fun _ => rfl

end Neutral

/-! ## Locks -/

section Locks

variable {l : Lock} {g : Notes} {Q : Unit → List Lock → Notes → Prop}

theorem lock_eq_deadlock {w : World} : lock l w = .error .deadlock ↔ l ∈ w.locks := by
  rw [lock, Exec.get_bind]
  split
  · rename_i h
    exact iff_of_true rfl h
  · rename_i h
    refine iff_of_false (fun herror => ?_) h
    cases herror

/-- **A lock is taken** that comes behind those the thread has. -/
theorem polite_lock (hrank : ∀ k ∈ mine, lockRank k < lockRank l) (hQ : Q () (l :: mine) g) :
    lockOrder.Polite (.step (lock l)) mine g Q := by
  intro w hw _
  refine ⟨fun u w' h => ?_, fun _ => ⟨l, hrank, fun _ => lock_eq_deadlock⟩⟩
  obtain ⟨hfree, rfl⟩ := lock_eq_ok.mp h
  exact ⟨hw, l :: mine, .take hfree hrank, hQ⟩

/-- **A lock is given back.** -/
theorem polite_unlock (hl : l ∈ mine) (hQ : Q () (mine.erase l) g) :
    lockOrder.Polite (.step (unlock l)) mine g Q := by
  intro w hw _
  refine ⟨fun u w' h => ?_, fun h => nomatch h⟩
  obtain rfl := unlock_eq_ok.mp h
  exact ⟨hw, mine.erase l, .give hl, hQ⟩

/-- **A lock is destroyed** with its player, by the thread that holds it. -/
theorem polite_destroyPlayer {p : ℕ} (hl : .player p ∈ mine)
    (hQ : Q () (mine.erase (.player p)) g) :
    lockOrder.Polite (.step (destroyPlayer p)) mine g Q := by
  intro w hw _
  refine ⟨fun u w' h => ?_, fun h => nomatch h⟩
  obtain rfl := Exec.modify_eq_ok.mp h
  exact ⟨hw, mine.erase (.player p), .give hl, hQ⟩

theorem playerRef_eq_deadlock {w : World} (p : ℕ) :
    playerRef p w = .error .deadlock ↔ .player p ∈ w.locks := by
  by_cases hheld : Lock.player p ∈ w.locks
  · exact iff_of_true (Exec.bind_of_error (lock_eq_deadlock.mpr hheld)) hheld
  · refine iff_of_false ?_ hheld
    have hlock : lock (.player p) w = .ok ((), w.setLocks (.player p :: w.locks)) :=
      lock_eq_ok.mpr ⟨hheld, rfl⟩
    rw [playerRef, Exec.bind_of_ok hlock, updatePlayer, derefPlayer, Exec.assoc, Exec.assoc,
      Exec.get_bind]
    intro herror
    cases hget : (w.setLocks (.player p :: w.locks)).players.get p with
    | none =>
      rw [hget] at herror
      cases herror
    | some player =>
      rw [hget] at herror
      cases herror

/-- `player_ref` takes the lock of the player and gives it back. -/
theorem restores_playerRef (p : ℕ) (hmine : ∀ k ∈ mine, lockRank k < 1) :
    lockOrder.Restores (.step (playerRef p)) mine := by
  intro g w hw _
  refine ⟨fun u w' h => ?_, fun _ => ⟨.player p, hmine, fun _ => playerRef_eq_deadlock p⟩⟩
  simp only [playerRef, Exec.bind_eq_ok] at h
  obtain ⟨_, _, hlock, _, _, hupdate, hunlock⟩ := h
  obtain ⟨-, rfl⟩ := lock_eq_ok.mp hlock
  obtain ⟨player, -, rfl⟩ := updatePlayer_eq_ok.mp hupdate
  obtain rfl := unlock_eq_ok.mp hunlock
  refine ⟨hw, mine, ?_, rfl⟩
  have hlocks : (Lock.player p :: w.locks).erase (.player p) = w.locks := List.erase_cons_head _ _
  show LockStep lockRank w.locks mine ((Lock.player p :: w.locks).erase (.player p)) mine
  rw [hlocks]
  exact .same

end Locks

/-! ## Loading and freeing -/

section Free

theorem neutral_ensureTile (i : ℕ) (map : Map) : lockOrder.Neutral (ensureTile i map) := by
  refine neutral_get.bind fun w => ?_
  cases w.tiles i with
  | some m => exact neutral_pure m
  | none => exact Neutral.bind (neutral_write (fun _ => rfl) fun _ => rfl) fun _ => neutral_pure _

/-- **`map_load`** takes the lock of the map and gives it back. -/
theorem restores_mapLoad (id : ℤ) (hmine : ∀ k ∈ mine, lockRank k < 2) :
    lockOrder.Restores (walkMapLoad defs id) mine := by
  refine .ite (restores_step (neutral_pure _)) ?_
  refine restores_step_bind (neutral_need _) fun map => ?_
  refine fun g => polite_lock hmine (polite_step_bind (neutral_ensureTile _ map) fun m => ?_)
  refine polite_step_bind (neutral_updateMap m _) fun _ => polite_unlock List.mem_cons_self ?_
  rw [List.erase_cons_head]
  exact Neutral.polite (neutral_get.bind fun _ => neutral_pure _) fun _ _ _ _ _ => rfl

variable {free : ℕ → Exec World Unit} {walkFree : ∀ p, Walk Notes (free p)}

/-- **`map_free`** frees no players, as is assumed. -/
theorem restores_mapFree (m : ℕ) : lockOrder.Restores (walkMapFree walkFree m) mine := by
  refine restores_step_bind (neutral_derefMap m) fun map g hclean => ?_
  have hplayers : map.players = [] := hclean map List.mem_cons_self
  have hloop : lockOrder.Restores (Walk.forEach walkFree map.players) mine := by
    refine .forEach fun p hp => ?_
    rw [hplayers] at hp
    exact absurd hp List.not_mem_nil
  refine Restores.bind hloop (fun _ => ?_) _
  exact restores_step (neutral_write (fun _ => rfl) fun _ => rfl)

theorem restores_unrefTile (i m : ℕ) : lockOrder.Restores (walkUnrefTile walkFree i m) mine := by
  refine restores_step_bind (neutral_derefMap m) fun map => ?_
  refine restores_step_bind (neutral_write (fun _ => rfl) fun _ => rfl) fun _ => ?_
  refine .ite ((restores_mapFree m).bind fun _ => ?_) (restores_step (neutral_pure ()))
  exact restores_step (neutral_write (fun _ => rfl) fun _ => rfl)

/-- **`map_unload`** takes the lock of the map and gives it back. -/
theorem restores_mapUnloadWith (id : ℤ) (hmine : ∀ k ∈ mine, lockRank k < 2) :
    lockOrder.Restores (walkMapUnloadWith defs walkFree id) mine := by
  refine .ite (restores_step (neutral_pure ())) ?_
  refine restores_step_bind (neutral_need _) fun _ => restores_step_bind neutral_get fun w => ?_
  cases w.tiles id.toNat with
  | none => exact restores_step (neutral_pure ())
  | some m =>
    refine fun g => polite_lock hmine ((restores_unrefTile _ m).polite_bind fun _ g' => ?_)
    exact polite_unlock List.mem_cons_self (List.erase_cons_head _ _)

theorem neutral_dbPlayerWritePlayer (p : ℕ) : lockOrder.Neutral (dbPlayerWritePlayer p) := by
  refine (neutral_derefPlayer p).bind fun player => ?_
  refine Neutral.bind (neutral_need _) fun id => Neutral.bind (neutral_need _) fun name => ?_
  refine Neutral.bind (neutral_need _) fun m => (neutral_derefMap m).bind fun map => ?_
  exact neutral_write (fun _ => rfl) fun _ => rfl

theorem neutral_writeModified (p : ℕ) : lockOrder.Neutral (writeModified p) :=
  (neutral_derefPlayer p).bind fun _ => .ite (neutral_pure ()) (neutral_dbPlayerWritePlayer p)

theorem restores_unloadPlayerMap (p : ℕ) (hmine : ∀ k ∈ mine, lockRank k < 2) :
    lockOrder.Restores (walkUnloadPlayerMap defs walkFree p) mine := by
  refine restores_step_bind (neutral_derefPlayer p) fun player => ?_
  cases player.map with
  | none => exact restores_step (neutral_pure ())
  | some m =>
    exact restores_step_bind (neutral_derefMap m) fun map => restores_mapUnloadWith _ hmine

/-- **The cache is empty**, so nothing is taken out of it. -/
theorem restores_playerCacheRemove (id : CString) :
    lockOrder.Restores (walkPlayerCacheRemove walkFree id) mine := by
  refine restores_get_bind fun w (hw : w.cache = []) => ?_
  rw [hw]
  exact restores_step (neutral_pure ())

theorem restores_uncachePlayer (p : ℕ) :
    lockOrder.Restores (walkUncachePlayer walkFree p) mine := by
  refine restores_step_bind (neutral_derefPlayer p) fun player => ?_
  cases player.id with
  | none => exact restores_step (neutral_pure ())
  | some id => exact restores_playerCacheRemove id

/-- **`player_free`** takes the lock of the cache and then the one of the player, and gives
both back. -/
theorem restores_playerFreeWith (p : ℕ) :
    lockOrder.Restores (walkPlayerFreeWith defs walkFree p) [] := by
  have hcache : ∀ k ∈ ([] : List Lock), lockRank k < lockRank .cache := by simp
  have hplayer : ∀ k ∈ [Lock.cache], lockRank k < lockRank (.player p) := by simp [lockRank]
  have hmap : ∀ k ∈ [Lock.player p, .cache], lockRank k < 2 := by simp [lockRank]
  have herase : ([Lock.player p, .cache].erase .cache) = [.player p] := by simp
  refine fun g => polite_lock hcache (polite_lock hplayer ?_)
  refine polite_step_bind (neutral_updatePlayer p _) fun _ => ?_
  refine polite_step_bind (neutral_derefPlayer p) fun player => polite_ite (fun _ => ?_) fun _ => ?_
  · refine polite_unlock (by simp) ?_
    rw [herase]
    exact polite_unlock (by simp) (by simp)
  · refine polite_step_bind (neutral_writeModified p) fun _ => ?_
    refine (restores_unloadPlayerMap p hmap).polite_bind fun _ g₁ => ?_
    refine (restores_uncachePlayer p).polite_bind fun _ g₂ => ?_
    refine polite_unlock (by simp) ?_
    rw [herase]
    exact polite_destroyPlayer (by simp) (by simp)

theorem restores_playerFree (p : ℕ) : lockOrder.Restores (walkPlayerFree defs p) [] :=
  restores_playerFreeWith p

theorem restores_mapUnload (id : ℤ) : lockOrder.Restores (walkMapUnload defs id) [] :=
  restores_mapUnloadWith id (by simp)

end Free

/-! ## Moving -/

section Moving

theorem neutral_writeToPlayer (packet : ServerPacket) (p : ℕ) :
    lockOrder.Neutral (writeToPlayer packet p) := by
  refine (neutral_derefPlayer p).bind fun player => Neutral.bind (neutral_need _) fun s => ?_
  exact (neutral_derefSession s).bind fun session => neutral_packetWrite _ _

theorem neutral_sendToPlayer (packet : ServerPacket) (p : ℕ) :
    lockOrder.Neutral (sendToPlayer packet p) := by
  refine (neutral_derefPlayer p).bind fun player => ?_
  cases player.session with
  | none => exact neutral_pure ()
  | some s => exact (neutral_derefSession s).bind fun session => neutral_packetWrite _ _

theorem neutral_mapSendPacket (m : Option ℕ) (packet : Option ServerPacket) :
    lockOrder.Neutral (mapSendPacket m packet) := by
  cases m with
  | none => exact neutral_pure ()
  | some m =>
    cases packet with
    | none => exact neutral_pure ()
    | some packet =>
      exact (neutral_derefMap m).bind fun map => neutral_forEach fun p _ => neutral_sendToPlayer _ p

theorem neutral_sendLeaving (m : ℕ) (packet : ServerPacket) (removed : Bool) :
    lockOrder.Neutral (sendLeaving m packet removed) := by
  refine .ite ((neutral_derefMap m).bind fun map => ?_) (neutral_pure ())
  exact neutral_forEach fun p _ => neutral_writeToPlayer _ p

theorem neutral_toggleCoord (m : ℕ) (x y : ℤ) (disable : Bool) :
    lockOrder.Neutral (toggleCoord m x y disable) := by
  refine (neutral_derefMap m).bind fun map => Neutral.bind (neutral_need _) fun r => ?_
  exact Neutral.bind (neutral_write (fun _ => rfl) fun _ => rfl) fun _ => neutral_pure _

theorem neutral_moveValid (p : ℕ) (x y : ℤ) (m : Option ℕ) :
    lockOrder.Neutral (moveValid p x y m) := by
  cases m with
  | none => exact (neutral_derefPlayer p).bind fun player => neutral_pure _
  | some m => exact neutral_pure true

theorem neutral_enableOldCoord (p : ℕ) (m : Option ℕ) :
    lockOrder.Neutral (enableOldCoord p m) := by
  cases m with
  | none => exact neutral_pure true
  | some m => exact (neutral_derefPlayer p).bind fun player => neutral_toggleCoord _ _ _ _

theorem neutral_announce (p : ℕ) : lockOrder.Neutral (announce p) :=
  (neutral_derefPlayer p).bind fun _ => neutral_mapSendPacket _ _

theorem neutral_sendPositions (m p : ℕ) : lockOrder.Neutral (sendPositions m p) := by
  refine (neutral_derefMap m).bind fun map => neutral_forEach fun q _ => ?_
  refine .ite (neutral_pure ()) ((neutral_derefPlayer q).bind fun other => ?_)
  exact Neutral.bind (neutral_need _) fun packet => neutral_writeToPlayer _ p

theorem restores_mapSendMapPacket (m s : Option ℕ) :
    lockOrder.Restores (walkMapSendMapPacket defs m s) [] := by
  cases m with
  | none => exact restores_step (neutral_pure ())
  | some m =>
    cases s with
    | none => exact restores_step (neutral_pure ())
    | some s =>
      refine restores_step_bind (neutral_derefMap m) fun map => ?_
      refine Restores.bind ((restores_mapLoad _ (by simp)).bind fun loaded => ?_) fun packet => ?_
      · refine restores_step_bind (neutral_need _) fun m => ?_
        exact restores_step_bind (neutral_derefMap m) fun map => restores_step (neutral_pure _)
      · refine restores_step_bind (neutral_derefSession s) fun session => ?_
        exact restores_step (neutral_packetWrite _ _)

theorem restores_mapAddPlayer (m p : ℕ) : lockOrder.Restores (walkMapAddPlayer defs m p) [] := by
  refine (restores_playerRef p (by simp)).bind fun _ => ?_
  refine restores_step_bind (neutral_updateMap m _) fun _ => ?_
  refine restores_step_bind (neutral_derefMap m) fun map => ?_
  refine (restores_mapLoad _ (by simp)).bind fun loaded => ?_
  exact restores_step (neutral_updatePlayer p _)

theorem restores_mapRemovePlayer (m : Option ℕ) (p : ℕ) :
    lockOrder.Restores (walkMapRemovePlayer defs m p) [] := by
  cases m with
  | none => exact restores_step (neutral_pure ())
  | some m =>
    refine Restores.bind (restores_step_bind (neutral_derefMap m) fun map => ?_) fun removed => ?_
    · refine .ite ?_ (restores_step (neutral_pure false))
      refine restores_step_bind (neutral_write (fun _ => rfl) fun _ => rfl) fun _ => ?_
      exact (restores_playerFree p).bind fun _ => restores_step (neutral_pure true)
    · refine restores_step_bind (neutral_derefPlayer p) fun player => ?_
      refine restores_step_bind (neutral_need _) fun id => ?_
      exact restores_step (neutral_sendLeaving _ _ _)

theorem restores_changeMap (oldMap : Option ℕ) (p : ℕ) (newMap : Option ℕ) :
    lockOrder.Restores (walkChangeMap defs oldMap p newMap) [] := by
  cases newMap with
  | none => exact restores_step (neutral_pure ())
  | some m => exact (restores_mapRemovePlayer _ p).bind fun _ => restores_mapAddPlayer m p

section Circle

variable {spawn : ℤ → ℕ → ℤ → ℤ → ℤ → Exec World ℤ}
  {walkSpawn : ∀ id p x y suppress, Walk Notes (spawn id p x y suppress)}

theorem restores_activateEvent
    (hspawn : ∀ id p x y suppress, lockOrder.Restores (walkSpawn id p x y suppress) [])
    (x y : ℤ) (m p : ℕ) (e : MapEvent) :
    lockOrder.Restores (walkActivateEvent walkSpawn x y m p e) [] := by
  refine restores_step_bind (neutral_derefMap m) fun _ => .ite ?_ (restores_step (neutral_pure ()))
  obtain ⟨_, _, func, _⟩ := e
  cases func with
  | hello =>
    exact restores_step_bind (neutral_derefPlayer p) fun _ => restores_step (neutral_pure ())
  | goodbye =>
    exact restores_step_bind (neutral_derefPlayer p) fun _ => restores_step (neutral_pure ())
  | changeMap =>
    refine restores_step_bind (neutral_need _) fun id => ?_
    refine restores_step_bind (neutral_need _) fun x => ?_
    refine restores_step_bind (neutral_need _) fun y => ?_
    refine restores_step_bind (neutral_need _) fun suppress => ?_
    exact (hspawn id p x y suppress).bind fun _ => restores_step (neutral_pure ())

/-- **Activating events.** -/
theorem restores_mapEventActivate
    (hspawn : ∀ id p x y suppress, lockOrder.Restores (walkSpawn id p x y suppress) [])
    (x y : ℤ) (m p : ℕ) :
    lockOrder.Restores (walkMapEventActivate defs walkSpawn x y m p) [] := by
  refine restores_step_bind (neutral_derefMap m) fun map => ?_
  refine (restores_mapLoad _ (by simp)).bind fun loaded => .note ?_
  have hevent : ∀ e, lockOrder.Restores (walkActivateEvent walkSpawn x y m p e) [] :=
    restores_activateEvent hspawn x y m p
  refine Restores.bind (.forEach fun e _ => hevent e) fun _ => .note ?_
  cases loaded with
  | none => exact restores_step (neutral_pure ())
  | some m' =>
    exact restores_step_bind (neutral_derefMap m') fun map => restores_mapUnload _

variable {activate : ℤ → ℤ → ℕ → ℕ → Exec World Unit}
  {walkActivate : ∀ x y m p, Walk Notes (activate x y m p)}

theorem restores_moveTo (hactivate : ∀ x y m p, lockOrder.Restores (walkActivate x y m p) [])
    (p : ℕ) (x y : ℤ) (suppress : Bool) :
    lockOrder.Restores (walkMoveTo walkActivate p x y suppress) [] := by
  refine restores_step_bind (neutral_updatePlayer p _) fun _ => Restores.bind ?_ fun _ => ?_
  · refine .ite (restores_step (neutral_pure ())) ?_
    refine restores_step_bind (neutral_derefPlayer p) fun player => ?_
    exact restores_step_bind (neutral_need _) fun m => hactivate x y m p
  · exact restores_step (neutral_announce p)

theorem restores_moveWithin (hactivate : ∀ x y m p, lockOrder.Restores (walkActivate x y m p) [])
    (oldMap : Option ℕ) (p : ℕ) (x y : ℤ) (args : MoveArgs) :
    lockOrder.Restores (walkMoveWithin walkActivate oldMap p x y args) [] := by
  refine restores_step_bind (neutral_derefPlayer p) fun player => ?_
  refine restores_step_bind (neutral_need _) fun m => ?_
  refine restores_step_bind (neutral_derefMap m) fun map => ?_
  refine .ite ?_ (restores_step (neutral_pure false))
  refine restores_step_bind (neutral_toggleCoord m x y true) fun disabled => ?_
  refine .ite ?_ (restores_step (neutral_pure false))
  refine restores_step_bind (neutral_enableOldCoord p oldMap) fun enabled => ?_
  refine .ite ?_ (restores_step (neutral_pure false))
  exact (restores_moveTo hactivate p x y _).bind fun _ => restores_step (neutral_pure true)

/-- **`player_move`**, over the `map_event_activate` it calls. -/
theorem restores_playerMoveWith
    (hactivate : ∀ x y m p, lockOrder.Restores (walkActivate x y m p) [])
    (p : ℕ) (x y : ℤ) (args : MoveArgs) :
    lockOrder.Restores (walkPlayerMoveWith defs walkActivate p x y args) [] := by
  refine restores_step_bind (neutral_derefPlayer p) fun player => ?_
  refine (restores_changeMap _ p _).bind fun _ => ?_
  refine restores_step_bind (neutral_moveValid p x y _) fun valid => ?_
  exact .ite (restores_moveWithin hactivate _ p x y args) (restores_step (neutral_pure false))

variable {move : ℕ → ℤ → ℤ → MoveArgs → Exec World Bool}
  {walkMove : ∀ p x y args, Walk Notes (move p x y args)}

/-- **`map_spawn_player`**, over the `player_move` it calls. -/
theorem restores_mapSpawnPlayerWith
    (hmove : ∀ p x y args, lockOrder.Restores (walkMove p x y args) [])
    (id : ℤ) (p : ℕ) (x y suppress : ℤ) :
    lockOrder.Restores (walkMapSpawnPlayerWith defs walkMove id p x y suppress) [] := by
  refine .ite (restores_step (neutral_pure 0)) ?_
  refine (restores_mapLoad _ (by simp)).bind fun loaded => ?_
  refine restores_step_bind (neutral_derefPlayer p) fun player => ?_
  refine (restores_mapSendMapPacket _ _).bind fun _ => (hmove p x y _).bind fun _ => ?_
  refine restores_step_bind (neutral_need _) fun m => ?_
  exact restores_step_bind (neutral_sendPositions m p) fun _ => restores_step (neutral_pure 1)

end Circle

theorem restores_mapSpawnPlayer (fuel : ℕ) (id : ℤ) (p : ℕ) (x y suppress : ℤ) :
    lockOrder.Restores (walkMapSpawnPlayer defs fuel id p x y suppress) [] := by
  induction fuel generalizing id p x y suppress with
  | zero => exact restores_step (neutral_stop (by decide))
  | succ fuel ih =>
    refine restores_mapSpawnPlayerWith (fun p x y args => ?_) id p x y suppress
    exact restores_playerMoveWith (restores_mapEventActivate ih) p x y args

theorem restores_playerMove (fuel p : ℕ) (x y : ℤ) (args : MoveArgs) :
    lockOrder.Restores (walkPlayerMove defs fuel p x y args) [] :=
  restores_playerMoveWith (restores_mapEventActivate (restores_mapSpawnPlayer fuel)) p x y args

end Moving

end World
end MmoBackend
