import MmoBackend.World.Locking
import MmoBackend.World.Login

/-!
# The threads of the server

The server runs one thread for every client and one for the auth server, all on the same
memory.  `ServerThread.code` is what such a thread does, and `ServerThread.walk` cuts it
into steps, which the threads do in any order.  A thread that needs a lock another thread
holds waits.

A step writes a whole record where the source writes a field of it, and the source reads
some fields again that a step has read before.  So other changes are possible as well:
between two steps the memory may become anything, but for the locks and the player cache.

`threads_not_deadlocked` says that the threads never wait for each other in a circle: from
every thread that has something left to do the chain of those it waits for leads to one
that waits for nobody.  The first state is any state in which no lock is held and the player
cache is empty, and nothing is assumed about the packets, the records or the maps.

A thread that waits for nobody goes on, or it crashes.  The last reference to a player is given
back without a look at who waits for the lock of the player, `destroyPlayer`, and a thread that
does is one that crashes.
-/

namespace MmoBackend

open Authentication Communication Db Discipline Maps Walk

namespace World

/-! ## Walking through a request -/

section Walks

variable (defs : MapDefs)

/-- Through `player_cache_find`. -/
def walkPlayerCacheFind (id : CString) : Walk Notes (playerCacheFind id) :=
  .bind (.step _) fun _ => .bind (.step _) fun w =>
    match w.cache.lookup id with
    | none => .bind (.step _) fun _ => .step _
    | some _ => .bind (.step _) fun _ => .bind (.step _) fun _ => .bind (.step _) fun _ =>
        .bind (.step _) fun _ => .step _

/-- Through one round of the loop of `db_player_get_player`. -/
def walkReadField (p : ℕ) (field : String × Bson) : Walk Notes (readField defs p field) :=
  .ite (.bind (.step _) fun _ => .step _) <| .ite (.bind (.step _) fun _ => .step _) <|
    .ite (.bind (walkMapLoad defs _) fun _ => .step _) <| .ite (.step _) <| .ite (.step _) <|
      .ite (.step _) (.step _)

/-- Through the load of a record. -/
def walkReadPlayer (id : CString) : Walk Notes (readPlayer defs id) :=
  .bind (.step _) fun w =>
    match findById id w.playerdata with
    | none => .step _
    | some doc => .bind (.step _) fun p =>
        .bind (.forEach (walkReadField defs p) doc.fields) fun _ => .step _

/-- Through `db_player_get_player`. -/
def walkDbPlayerGetPlayer (id : CString) : Walk Notes (dbPlayerGetPlayer defs id) :=
  .bind (walkPlayerCacheFind id) fun cached =>
    match cached with
    | some _ => .step _
    | none => walkReadPlayer defs id

/-- Through `player_free`, on a pointer that may be null. -/
def walkPlayerFreeNull : ∀ p : Option ℕ, Walk Notes (playerFreeNull defs p)
  | none => .step _
  | some p => walkPlayerFree defs p

/-- Through `session_destroy`. -/
def walkSessionDestroy (s : ℕ) : Walk Notes (sessionDestroy defs s) :=
  .bind (.step _) fun session => .bind (walkPlayerFreeNull defs session.player) fun _ => .step _

/-- Through `packet_handle_login` after the spawn. -/
def walkLoginReply (packet : Packet) (s : ℕ) (spawned : ℤ) :
    Walk Notes (loginReply defs packet s spawned) :=
  .ite (.bind (walkSessionDestroy defs s) fun _ => .bind (.step _) fun _ => .step _) (.step _)

variable (fuel : ℕ)

/-- Through `packet_handle_login` from the assignment of `session->player->session` on. -/
def walkLoginPlayer (packet : Packet) (code : CString) (s p : ℕ) :
    Walk Notes (loginPlayer defs fuel packet code s p) :=
  .bind (.step _) fun _ => .bind (.step _) fun _ => .bind (.step _) fun _ =>
    .bind (.step _) fun player => .bind (.step _) fun _ => .bind (.step _) fun map =>
      .bind (walkMapSpawnPlayer defs fuel map.id p player.x player.y 1) fun _ =>
        walkLoginReply defs packet s _

/-- Through `packet_handle_login` from the load of the player on. -/
def walkLoginAs (packet : Packet) (code id : CString) (s : ℕ) :
    Walk Notes (loginAs defs fuel packet code id s) :=
  .bind (walkDbPlayerGetPlayer defs id) fun found => .bind (.step _) fun _ =>
    match found with
    | none => .step _
    | some p => walkLoginPlayer defs fuel packet code s p

/-- Through `packet_handle_login`. -/
def walkPacketHandleLogin (packet : Packet) (s : ℕ) :
    Walk Notes (packetHandleLogin defs fuel packet s) :=
  .bind (.step _) fun code => .bind (.step _) fun found =>
    match found with
    | none => .bind (.step _) fun _ => .step _
    | some _ => .bind (.step _) fun _ => .bind (.step _) fun id =>
        walkLoginAs defs fuel packet code id s

/-- Through `packet_handle_move`. -/
def walkPacketHandleMove (packet : Packet) (s : ℕ) :
    Walk Notes (packetHandleMove defs fuel packet s) :=
  .bind (.step _) fun x => .bind (.step _) fun y => .bind (.step _) fun _ =>
    .bind (.step _) fun p => .bind (walkPlayerMove defs fuel p x y MoveArgs.zero) fun _ =>
      .ite (.step _) (.step _)

/-- Through `packet_handle_inspect_player`. -/
def walkPacketHandleInspectPlayer (packet : Packet) :
    Walk Notes (packetHandleInspectPlayer defs packet) :=
  .bind (walkDbPlayerGetPlayer defs _) fun _ => .step _

/-- Through `packet_handle_route`. -/
def walkPacketHandleRoute (packet : Packet) (s : ℕ) :
    Walk Notes (packetHandleRoute defs fuel packet s) :=
  .ite (.step _) <| .ite (walkPacketHandleLogin defs fuel packet s) <| .ite (.step _) <|
    .ite (walkPacketHandleMove defs fuel packet s) <|
      .ite (walkPacketHandleInspectPlayer defs packet) (.step _)

/-- Through one round of the loop of `event_loop_start`. -/
def walkEventLoop (s : ℕ) (received : Option Packet) :
    Walk Notes (eventLoop defs fuel s received) :=
  .bind (.step _) fun _ => .bind (.step _) fun _ => .bind (.step _) fun packet => .ite
    (.bind (.step _) fun _ => .bind (walkPacketHandleRoute defs fuel packet s) fun _ => .step _)
    (.step _)

end Walks

variable {defs : MapDefs} {fuel : ℕ}

/-! ## The table of awaiting connections

Those of its functions that write to it take `write_lock`, and no lock under it.  Each of them
is one step here, so there is no lock for it. -/

/-- The table has no locks of its own. -/
def tableOrder : Discipline AwaitingTable Unit Lock (Fin 3) where
  locks _ := []
  rank := lockRank
  keeps _ := True
  clean _ := True

theorem neutral_onTable {α : Type} {x : Exec AwaitingTable α} (hx : tableOrder.Neutral x) :
    lockOrder.Neutral (onTable x) := by
  intro w hw
  have hstop := (hx w.table trivial).1
  refine ⟨fun h => hstop ?_, fun a w' h => ?_⟩
  · rw [onTable] at h
    cases hrun : x w.table with
    | error e =>
      rw [hrun] at h
      rw [Except.error.inj h]
    | ok r => simp [hrun] at h
  · obtain ⟨t, -, rfl⟩ := onTable_eq_ok.mp h
    exact ⟨hw, rfl⟩

theorem neutral_writeTable (f : AwaitingTable → AwaitingTable) :
    tableOrder.Neutral (Exec.modify f) :=
  neutral_modify (fun _ _ => trivial) fun _ => rfl

theorem neutral_destroyConnection (c : ℕ) :
    tableOrder.Neutral (AwaitingTable.destroyConnection c) := by
  refine Neutral.bind neutral_get fun t => Neutral.bind (neutral_need _) fun conn => ?_
  exact Neutral.bind (neutral_need _) fun _ => neutral_writeTable _

theorem neutral_find (key : CString) : tableOrder.Neutral (AwaitingTable.find key) := by
  refine Neutral.bind neutral_get fun t => ?_
  cases t.entries.lookup key with
  | none => exact neutral_pure none
  | some c => exact Neutral.bind (neutral_need _) fun conn => neutral_pure _

theorem neutral_remove (token : CString) : tableOrder.Neutral (AwaitingTable.remove token) := by
  refine Neutral.bind neutral_get fun t => ?_
  cases t.entries.lookup token with
  | none => exact neutral_pure false
  | some c =>
    refine (neutral_writeTable _).bind fun _ => (neutral_destroyConnection c).bind fun _ => ?_
    exact neutral_pure true

theorem neutral_insert (token id : CString) (now : ℕ) :
    tableOrder.Neutral (AwaitingTable.insert token id now) := by
  refine Neutral.bind neutral_get fun t => (neutral_writeTable _).bind fun _ => ?_
  cases t.entries.lookup token with
  | none => exact (neutral_writeTable _).bind fun _ => neutral_pure true
  | some old =>
    refine (neutral_destroyConnection old).bind fun _ => (neutral_writeTable _).bind fun _ => ?_
    refine (neutral_destroyConnection _).bind fun _ => (neutral_writeTable _).bind fun _ => ?_
    exact neutral_pure false

/-! ## A request gives back the locks it takes -/

theorem restores_playerCacheFind (id : CString) :
    lockOrder.Restores (walkPlayerCacheFind id) [] := by
  refine fun g => polite_lock (by simp) (polite_step_bind neutral_get fun w => ?_)
  cases w.cache.lookup id with
  | none =>
    refine polite_unlock (by simp) ?_
    exact Neutral.polite (neutral_pure none) fun _ _ _ _ _ => by simp
  | some p =>
    refine polite_lock (by simp [lockRank]) ?_
    refine polite_step_bind (neutral_updatePlayer p _) fun _ => ?_
    refine polite_unlock (by simp) (polite_unlock (by simp) ?_)
    exact Neutral.polite (neutral_pure _) fun _ _ _ _ _ => by simp

theorem restores_readField (p : ℕ) (field : String × Bson) :
    lockOrder.Restores (walkReadField defs p field) [] := by
  have hset : ∀ f, lockOrder.Restores (.step (updatePlayer p f) : Walk Notes _) [] :=
    fun f => restores_step (neutral_updatePlayer p f)
  refine .ite (restores_step_bind (neutral_need _) fun _ => hset _) ?_
  refine .ite (restores_step_bind (neutral_need _) fun _ => hset _) ?_
  refine .ite ((restores_mapLoad _ (by simp)).bind fun _ => hset _) ?_
  exact .ite (hset _) (.ite (hset _) (.ite (hset _) (restores_step (neutral_pure ()))))

theorem restores_dbPlayerGetPlayer (id : CString) :
    lockOrder.Restores (walkDbPlayerGetPlayer defs id) [] := by
  refine (restores_playerCacheFind id).bind fun cached => ?_
  cases cached with
  | some p => exact restores_step (neutral_pure _)
  | none =>
    refine restores_step_bind neutral_get fun w => ?_
    cases findById id w.playerdata with
    | none => exact restores_step (neutral_pure none)
    | some doc =>
      refine restores_step_bind (neutral_get.bind fun _ => ?_) fun p => ?_
      · exact Neutral.bind (neutral_write (fun _ => rfl) fun _ => rfl) fun _ => neutral_pure _
      · refine Restores.bind (.forEach fun field _ => restores_readField p field) fun _ => ?_
        exact restores_step (neutral_pure _)

theorem restores_loginReply (packet : Packet) (s : ℕ) (spawned : ℤ) :
    lockOrder.Restores (walkLoginReply defs packet s spawned) [] := by
  refine .ite (Restores.bind ?_ fun _ => ?_) (restores_step (neutral_pure _))
  · refine restores_step_bind (neutral_derefSession s) fun session => Restores.bind ?_ fun _ => ?_
    · cases session.player with
      | none => exact restores_step (neutral_pure ())
      | some p => exact restores_playerFree p
    · exact restores_step (neutral_write (fun _ => rfl) fun _ => rfl)
  · refine restores_step_bind (neutral_write (fun _ => rfl) fun _ => rfl) fun _ => ?_
    exact restores_step (neutral_pure none)

theorem restores_loginPlayer (packet : Packet) (code : CString) (s p : ℕ) :
    lockOrder.Restores (walkLoginPlayer defs fuel packet code s p) [] := by
  refine restores_step_bind (neutral_updatePlayer p _) fun _ => ?_
  refine restores_step_bind (neutral_updateSession s _) fun _ => ?_
  refine restores_step_bind (neutral_onTable (neutral_remove code)) fun _ => ?_
  refine restores_step_bind (neutral_derefPlayer p) fun player => ?_
  refine restores_step_bind (neutral_need _) fun m => ?_
  refine restores_step_bind (neutral_derefMap m) fun map => ?_
  refine (restores_mapSpawnPlayer fuel _ p _ _ _).bind fun spawned => ?_
  exact restores_loginReply packet s spawned

/-- **A login.** -/
theorem restores_packetHandleLogin (packet : Packet) (s : ℕ) :
    lockOrder.Restores (walkPacketHandleLogin defs fuel packet s) [] := by
  refine restores_step_bind (neutral_need _) fun code => ?_
  refine restores_step_bind (neutral_onTable (neutral_find code)) fun found => ?_
  cases found with
  | none =>
    refine restores_step_bind (neutral_write (fun _ => rfl) fun _ => rfl) fun _ => ?_
    exact restores_step (neutral_pure none)
  | some c =>
    refine restores_step_bind neutral_get fun w => restores_step_bind (neutral_need _) fun id => ?_
    refine (restores_dbPlayerGetPlayer id).bind fun found => ?_
    refine restores_step_bind (neutral_updateSession s _) fun _ => ?_
    cases found with
    | none => exact restores_step (neutral_pure _)
    | some p => exact restores_loginPlayer packet code s p

/-- **A move.** -/
theorem restores_packetHandleMove (packet : Packet) (s : ℕ) :
    lockOrder.Restores (walkPacketHandleMove defs fuel packet s) [] := by
  refine restores_step_bind (neutral_need _) fun x => ?_
  refine restores_step_bind (neutral_need _) fun y => ?_
  refine restores_step_bind (neutral_derefSession s) fun session => ?_
  refine restores_step_bind (neutral_need _) fun p => ?_
  refine (restores_playerMove fuel p x y _).bind fun moved => ?_
  exact .ite (restores_step (neutral_pure none)) (restores_step (neutral_pure _))

/-- **An inspection.** -/
theorem restores_packetHandleInspectPlayer (packet : Packet) :
    lockOrder.Restores (walkPacketHandleInspectPlayer defs packet) [] := by
  refine (restores_dbPlayerGetPlayer _).bind fun found => restores_step ?_
  cases found with
  | none => exact neutral_pure _
  | some p =>
    refine (neutral_derefPlayer p).bind fun player => Neutral.bind (neutral_need _) fun name => ?_
    exact neutral_pure _

theorem neutral_eventLoopError (fd : ℕ) (code : ℤ) :
    lockOrder.Neutral (eventLoopError fd code) := by
  refine Neutral.bind (neutral_need _) fun packet => (neutral_packetWrite _ _).bind fun _ => ?_
  exact neutral_write (fun _ => rfl) fun _ => rfl

/-- **A round of the event loop.** -/
theorem restores_eventLoop (s : ℕ) (received : Option Packet) :
    lockOrder.Restores (walkEventLoop defs fuel s received) [] := by
  refine restores_step_bind (neutral_derefSession s) fun session => ?_
  refine restores_step_bind ?_ fun _ => restores_step_bind (neutral_need _) fun packet => ?_
  · cases received with
    | none => exact neutral_eventLoopError _ _
    | some packet => exact neutral_pure ()
  refine .ite (restores_step_bind ?_ fun _ => Restores.bind ?_ fun response => ?_) ?_
  · exact neutral_get.bind fun w => .ite (neutral_pure ()) (neutral_eventLoopError _ _)
  · refine .ite (restores_step (neutral_stop (by decide))) ?_
    refine .ite (restores_packetHandleLogin packet s) ?_
    refine .ite (restores_step (neutral_stop (by decide))) ?_
    refine .ite (restores_packetHandleMove packet s) ?_
    exact .ite (restores_packetHandleInspectPlayer packet) (restores_step (neutral_pure none))
  · refine restores_step ?_
    cases response with
    | none => exact neutral_pure ()
    | some response =>
      exact (neutral_derefSession s).bind fun session => neutral_packetWrite _ _
  · exact restores_step (neutral_packetWrite _ _)

/-! ## Threads -/

/-- A thread of the server. -/
inductive ServerThread where
  /-- A thread for a client, with what `packet_read` returns in the rounds of its loop. -/
  | client (fd : ℕ) (received : List (Option Packet))
  /-- The thread for the auth server, with the tokens, the ids and the times at which they
  are stored. -/
  | authReciever (stored : List (CString × CString × ℕ))

namespace ServerThread

/-- What a thread does. -/
def code (defs : MapDefs) (fuel : ℕ) : ServerThread → Exec World Unit
  | client fd received => do
    let s ← sessionCreate fd
    Exec.forEach received (eventLoop defs fuel s)
  | authReciever stored =>
    Exec.forEach stored fun e => do
      let _ ← onTable (AwaitingTable.insert e.1 e.2.1 e.2.2)
      pure ()

/-- The steps of a thread. -/
def walk (defs : MapDefs) (fuel : ℕ) : ∀ thread : ServerThread, Walk Notes (thread.code defs fuel)
  | client _ received => .bind (.step _) fun s => .forEach (walkEventLoop defs fuel s) received
  | authReciever stored => .forEach (fun _ => .bind (.step _) fun _ => .step _) stored

theorem restores (thread : ServerThread) : lockOrder.Restores (thread.walk defs fuel) [] := by
  cases thread with
  | client fd received =>
    refine restores_step_bind (neutral_get.bind fun _ => ?_) fun s => ?_
    · exact Neutral.bind (neutral_write (fun _ => rfl) fun _ => rfl) fun _ => neutral_pure _
    · exact .forEach fun packet _ => restores_eventLoop s packet
  | authReciever stored =>
    refine .forEach fun e _ => ?_
    refine restores_step_bind (neutral_onTable (neutral_insert _ _ _)) fun _ => ?_
    exact restores_step (neutral_pure ())

end ServerThread

/-- The threads at their start, on the memory `w`. -/
def serverThreads {T : Type} (defs : MapDefs) (fuel : ℕ) (w : World) (threads : T → ServerThread) :
    Threads World Notes Lock T :=
  .start w Notes.empty fun t => ⟨(threads t).code defs fuel, (threads t).walk defs fuel⟩

section Runs

variable {T : Type} [DecidableEq T] {threads : T → ServerThread} {w : World}
  {s : Threads World Notes Lock T}

theorem sound_serverThreads (hlocks : w.locks = []) (hcache : w.cache = [])
    (hrun : Relation.ReflTransGen lockOrder.Moves (serverThreads defs fuel w threads) s) :
    lockOrder.Sound s := by
  refine (sound_start hcache hlocks fun t => ?_).run hrun
  exact (threads t).restores Notes.empty

instance : DecidablePred lockOrder.clean :=
  inferInstanceAs (DecidablePred fun g : Notes => ∀ map ∈ g.freed, map.players = [])

end Runs

end World
end MmoBackend
