import MmoBackend.Library.Ledger
import MmoBackend.World.Spawn
import MmoBackend.World.Walks

/-!
# References to maps

The ledger of the server has the maps as its boxes, under their ids, and the players as
its items.  A player on a map stands for a reference to it; so does an activation of
events.  A map lists the players it holds a reference to.

The references to a map are taken and given back all over the code, and some are never
given back: a player that changes its map keeps the reference of the old one, and
`map_spawn_player` and `packet_template_map` load a map and do not unload it.  So the
count of a map is no exact number.  It is never too small: this is `Good`, and every
call has a lemma that says that it is kept, and that `Shelters` holds in all states that
the call passes.
-/

namespace MmoBackend

open Authentication Communication Db Exec Ledger Maps

namespace World

variable (defs : MapDefs)

/-! ## The ledger -/

/-- A map in the ledger. -/
def mapBox (map : Map) : Box ℤ := ⟨map.id, map.refs, map.players⟩

/-- A player in the ledger. -/
def playerItem (player : Player) : Item := ⟨player.refs, player.map⟩

/-- The ledger of the server.  An id that `map_load` refuses is not in the table. -/
def ledger (w : World) : Ledger ℤ where
  boxes := w.maps.map mapBox
  items := w.players.map playerItem
  table id := if (defs.count : ℤ) < id ∨ id < 0 then none else w.tiles id.toNat

section View

variable {defs} (w : World) {i m p : ℕ} {map : Map} {player : Player}

theorem ledger_setMap (m : ℕ) (map : Map) :
    ledger defs (w.setMap m map) = (ledger defs w).setBox m (mapBox map) := by
  rw [ledger, maps_setMap, Heap.map_set]
  rfl

theorem ledger_setPlayer (p : ℕ) (player : Player) :
    ledger defs (w.setPlayer p player) = (ledger defs w).setItem p (playerItem player) := by
  rw [ledger, players_setPlayer, Heap.map_set]
  rfl

theorem ledger_freeMap (m : ℕ) :
    ledger defs { w with maps := w.maps.free m } = (ledger defs w).dropBox m := by
  rw [ledger, Heap.map_free]
  rfl

theorem ledger_destroyPlayer (p : ℕ) :
    ledger defs { w with locks := w.locks.erase (.player p), players := w.players.free p }
      = (ledger defs w).dropItem p := by
  rw [ledger, Heap.map_free]
  rfl

theorem ledger_newPlayer (player : Player) :
    ledger defs { w with players := w.players.alloc player }
      = (ledger defs w).addItem (playerItem player) := by
  rw [ledger, Heap.map_alloc]
  rfl

/-- The table after a write to `tiles`. -/
theorem table_update (hi : i < defs.count) (o : Option ℕ) :
    (ledger defs { w with tiles := Function.update w.tiles i o }).table
      = Function.update (ledger defs w).table (i : ℤ) o := by
  funext id
  by_cases hid : id = i
  · subst hid
    rw [Function.update_self]
    refine (if_neg (by omega)).trans ?_
    rw [Int.toNat_natCast]
    exact Function.update_self _ _ _
  · rw [Function.update_of_ne hid]
    by_cases hbad : (defs.count : ℤ) < id ∨ id < 0
    · exact (if_pos hbad).trans (if_pos hbad).symm
    · refine (if_neg hbad).trans (Eq.trans ?_ (if_neg hbad).symm)
      exact Function.update_of_ne (by omega) _ _

theorem ledger_addTile (hi : i < defs.count) (hid : map.id = i) :
    ledger defs (w.addTile i map) = (ledger defs w).addBox (mapBox map) := by
  have htable := table_update w hi (some w.maps.next)
  rw [addTile, ledger, Heap.map_alloc, Ledger.addBox]
  refine congrArg (Ledger.mk _ _) (htable.trans ?_)
  rw [← hid]
  rfl

theorem ledger_clearTile (hi : i < defs.count) :
    ledger defs { w with tiles := Function.update w.tiles i none }
      = (ledger defs w).clear (i : ℤ) :=
  congrArg (Ledger.mk _ _) (table_update w hi none)

variable {w}

theorem box_of_get (hm : w.maps.get m = some map) :
    (ledger defs w).boxes.get m = some (mapBox map) :=
  congrArg (Option.map mapBox) hm

theorem item_of_get (hp : w.players.get p = some player) :
    (ledger defs w).items.get p = some (playerItem player) :=
  congrArg (Option.map playerItem) hp

theorem tile_of_table {id : ℤ} (h : (ledger defs w).table id = some m) :
    ∃ i : ℕ, id = i ∧ i ≤ defs.count ∧ w.tiles i = some m := by
  by_cases hbad : (defs.count : ℤ) < id ∨ id < 0
  · exact absurd ((if_pos hbad).symm.trans h).symm (Option.some_ne_none m)
  · exact ⟨id.toNat, by omega, by omega, (if_neg hbad).symm.trans h⟩

end View

/-! ## What a state has to be like -/

/-- The references to maps are in order, while `held` are in the hands of code, `own p`
are the references to the player `p` that its holders own, and `d` is being freed. -/
structure Good (own : ℕ → ℕ) (held : List ℕ) (d : Option ℕ) (w : World) (g : Notes) : Prop where
  balanced : Balanced own (held ++ g.active) d (ledger defs w)
  uncached : w.cache = []
  clean : ∀ map ∈ g.freed, map.players = []

/-- What holds in between.  Every map a player other than `d` is on and every map with an
activation is in `tiles`, with enough references, and no map was freed with players in
its list. -/
structure Shelters (d : Option ℕ) (w : World) (g : Notes) : Prop where
  backed : Backed g.active d (ledger defs w)
  clean : ∀ map ∈ g.freed, map.players = []

variable {defs} {own own' : ℕ → ℕ} {held held' : List ℕ} {d : Option ℕ} {w w' : World}
  {g : Notes} {i m p : ℕ} {map : Map} {player : Player}

theorem Good.shelters (h : Good defs own held d w g) : Shelters defs d w g where
  backed := h.balanced.toBacked.mono fun k => by
    rw [List.count_append]
    omega
  clean := h.clean

theorem Good.mono (h : Good defs own held d w g)
    (hheld : ∀ k, held'.count k ≤ held.count k) : Good defs own held' d w g where
  balanced := h.balanced.mono fun k => by
    have hk := hheld k
    rw [List.count_append, List.count_append]
    omega
  uncached := h.uncached
  clean := h.clean

/-- A reference that was held is lost. -/
theorem Good.lose (h : Good defs own (m :: held) d w g) : Good defs own held d w g :=
  h.mono fun _ => List.count_le_count_cons

theorem Shelters.retire (h : Shelters defs none w g) (p : ℕ) : Shelters defs (some p) w g :=
  ⟨h.backed.except (some p), h.clean⟩

/-- The tile of a map in memory is the map. -/
theorem Good.tile_eq (h : Good defs own held d w g) (hm : w.maps.get m = some map) :
    ∃ i : ℕ, map.id = i ∧ i ≤ defs.count ∧ w.tiles i = some m :=
  tile_of_table (h.balanced.tabled m _ (box_of_get hm))

/-- A player somebody has a reference to is in memory. -/
theorem Good.player_of_own (h : Good defs own held d w g) (hp : 0 < own p) :
    ∃ player, w.players.get p = some player := by
  cases hget : w.players.get p with
  | some player => exact ⟨player, rfl⟩
  | none =>
    have hgone := (h.balanced.gone p (congrArg (Option.map playerItem) hget)).1
    omega

/-! ## Calls that leave the ledger alone -/

variable (defs) in
/-- The ledger and the cache are the same. -/
def SameLedger (w w' : World) : Prop := ledger defs w' = ledger defs w ∧ w'.cache = w.cache

instance : IsPreorder World (SameLedger defs) where
  refl _ := ⟨rfl, rfl⟩
  trans _ _ _ h h' := ⟨h'.1.trans h.1, h'.2.trans h.2⟩

theorem SameLedger.good (h : SameLedger defs w w') (hw : Good defs own held d w g) :
    Good defs own held d w' g :=
  ⟨h.1 ▸ hw.balanced, h.2.trans hw.uncached, hw.clean⟩

theorem SameLedger.shelters (h : SameLedger defs w w') (hw : Shelters defs d w g) :
    Shelters defs d w' g :=
  ⟨h.1 ▸ hw.backed, hw.clean⟩

theorem SameLedger.setMap (hm : w.maps.get m = some map) {map' : Map}
    (hbox : mapBox map' = mapBox map) : SameLedger defs w (w.setMap m map') := by
  refine ⟨?_, rfl⟩
  rw [ledger_setMap, hbox, Ledger.setBox, Heap.set_eq_self (box_of_get hm)]

theorem SameLedger.setPlayer (hp : w.players.get p = some player) {player' : Player}
    (hitem : playerItem player' = playerItem player) :
    SameLedger defs w (w.setPlayer p player') := by
  refine ⟨?_, rfl⟩
  rw [ledger_setPlayer, hitem, Ledger.setItem, Heap.set_eq_self (item_of_get hp)]

section Quiet

variable {α : Type}

/-- Code that leaves the ledger alone. -/
abbrev Quiet (defs : MapDefs) (x : Exec World α) : Prop := Within (SameLedger defs) x

theorem quiet_lock (l : Lock) : Quiet defs (lock l) := by
  intro w u w' h
  obtain ⟨-, rfl⟩ := lock_eq_ok.mp h
  exact ⟨rfl, rfl⟩

theorem quiet_unlock (l : Lock) : Quiet defs (unlock l) := within_modify fun _ => ⟨rfl, rfl⟩

theorem quiet_need (o : Option α) : Quiet defs (Exec.need o) :=
  within_of_state_eq fun _ _ _ h => (need_eq_ok.mp h).2

theorem quiet_derefMap (m : ℕ) : Quiet defs (derefMap m) :=
  within_of_state_eq fun _ _ _ h => (derefMap_eq_ok.mp h).2

theorem quiet_derefPlayer (p : ℕ) : Quiet defs (derefPlayer p) :=
  within_of_state_eq fun _ _ _ h => (derefPlayer_eq_ok.mp h).2

theorem quiet_derefSession (s : ℕ) : Quiet defs (derefSession s) :=
  within_of_state_eq fun _ _ _ h => (derefSession_eq_ok.mp h).2

theorem quiet_packetWrite (fd : ℕ) (packet : ServerPacket) : Quiet defs (packetWrite fd packet) :=
  within_modify fun _ => ⟨rfl, rfl⟩

theorem quiet_updatePlayer (p : ℕ) {f : Player → Player}
    (hf : ∀ player, playerItem (f player) = playerItem player) :
    Quiet defs (updatePlayer p f) := by
  intro w u w' h
  obtain ⟨player, hp, rfl⟩ := updatePlayer_eq_ok.mp h
  exact .setPlayer hp (hf player)

theorem quiet_writeToPlayer (packet : ServerPacket) (p : ℕ) :
    Quiet defs (writeToPlayer packet p) := by
  intro w u w' h
  rw [(writeToPlayer_eq_ok h).2]
  exact ⟨rfl, rfl⟩

theorem quiet_sendLeaving (m : ℕ) (packet : ServerPacket) (removed : Bool) :
    Quiet defs (sendLeaving m packet removed) :=
  within_ite (within_bind (quiet_derefMap m) fun _ =>
    within_forEach fun q _ => quiet_writeToPlayer packet q) (within_pure ())

theorem quiet_announce (p : ℕ) : Quiet defs (announce p) := by
  refine within_bind (quiet_derefPlayer p) fun player => ?_
  intro w u w' h
  cases hm : player.map with
  | none =>
    rw [hm] at h
    obtain ⟨-, rfl⟩ := pure_eq_ok.mp h
    exact ⟨rfl, rfl⟩
  | some m =>
    rw [hm] at h
    rcases mapSendPacket_eq_ok h with ⟨-, rfl⟩ | ⟨_, _, -, -, rfl⟩
    · exact ⟨rfl, rfl⟩
    · exact ⟨rfl, rfl⟩

theorem quiet_sendPositions (m p : ℕ) : Quiet defs (sendPositions m p) :=
  within_bind (quiet_derefMap m) fun _ => within_forEach fun q _ =>
    within_ite (within_pure ()) <| within_bind (quiet_derefPlayer q) fun _ =>
      within_need_bind fun _ _ => quiet_writeToPlayer _ p

theorem quiet_toggleCoord (m : ℕ) (x y : ℤ) (disable : Bool) :
    Quiet defs (toggleCoord m x y disable) := by
  intro w b w' h
  obtain ⟨map, map', hm, htoggle, rfl⟩ := toggleCoord_eq_ok h
  refine .setMap hm ?_
  rcases mapToggleCoord_eq_some htoggle with ⟨-, rfl, -⟩ | ⟨-, rfl, -⟩
  · rfl
  · rfl

theorem quiet_enableOldCoord (p : ℕ) : ∀ oldMap, Quiet defs (enableOldCoord p oldMap)
  | none => within_pure true
  | some m => within_bind (quiet_derefPlayer p) fun _ => quiet_toggleCoord m _ _ false

theorem quiet_moveValid (p : ℕ) (x y : ℤ) : ∀ newMap, Quiet defs (moveValid p x y newMap)
  | none => within_bind (quiet_derefPlayer p) fun _ => within_pure _
  | some _ => within_pure true

theorem quiet_writeModified (p : ℕ) : Quiet defs (writeModified p) := by
  refine within_bind (quiet_derefPlayer p) fun player => within_ite (within_pure ()) ?_
  exact within_bind (quiet_derefPlayer p) fun _ => within_need_bind fun _ _ =>
    within_need_bind fun _ _ => within_need_bind fun _ _ =>
      within_bind (quiet_derefMap _) fun _ => within_modify fun _ => ⟨rfl, rfl⟩

end Quiet

end World
end MmoBackend
