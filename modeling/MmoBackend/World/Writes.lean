import MmoBackend.World.Server
import MmoBackend.World.Sound

/-!
# What the code writes

Whatever the functions of the server do to the state, they do it with a few kinds of
writes: `Write` has a case for each.  `Writes` is any number of them, one after the other,
where a lock that is taken is released in the end, and a map that is freed is taken out of
`tiles` at once.  Every function is `Within` it, which is shown by going over its text.

So what every kind of write keeps is kept by every call that returns, in whatever state it
is made.  Nothing has to be known about pointers and references for this.
-/

namespace MmoBackend

open Authentication Communication Db Exec Maps

namespace World

/-- One write. -/
inductive Write (defs : MapDefs) (w : World) : World → Prop
  /-- What maps and players do not see. -/
  | aside (sessions : Heap Session) (table : AwaitingTable) (packetErrno : ℤ)
      (out : List (ℕ × Sent)) :
      Write defs w { w with
        sessions := sessions, table := table, packetErrno := packetErrno, out := out }
  | addTile {i : ℕ} {map : Map} :
      w.tiles i = none → defs.loaders[i]? = some map → Write defs w (w.addTile i map)
  /-- A map is written, keeping what is fixed. -/
  | map {m : ℕ} {old map : Map} :
      w.maps.get m = some old → frame map = frame old → Write defs w (w.setMap m map)
  | newPlayer :
      Write defs w { w with players := w.players.alloc ⟨0, 0, 0, 0, 1, none, none, none, none⟩ }
  /-- A player is written.  Nothing writes `modified`. -/
  | player {p : ℕ} {old player : Player} :
      w.players.get p = some old → player.modified = old.modified →
      Write defs w (w.setPlayer p player)
  | freePlayer (p : ℕ) : Write defs w { w with players := w.players.free p }
  | uncache (id : CString) :
      Write defs w { w with cache := w.cache.filter fun e => e.1 ≠ id }
  /-- The database is written for a player that was modified. -/
  | save {p : ℕ} {player : Player} (playerdata : List Document) :
      w.players.get p = some player → player.modified ≠ 0 →
      Write defs w { w with playerdata := playerdata }

/-- Free the map `m` and take it out of `tiles`. -/
def dropTile (i m : ℕ) (w : World) : World :=
  { w with maps := w.maps.free m, tiles := Function.update w.tiles i none }

/-- Any number of writes. -/
inductive Writes (defs : MapDefs) : World → World → Prop
  | refl {w : World} : Writes defs w w
  | one {w w' : World} : Write defs w w' → Writes defs w w'
  | trans {w v w' : World} : Writes defs w v → Writes defs v w' → Writes defs w w'
  /-- They are made under a lock. -/
  | locked {w w' : World} (l : Lock) :
      Writes defs (w.setLocks (l :: w.locks)) w' →
      Writes defs w (w'.setLocks (w'.locks.erase l))
  /-- They were made to free the map of `tiles[i]`. -/
  | unloaded {w w' : World} {i m : ℕ} :
      w.tiles i = some m → Writes defs w w' → Writes defs w (w'.dropTile i m)

instance (defs : MapDefs) : IsPreorder World (Writes defs) where
  refl _ := .refl
  trans _ _ _ := .trans

variable {defs : MapDefs} {w w' : World}

theorem Write.locks_eq (h : Write defs w w') : w'.locks = w.locks := by
  cases h <;> rfl

/-- **The locks** are given back. -/
theorem Writes.locks_eq (h : Writes defs w w') : w'.locks = w.locks := by
  induction h with
  | refl => rfl
  | one h => exact h.locks_eq
  | trans _ _ ih ih' => exact ih'.trans ih
  | locked l _ ih =>
    show List.erase _ l = _
    rw [ih]
    exact List.erase_cons_head _ _
  | unloaded _ _ ih => exact ih

/-- **The invariant rule**, for what is not about the locks. -/
theorem Writes.invariant {I : World → Prop} (h : Writes defs w w')
    (hlocks : ∀ v l, I v → I (v.setLocks l)) (hwrite : ∀ v v', I v → Write defs v v' → I v')
    (hdrop : ∀ v i m, I v → I (v.dropTile i m)) (hw : I w) : I w' := by
  induction h with
  | refl => exact hw
  | one h => exact hwrite _ _ hw h
  | trans _ _ ih ih' => exact ih' (ih hw)
  | locked l _ ih => exact hlocks _ _ (ih (hlocks _ _ hw))
  | unloaded _ _ ih => exact hdrop _ _ _ (ih hw)

/-! ## Maps in memory

A map keeps its id for as long as it is in memory, and a pointer that was handed out once
is not handed out again.  So a map that is freed is in `tiles` at no other id. -/

/-- No map that was allocated before has come back, or has another id. -/
structure SameIds (w w' : World) : Prop where
  next_le : w.maps.next ≤ w'.maps.next
  old : ∀ m map', m < w.maps.next → w'.maps.get m = some map' →
    ∃ map, w.maps.get m = some map ∧ map'.id = map.id

theorem SameIds.of_maps (h : w'.maps = w.maps) : SameIds w w' where
  next_le := h ▸ Nat.le_refl _
  old _ map' _ hm := ⟨map', h ▸ hm, rfl⟩

theorem SameIds.trans {v : World} (h : SameIds w v) (h' : SameIds v w') : SameIds w w' where
  next_le := h.next_le.trans h'.next_le
  old m map' hlt hm := by
    obtain ⟨map, hmap, hid⟩ := h'.old m map' (hlt.trans_le h.next_le) hm
    obtain ⟨map₀, hmap₀, hid₀⟩ := h.old m map hlt hmap
    exact ⟨map₀, hmap₀, hid.trans hid₀⟩

theorem Write.sameIds (h : Write defs w w') : SameIds w w' := by
  cases h with
  | @addTile i map _ _ =>
    refine ⟨Nat.le_succ _, fun m map' hlt hm => ?_⟩
    rcases Heap.get_alloc_eq_some hm with ⟨rfl, -⟩ | ⟨-, hm⟩
    · exact absurd hlt (Nat.lt_irrefl _)
    · exact ⟨map', hm, rfl⟩
  | @map k old map hk hframe =>
    refine ⟨Nat.le_refl _, fun m map' hlt hm => ?_⟩
    by_cases hmk : m = k
    · subst hmk
      obtain rfl := Option.some.inj ((Heap.get_set_self map hk).symm.trans hm)
      exact ⟨old, hk, id_of_frame hframe⟩
    · exact ⟨map', (Heap.get_set_of_ne map hmk).symm.trans hm, rfl⟩
  | _ => exact .of_maps rfl

theorem Writes.sameIds (h : Writes defs w w') : SameIds w w' := by
  induction h with
  | refl => exact .of_maps rfl
  | one h => exact h.sameIds
  | trans _ _ ih ih' => exact ih.trans ih'
  | locked _ _ ih => exact ⟨ih.next_le, ih.old⟩
  | @unloaded w w' i m _ _ ih =>
    refine ⟨ih.next_le, fun k map' hlt hk => ?_⟩
    by_cases hkm : k = m
    · subst hkm
      exact absurd ((Heap.get_free_self w'.maps k).symm.trans hk).symm (Option.some_ne_none _)
    · exact ih.old k map' hlt ((if_neg hkm).symm.trans hk)

/-- Every map in `tiles` is in memory and has the id it is found under. -/
def Tiled (w : World) : Prop :=
  ∀ i m, w.tiles i = some m → ∃ map, w.maps.get m = some map ∧ map.id = i

theorem Write.tiled (h : Write defs w w') (hw : Tiled w) : Tiled w' := by
  cases h with
  | @addTile i map _ hmap =>
    intro j m hm
    by_cases hji : j = i
    · subst hji
      obtain rfl : w.maps.next = m :=
        Option.some.inj ((Function.update_self j _ w.tiles).symm.trans hm)
      exact ⟨map, Heap.get_alloc_next _ _, (defs.fresh j map hmap).1⟩
    · obtain ⟨old, hold, hid⟩ := hw j m ((Function.update_of_ne hji _ _).symm.trans hm)
      exact ⟨old, Heap.get_alloc_of_get _ hold, hid⟩
  | @map k old map hk hframe =>
    intro j m hm
    obtain ⟨before, hbefore, hid⟩ := hw j m hm
    by_cases hmk : m = k
    · subst hmk
      obtain rfl := Option.some.inj (hk.symm.trans hbefore)
      exact ⟨map, Heap.get_set_self map hk, (id_of_frame hframe).trans hid⟩
    · exact ⟨before, (Heap.get_set_of_ne map hmk).trans hbefore, hid⟩
  | _ => exact hw

/-- **The maps in `tiles`** stay in memory. -/
theorem Writes.tiled (h : Writes defs w w') (hw : Tiled w) : Tiled w' := by
  induction h with
  | refl => exact hw
  | one h => exact h.tiled hw
  | trans _ _ ih ih' => exact ih' (ih hw)
  | locked _ _ ih => exact ih hw
  | @unloaded w w' i m hm hwrites ih =>
    intro j k hk
    have hji : j ≠ i := by
      rintro rfl
      have hnone : (w'.dropTile j m).tiles j = none := by
        show Function.update w'.tiles j none j = none
        exact Function.update_self _ _ _
      exact absurd (hk.symm.trans hnone) (Option.some_ne_none k)
    obtain ⟨map, hmap, hid⟩ := ih hw j k ((Function.update_of_ne hji _ _).symm.trans hk)
    refine ⟨map, (if_neg ?_).trans hmap, hid⟩
    rintro rfl
    -- the map that is freed has the id `i`
    obtain ⟨freed, hfreed, hi⟩ := hw i k hm
    have hlt : k < w.maps.next := by
      by_contra hle
      exact Option.some_ne_none freed (hfreed.symm.trans (w.maps.fresh k (by omega)))
    obtain ⟨old, hold, hsame⟩ := hwrites.sameIds.old k map hlt hmap
    obtain rfl := Option.some.inj (hfreed.symm.trans hold)
    exact hji (by omega)

/-! ## Locks -/

/-- Writes that release the locks `ls`, which are the last that were taken. -/
def Releases (defs : MapDefs) (ls : List Lock) (w w' : World) : Prop :=
  ∀ L, w.locks = ls ++ L → Writes defs (w.setLocks L) w'

/-- What is written under locks. -/
theorem Writes.setLocks {ls L : List Lock} (h : Writes defs w w') (hls : w.locks = ls ++ L) :
    Writes defs (w.setLocks L) (w'.setLocks L) := by
  induction ls generalizing w w' with
  | nil =>
    obtain rfl : w.locks = L := hls
    have hw' : w'.setLocks w.locks = w' := by
      rw [← h.locks_eq]
      rfl
    rw [hw']
    exact h
  | cons l ls ih =>
    have hlocked : Writes defs (w.setLocks (ls ++ L)) (w'.setLocks (w'.locks.erase l)) := by
      refine .locked l ?_
      show Writes defs (w.setLocks (l :: (ls ++ L))) w'
      rw [← List.cons_append, ← hls]
      exact h
    have hrest := ih hlocked rfl
    exact hrest

variable {α β : Type} {ls : List Lock} {l : Lock}

theorem within_writes_iff {x : Exec World α} :
    Within (Writes defs) x ↔ Within (Releases defs []) x := by
  constructor
  · rintro h w a w' hx L rfl
    exact h w a w' hx
  · exact fun h w a w' hx => h w a w' hx w.locks rfl

theorem within_lock_bind {f : Unit → Exec World α}
    (hf : ∀ u, Within (Releases defs (l :: ls)) (f u)) :
    Within (Releases defs ls) (lock l >>= f) := by
  intro w a w' h L hL
  obtain ⟨u, _, hlock, hf'⟩ := bind_eq_ok.mp h
  obtain ⟨-, rfl⟩ := lock_eq_ok.mp hlock
  exact hf u _ a w' hf' L (congrArg (l :: ·) hL)

theorem within_unlock_bind {f : Unit → Exec World α} (hl : l ∈ ls)
    (hf : ∀ u, Within (Releases defs (ls.erase l)) (f u)) :
    Within (Releases defs ls) (unlock l >>= f) := by
  intro w a w' h L hL
  obtain ⟨u, _, hunlock, hf'⟩ := bind_eq_ok.mp h
  obtain rfl := unlock_eq_ok.mp hunlock
  refine hf u _ a w' hf' L ?_
  show w.locks.erase l = _
  rw [hL, List.erase_append_left _ hl]

theorem within_unlock : Within (Releases defs [l]) (unlock l) := by
  intro w u w' h L hL
  obtain rfl := unlock_eq_ok.mp h
  rw [hL]
  show Writes defs _ (w.setLocks ((l :: L).erase l))
  rw [List.erase_cons_head]
  exact .refl

/-- Under the locks anything can be done that gives its own locks back. -/
theorem within_releases_bind {x : Exec World α} {f : α → Exec World β}
    (hx : Within (Writes defs) x) (hf : ∀ a, Within (Releases defs ls) (f a)) :
    Within (Releases defs ls) (x >>= f) := by
  intro w b w' h L hL
  obtain ⟨a, v, ha, hb⟩ := bind_eq_ok.mp h
  have hwrites := hx w a v ha
  exact (hwrites.setLocks hL).trans (hf a v b w' hb L (hwrites.locks_eq.trans hL))

/-! ## Memory -/

theorem within_derefMap (m : ℕ) : Within (Writes defs) (derefMap m) :=
  within_of_state_eq fun _ _ _ h => (derefMap_eq_ok.mp h).2

theorem within_derefPlayer (p : ℕ) : Within (Writes defs) (derefPlayer p) :=
  within_of_state_eq fun _ _ _ h => (derefPlayer_eq_ok.mp h).2

theorem within_derefSession (s : ℕ) : Within (Writes defs) (derefSession s) :=
  within_of_state_eq fun _ _ _ h => (derefSession_eq_ok.mp h).2

theorem within_updateMap (m : ℕ) {f : Map → Map} (hf : ∀ map, frame (f map) = frame map) :
    Within (Writes defs) (updateMap m f) := by
  intro w u w' h
  obtain ⟨map, hm, rfl⟩ := updateMap_eq_ok.mp h
  exact .one (.map hm (hf map))

theorem within_updatePlayer (p : ℕ) {f : Player → Player}
    (hf : ∀ player, (f player).modified = player.modified) :
    Within (Writes defs) (updatePlayer p f) := by
  intro w u w' h
  obtain ⟨player, hp, rfl⟩ := updatePlayer_eq_ok.mp h
  exact .one (.player hp (hf player))

theorem within_packetWrite (fd : ℕ) (packet : ServerPacket) :
    Within (Writes defs) (packetWrite fd packet) :=
  within_modify fun _ => .one (.aside _ _ _ _)

/-- A packet goes to the socket of a session. -/
theorem within_writeSession (s : ℕ) (packet : ServerPacket) :
    Within (Writes defs) (derefSession s >>= fun session => packetWrite session.fd packet) :=
  within_bind (within_derefSession s) fun _ => within_packetWrite _ _

/-! ## Loading and freeing -/

theorem within_ensureTile {i : ℕ} {map : Map} (hmap : defs.loaders[i]? = some map) :
    Within (Writes defs) (ensureTile i map) := by
  intro w m w' h
  simp only [ensureTile, bind_eq_ok, get_eq_ok] at h
  obtain ⟨_, _, ⟨rfl, rfl⟩, h⟩ := h
  cases hi : w.tiles i with
  | some k =>
    rw [hi] at h
    obtain ⟨-, rfl⟩ := pure_eq_ok.mp h
    exact .refl
  | none =>
    rw [hi] at h
    simp only [bind_eq_ok, modify_eq_ok, pure_eq_ok] at h
    obtain ⟨_, _, rfl, -, rfl⟩ := h
    exact .one (.addTile hi hmap)

theorem within_mapLoad (id : ℤ) : Within (Writes defs) (mapLoad defs id) := by
  refine within_ite (within_pure _) <| within_need_bind fun _ hmap => within_writes_iff.mpr <|
    within_lock_bind fun _ => within_releases_bind (within_ensureTile hmap) fun m =>
      within_releases_bind (within_updateMap m fun _ => rfl) fun _ =>
        within_unlock_bind List.mem_cons_self fun _ => ?_
  rw [List.erase_cons_head]
  exact within_writes_iff.mp (within_get_bind fun _ => within_pure _)

section Free

variable {free : ℕ → Exec World Unit} (hfree : ∀ p, Within (Writes defs) (free p))

include hfree

/-- Freeing the map and clearing `tiles` make one write. -/
theorem writes_unrefTile {i m : ℕ} {u : Unit} (hi : w.tiles i = some m)
    (h : unrefTile free i m w = .ok (u, w')) : Writes defs w w' := by
  simp only [unrefTile, bind_eq_ok, derefMap_eq_ok, modify_eq_ok, ite_eq_ok, pure_eq_ok,
    mapFree] at h
  obtain ⟨map, _, ⟨hm, rfl⟩, _, _, rfl, ⟨-, _, _, ⟨old, _, ⟨-, rfl⟩, ⟨⟩, v, hloop, rfl⟩, rfl⟩ |
    ⟨-, -, rfl⟩⟩ := h
  · have hunref : Writes defs w (w.setMap m { map with refs := map.refs - 1 }) :=
      .one (.map hm rfl)
    exact .unloaded hi (hunref.trans (within_forEach (fun p _ => hfree p) _ _ _ hloop))
  · exact .one (.map hm rfl)

theorem within_mapUnloadWith (id : ℤ) :
    Within (Writes defs) (mapUnloadWith defs free id) := by
  refine within_ite (within_pure ()) (within_need_bind fun _ _ => ?_)
  intro w u w' h
  obtain ⟨_, _, hget, h⟩ := bind_eq_ok.mp h
  obtain ⟨rfl, rfl⟩ := get_eq_ok.mp hget
  cases hi : w.tiles id.toNat with
  | none =>
    rw [hi] at h
    obtain ⟨-, rfl⟩ := pure_eq_ok.mp h
    exact .refl
  | some m =>
    rw [hi] at h
    simp only [bind_eq_ok, lock_eq_ok, unlock_eq_ok] at h
    obtain ⟨_, _, ⟨-, rfl⟩, _, v, hunref, rfl⟩ := h
    exact .locked _ (writes_unrefTile hfree hi hunref)

theorem within_playerCacheRemove (id : CString) :
    Within (Writes defs) (playerCacheRemove free id) := by
  refine within_get_bind fun w => ?_
  cases w.cache.lookup id with
  | none => exact within_pure ()
  | some p =>
    exact within_bind (within_modify fun _ => .one (.uncache id)) fun _ =>
      within_bind (within_derefPlayer p) fun _ => within_ite (within_pure ()) (hfree p)

omit hfree in
/-- The one place that writes the database. -/
theorem within_writeModified (p : ℕ) : Within (Writes defs) (writeModified p) := by
  intro w u w' h
  simp only [writeModified, dbPlayerWritePlayer, bind_eq_ok, derefPlayer_eq_ok, ite_eq_ok,
    pure_eq_ok, need_eq_ok, derefMap_eq_ok, modify_eq_ok] at h
  obtain ⟨player, _, ⟨hp, rfl⟩, ⟨-, -, rfl⟩ | ⟨hmodified, _, _, ⟨-, rfl⟩, _, _, ⟨-, rfl⟩, _, _,
    ⟨-, rfl⟩, _, _, ⟨-, rfl⟩, _, _, ⟨-, rfl⟩, rfl⟩⟩ := h
  · exact .refl
  · exact .one (.save _ hp hmodified)

theorem within_releasePlayer (p : ℕ) :
    Within (Releases defs [.player p, .cache]) (releasePlayer defs free p) := by
  have hunload : Within (Writes defs) (unloadPlayerMap defs free p) := by
    refine within_bind (within_derefPlayer p) fun player => ?_
    cases player.map with
    | none => exact within_pure ()
    | some m => exact within_bind (within_derefMap m) fun _ => within_mapUnloadWith hfree _
  have huncache : Within (Writes defs) (uncachePlayer free p) := by
    refine within_bind (within_derefPlayer p) fun player => ?_
    cases player.id with
    | none => exact within_pure ()
    | some id => exact within_playerCacheRemove hfree id
  refine within_releases_bind (within_writeModified p) fun _ => within_releases_bind hunload
    fun _ => within_releases_bind huncache fun _ => within_unlock_bind (by simp) fun _ => ?_
  show Within _ (do unlock (.player p); Exec.modify fun w => { w with players := w.players.free p })
  refine within_unlock_bind (by simp) fun _ => ?_
  rw [show (([.player p, .cache] : List Lock).erase .cache).erase (.player p) = [] by simp]
  exact within_writes_iff.mp (within_modify fun _ => .one (.freePlayer p))

theorem within_playerFreeWith (p : ℕ) : Within (Writes defs) (playerFreeWith defs free p) := by
  refine within_writes_iff.mpr <| within_lock_bind fun _ => within_lock_bind fun _ =>
    within_releases_bind (within_updatePlayer p fun _ => rfl) fun _ =>
      within_releases_bind (within_derefPlayer p) fun _ =>
        within_ite (within_unlock_bind (by simp) fun _ => ?_) (within_releasePlayer hfree p)
  rw [show ([.player p, .cache] : List Lock).erase .cache = [.player p] by simp]
  exact within_unlock

end Free

theorem within_playerFree (p : ℕ) : Within (Writes defs) (playerFree defs p) :=
  within_playerFreeWith (within_playerFreeWith fun _ => within_stop _) p

theorem within_mapUnload (id : ℤ) : Within (Writes defs) (mapUnload defs id) :=
  within_mapUnloadWith within_playerFree id

theorem within_playerRef (p : ℕ) : Within (Writes defs) (playerRef p) :=
  within_writes_iff.mpr <| within_lock_bind fun _ =>
    within_releases_bind (within_updatePlayer p fun _ => rfl) fun _ => within_unlock

/-! ## Reading a player -/

theorem within_playerCacheFind (id : CString) : Within (Writes defs) (playerCacheFind id) := by
  refine within_writes_iff.mpr <| within_lock_bind fun _ => within_get_bind fun w => ?_
  cases w.cache.lookup id with
  | none =>
    refine within_unlock_bind List.mem_cons_self fun _ => within_writes_iff.mp ?_
    exact within_pure none
  | some p =>
    refine within_lock_bind fun _ => within_releases_bind (within_updatePlayer p fun _ => rfl)
      fun _ => within_unlock_bind (by simp) fun _ => within_unlock_bind (by simp) fun _ => ?_
    rw [show (([.player p, .cache] : List Lock).erase .cache).erase (.player p) = [] by simp]
    exact within_writes_iff.mp (within_pure (some p))

theorem within_readField (p : ℕ) (field : String × Bson) :
    Within (Writes defs) (readField defs p field) := by
  have hset : ∀ f : Player → Player, (∀ player, (f player).modified = player.modified) →
      Within (Writes defs) (updatePlayer p f) := fun f hf => within_updatePlayer p hf
  exact within_ite (within_need_bind fun _ _ => hset _ fun _ => rfl)
    (within_ite (within_need_bind fun _ _ => hset _ fun _ => rfl)
      (within_ite (within_bind (within_mapLoad _) fun _ => hset _ fun _ => rfl)
        (within_ite (hset _ fun _ => rfl) (within_ite (hset _ fun _ => rfl)
          (within_ite (hset _ fun _ => rfl) (within_pure ()))))))

theorem within_playerCreate : Within (Writes defs) playerCreate :=
  within_get_bind fun _ => within_bind (within_modify fun _ => .one .newPlayer) fun _ =>
    within_pure _

theorem within_dbPlayerGetPlayer (id : CString) :
    Within (Writes defs) (dbPlayerGetPlayer defs id) := by
  refine within_bind (within_playerCacheFind id) fun cached => ?_
  cases cached with
  | some p => exact within_pure (some p)
  | none =>
    refine within_get_bind fun w => ?_
    cases findById id w.playerdata with
    | none => exact within_pure none
    | some doc =>
      exact within_bind within_playerCreate fun p => within_bind
        (within_forEach fun field _ => within_readField p field) fun _ => within_pure (some p)

theorem within_playerChangeName (p : ℕ) (name : CString) :
    Within (Writes defs) (playerChangeName p name) := within_updatePlayer p fun _ => rfl

/-! ## Moves -/

theorem within_writeToPlayer (packet : ServerPacket) (p : ℕ) :
    Within (Writes defs) (writeToPlayer packet p) :=
  within_bind (within_derefPlayer p) fun _ => within_need_bind fun s _ =>
    within_writeSession s packet

theorem within_mapSendPacket : ∀ (m : Option ℕ) (packet : Option ServerPacket),
    Within (Writes defs) (mapSendPacket m packet)
  | none, _ => within_pure ()
  | some _, none => within_pure ()
  | some m, some packet => by
    refine within_bind (within_derefMap m) fun _ => within_forEach fun p _ => ?_
    refine within_bind (within_derefPlayer p) fun player => ?_
    cases player.session with
    | none => exact within_pure ()
    | some s => exact within_writeSession s packet

theorem within_mapSendMapPacket : ∀ m s : Option ℕ,
    Within (Writes defs) (mapSendMapPacket defs m s)
  | none, _ => within_pure ()
  | some _, none => within_pure ()
  | some m, some s => within_bind (within_derefMap m) fun map =>
      within_bind (within_bind (within_mapLoad map.id) fun _ => within_need_bind fun k _ =>
        within_bind (within_derefMap k) fun _ => within_pure _) fun packet =>
          within_writeSession s packet

theorem within_mapAddPlayer (m p : ℕ) : Within (Writes defs) (mapAddPlayer defs m p) :=
  within_bind (within_playerRef p) fun _ => within_bind (within_updateMap m fun _ => rfl)
    fun _ => within_bind (within_derefMap m) fun map => within_bind (within_mapLoad map.id)
      fun _ => within_updatePlayer p fun _ => rfl

theorem within_unlinkPlayer (m p : ℕ) : Within (Writes defs) (unlinkPlayer defs m p) := by
  intro w r w' h
  simp only [unlinkPlayer, bind_eq_ok, derefMap_eq_ok, ite_eq_ok, modify_eq_ok, pure_eq_ok] at h
  obtain ⟨map, _, ⟨hm, rfl⟩, ⟨-, _, _, rfl, _, v, hfree, -, rfl⟩ | ⟨-, -, rfl⟩⟩ := h
  · have hunlink : Writes defs w (w.setMap m { map with players := map.players.erase p }) :=
      .one (.map hm rfl)
    exact hunlink.trans (within_playerFree p _ _ _ hfree)
  · exact .refl

theorem within_mapRemovePlayer : ∀ (m : Option ℕ) (p : ℕ),
    Within (Writes defs) (mapRemovePlayer defs m p)
  | none, _ => within_pure ()
  | some m, p => within_bind (within_unlinkPlayer m p) fun _ =>
      within_bind (within_derefPlayer p) fun _ => within_need_bind fun id _ =>
        within_ite (within_bind (within_derefMap m) fun _ =>
          within_forEach fun q _ => within_writeToPlayer (.leavingMap id) q) (within_pure ())

/-- Switching a cell keeps everything but the bits. -/
theorem frame_of_mapToggleCoord {map map' : Map} {x y : ℤ} {disable b : Bool}
    (h : mapToggleCoord map x y disable = some (b, map')) : frame map' = frame map := by
  rcases mapToggleCoord_eq_some h with ⟨-, rfl, -⟩ | ⟨-, rfl, -⟩
  · rfl
  · rfl

theorem within_toggleCoord (m : ℕ) (x y : ℤ) (disable : Bool) :
    Within (Writes defs) (toggleCoord m x y disable) := by
  intro w b w' h
  obtain ⟨map, map', hm, htoggle, rfl⟩ := toggleCoord_eq_ok h
  exact .one (.map hm (frame_of_mapToggleCoord htoggle))

theorem within_changeMap (oldMap : Option ℕ) (p : ℕ) :
    ∀ m, Within (Writes defs) (changeMap defs oldMap p m)
  | none => within_pure ()
  | some m => within_bind (within_mapRemovePlayer oldMap p) fun _ => within_mapAddPlayer m p

theorem within_enableOldCoord (p : ℕ) : ∀ m, Within (Writes defs) (enableOldCoord p m)
  | none => within_pure true
  | some m => within_bind (within_derefPlayer p) fun _ => within_toggleCoord m _ _ false

section Circle

variable {spawn : ℤ → ℕ → ℤ → ℤ → ℤ → Exec World ℤ}

theorem within_mapEventActivate
    (hspawn : ∀ id p x y suppress, Within (Writes defs) (spawn id p x y suppress)) (x y : ℤ)
    (m p : ℕ) : Within (Writes defs) (mapEventActivate defs spawn x y m p) := by
  have hevent : ∀ e : MapEvent, Within (Writes defs) (eventFunc spawn p e) := by
    intro e
    unfold eventFunc
    cases e.func with
    | changeMap =>
      exact within_need_bind fun _ _ => within_need_bind fun _ _ => within_need_bind fun _ _ =>
        within_need_bind fun _ _ => within_bind (hspawn _ p _ _ _) fun _ => within_pure ()
    | _ => exact within_bind (within_derefPlayer p) fun _ => within_pure ()
  refine within_bind (within_derefMap m) fun map => within_bind (within_mapLoad map.id)
    fun loaded => within_bind (within_forEach fun e _ => ?_) fun _ => ?_
  · exact within_bind (within_derefMap m) fun _ => within_ite (hevent e) (within_pure ())
  · cases loaded with
    | none => exact within_pure ()
    | some k => exact within_bind (within_derefMap k) fun _ => within_mapUnload _

variable {activate : ℤ → ℤ → ℕ → ℕ → Exec World Unit}

theorem within_playerMoveWith
    (hactivate : ∀ x y m p, Within (Writes defs) (activate x y m p)) (p : ℕ) (x y : ℤ)
    (args : MoveArgs) : Within (Writes defs) (playerMoveWith defs activate p x y args) := by
  have hmoveTo : Within (Writes defs) (moveTo activate p x y args.suppressEvents) :=
    within_bind (within_updatePlayer p fun _ => rfl) fun _ => within_bind
      (within_ite (within_pure ()) (within_bind (within_derefPlayer p) fun _ =>
        within_need_bind fun m _ => hactivate x y m p)) fun _ =>
          within_bind (within_derefPlayer p) fun _ => within_mapSendPacket _ _
  have hmoveFrom : ∀ oldMap, Within (Writes defs) (moveFrom activate oldMap p x y args) :=
    fun oldMap => within_bind (within_enableOldCoord p oldMap) fun _ =>
      within_ite (within_bind hmoveTo fun _ => within_pure true) (within_pure false)
  have hwithin : ∀ oldMap, Within (Writes defs) (moveWithin activate oldMap p x y args) :=
    fun oldMap => within_bind (within_derefPlayer p) fun _ => within_need_bind fun m _ =>
      within_bind (within_derefMap m) fun _ => within_ite
        (within_bind (within_toggleCoord m x y true) fun _ =>
          within_ite (hmoveFrom oldMap) (within_pure false)) (within_pure false)
  have hvalid : ∀ m, Within (Writes defs) (moveValid p x y m)
    | none => within_bind (within_derefPlayer p) fun _ => within_pure _
    | some _ => within_pure true
  exact within_bind (within_derefPlayer p) fun player =>
    within_bind (within_changeMap player.map p args.map) fun _ =>
      within_bind (hvalid args.map) fun _ => within_ite (hwithin player.map) (within_pure false)

variable {move : ℕ → ℤ → ℤ → MoveArgs → Exec World Bool}

theorem within_mapSpawnPlayerWith
    (hmove : ∀ p x y args, Within (Writes defs) (move p x y args)) (id : ℤ) (p : ℕ)
    (x y suppress : ℤ) :
    Within (Writes defs) (mapSpawnPlayerWith defs move id p x y suppress) := by
  have hposition : ∀ q, Within (Writes defs) (sendPosition p q) := fun q =>
    within_ite (within_pure ()) (within_bind (within_derefPlayer q) fun _ =>
      within_need_bind fun packet _ => within_writeToPlayer packet p)
  exact within_ite (within_pure 0) (within_bind (within_mapLoad id) fun loaded =>
    within_bind (within_derefPlayer p) fun player =>
      within_bind (within_mapSendMapPacket loaded player.session) fun _ =>
        within_bind (hmove p x y _) fun _ => within_need_bind fun m _ =>
          within_bind (within_bind (within_derefMap m) fun _ =>
            within_forEach fun q _ => hposition q) fun _ => within_pure 1)

end Circle

theorem within_mapSpawnPlayer (fuel : ℕ) : ∀ id p x y suppress,
    Within (Writes defs) (mapSpawnPlayer defs fuel id p x y suppress) := by
  induction fuel with
  | zero => exact fun _ _ _ _ _ => within_stop _
  | succ fuel ih =>
    exact within_mapSpawnPlayerWith (within_playerMoveWith (within_mapEventActivate ih))

theorem within_playerMove (fuel : ℕ) (p : ℕ) (x y : ℤ) (args : MoveArgs) :
    Within (Writes defs) (playerMove defs fuel p x y args) :=
  within_playerMoveWith (within_mapEventActivate (within_mapSpawnPlayer fuel)) p x y args

/-! ## Requests -/

theorem within_updateSession (s : ℕ) (f : Session → Session) :
    Within (Writes defs) (updateSession s f) := by
  intro w u w' h
  obtain ⟨session, -, rfl⟩ := updateSession_eq_ok.mp h
  exact .one (.aside _ _ _ _)

theorem within_onTable (x : Exec AwaitingTable α) : Within (Writes defs) (onTable x) := by
  intro w a w' h
  obtain ⟨t, -, rfl⟩ := onTable_eq_ok.mp h
  exact .one (.aside _ _ _ _)

theorem within_setErrno (code : ℤ) :
    Within (Writes defs) (Exec.modify fun w => { w with packetErrno := code }) :=
  within_modify fun _ => .one (.aside _ _ _ _)

theorem within_sessionCreate (fd : ℕ) : Within (Writes defs) (sessionCreate fd) :=
  within_get_bind fun _ => within_bind (within_modify fun _ => .one (.aside _ _ _ _)) fun _ =>
    within_pure _

theorem within_sessionDestroy (s : ℕ) : Within (Writes defs) (sessionDestroy defs s) := by
  have hplayer : ∀ player, Within (Writes defs) (playerFreeNull defs player)
    | none => within_pure ()
    | some p => within_playerFree p
  exact within_bind (within_derefSession s) fun session =>
    within_bind (hplayer session.player) fun _ =>
      within_modify fun _ => .one (.aside _ _ _ _)

theorem within_packetHandleLogin (fuel : ℕ) (packet : Packet) (s : ℕ) :
    Within (Writes defs) (packetHandleLogin defs fuel packet s) := by
  have hreply : ∀ spawned, Within (Writes defs) (loginReply defs packet s spawned) := fun _ =>
    within_ite (within_bind (within_sessionDestroy s) fun _ =>
      within_bind (within_setErrno _) fun _ => within_pure none) (within_pure _)
  have hplayer : ∀ code p, Within (Writes defs) (loginPlayer defs fuel packet code s p) :=
    fun _ p => within_bind (within_updatePlayer p fun _ => rfl) fun _ =>
      within_bind (within_updateSession s _) fun _ => within_bind (within_onTable _) fun _ =>
        within_bind (within_derefPlayer p) fun _ => within_need_bind fun m _ =>
          within_bind (within_derefMap m) fun _ =>
            within_bind (within_mapSpawnPlayer fuel _ p _ _ _) hreply
  have has : ∀ code id, Within (Writes defs) (loginAs defs fuel packet code id s) := by
    refine fun code id => within_bind (within_dbPlayerGetPlayer id) fun found =>
      within_bind (within_updateSession s _) fun _ => ?_
    cases found with
    | none => exact within_pure _
    | some p => exact hplayer code p
  refine within_need_bind fun code _ => within_bind (within_onTable _) fun found => ?_
  cases found with
  | none => exact within_bind (within_setErrno _) fun _ => within_pure none
  | some c => exact within_get_bind fun _ => within_need_bind fun id _ => has code id

theorem within_packetHandleRoute (fuel : ℕ) (packet : Packet) (s : ℕ) :
    Within (Writes defs) (packetHandleRoute defs fuel packet s) := by
  have hmove : Within (Writes defs) (packetHandleMove defs fuel packet s) :=
    within_need_bind fun _ _ => within_need_bind fun _ _ => within_bind (within_derefSession s)
      fun _ => within_need_bind fun p _ => within_bind (within_playerMove fuel p _ _ _) fun _ =>
        within_ite (within_pure none) (within_pure _)
  have hreply : ∀ found, Within (Writes defs) (inspectReply packet found)
    | none => within_pure _
    | some p => within_bind (within_derefPlayer p) fun _ => within_need_bind fun _ _ =>
        within_pure _
  exact within_ite (within_stop _) (within_ite (within_packetHandleLogin fuel packet s)
    (within_ite (within_stop _) (within_ite hmove
      (within_ite (within_bind (within_dbPlayerGetPlayer _) hreply) (within_pure none)))))

theorem within_eventLoop (fuel s : ℕ) (received : Option Packet) :
    Within (Writes defs) (eventLoop defs fuel s received) := by
  have herror : ∀ fd code, Within (Writes defs) (eventLoopError fd code) := fun fd _ =>
    within_need_bind fun packet _ => within_bind (within_packetWrite fd packet) fun _ =>
      within_modify fun _ => .one (.aside _ _ _ _)
  have hbad : ∀ fd, Within (Writes defs) (reportBadPacket fd received) := by
    intro fd
    cases received with
    | none => exact herror fd _
    | some _ => exact within_pure ()
  have herrno : ∀ fd, Within (Writes defs) (reportErrno fd) := fun fd =>
    within_get_bind fun _ => within_ite (within_pure ()) (herror fd _)
  have hrespond : ∀ response, Within (Writes defs) (respond s response)
    | none => within_pure ()
    | some response => within_writeSession s response
  have hhandle : ∀ packet fd, Within (Writes defs)
      (handlePacketWith (fun packet => packetHandleRoute defs fuel packet s) packet s fd) :=
    fun packet fd => within_bind (herrno fd) fun _ =>
      within_bind (within_packetHandleRoute fuel packet s) hrespond
  exact within_bind (within_derefSession s) fun session => within_bind (hbad session.fd) fun _ =>
    within_need_bind fun packet _ => within_ite (hhandle packet session.fd)
      (within_packetWrite _ _)

/-- **A step of the server** only writes. -/
theorem Step.writes {a : Request} (h : Step defs w a w') : Writes defs w w' := by
  cases h with
  | connect _ h => exact within_sessionCreate _ _ _ _ h
  | token h => exact within_onTable _ _ _ _ h
  | packet h => exact within_eventLoop _ _ _ _ _ _ h

end World
end MmoBackend
