import Mathlib.Logic.Relation
import MmoBackend.World.Login
import MmoBackend.World.Writes

/-!
# Progress that is not saved

`player_free` writes a player to the database if its flag `modified` is set.  Nothing sets
the flag: neither `player_move` nor `player_change_name` does, and the one test of the
database sets it by hand.  So the database is never written, and a player that is loaded
again is the player it was when it was loaded before.

`reload_eq_iff` says this for any calls: the progress of a player survives exactly if there
was none.
-/

namespace MmoBackend

open Authentication Bytes Communication Db Exec Maps

namespace World

/-! ## What a player has -/

/-- The values of a player that the database keeps. -/
structure Progress where
  name : Option CString
  mapId : Option ℤ
  x : ℤ
  y : ℤ
  maxMove : ℤ
  deriving DecidableEq

/-- The id of the map a pointer leads to.  The pointer may be null, but must not dangle. -/
def mapIdOf (w : World) : Option ℕ → Option (Option ℤ)
  | none => some none
  | some m => (w.maps.get m).map fun map => some map.id

theorem mapIdOf_eq_some {w : World} {r : Option ℕ} {i : ℤ} :
    mapIdOf w r = some (some i) ↔
      ∃ m map, r = some m ∧ w.maps.get m = some map ∧ map.id = i := by
  cases r <;> simp [mapIdOf]

/-- What a player has whose map has the id `mapId`. -/
def progressOf (player : Player) (mapId : Option ℤ) : Progress :=
  ⟨player.name, mapId, player.x, player.y, player.maxMove⟩

/-- What the player `p` has. -/
def progress (w : World) (p : ℕ) : Option Progress :=
  (w.players.get p).bind fun player => (mapIdOf w player.map).map (progressOf player)

theorem progress_eq_some {w : World} {p : ℕ} {g : Progress} :
    progress w p = some g ↔ ∃ player mapId, w.players.get p = some player ∧
      mapIdOf w player.map = some mapId ∧ progressOf player mapId = g := by
  simp [progress, Option.bind_eq_some_iff, Option.map_eq_some_iff]

/-! ## What a record says -/

variable (defs : MapDefs)

/-- What a field of a record says about the player it is read into.  The id and the name
must be strings, and there is one id that passes the check of `map_load` and has no map. -/
def storeProgress (g : Progress) (field : String × Bson) : Option Progress :=
  if field.1 = "id" then (bsonGetString field.2).map fun _ => g
  else if field.1 = "name" then (bsonGetString field.2).map fun s => { g with name := some s }
  else if field.1 = "map" then
    let id := bsonIterInt32 field.2
    if id = defs.count then none
    else some { g with mapId := if (defs.count : ℤ) < id ∨ id < 0 then none else some id }
  else if field.1 = "x" then some { g with x := bsonIterInt32 field.2 }
  else if field.1 = "y" then some { g with y := bsonIterInt32 field.2 }
  else if field.1 = "max_move" then
    some { g with maxMove := Int.bmod (bsonIterInt32 field.2) (2 ^ 16) }
  else some g

/-- What a record says. -/
def recordProgress (doc : Document) : Option Progress :=
  doc.fields.foldlM (storeProgress defs) ⟨none, none, 0, 0, 0⟩

variable {defs} {w w' : World} {p : ℕ} {id : CString} {field : String × Bson} {g : Progress}

/-- The number in a field of a record, and zero if there is no such field. -/
def intField (doc : Document) (key : String) : ℤ :=
  ((doc.fields.lookup key).map bsonIterInt32).getD 0

/-- The id that the map of a player has after `map_load` was called with `id`. -/
def loadedId (defs : MapDefs) (id : ℤ) : Option ℤ :=
  if (defs.count : ℤ) < id ∨ id < 0 then none else some id

/-- What one field says, part by part. -/
structure FieldSays (defs : MapDefs) (field : String × Bson) (g g' : Progress) : Prop where
  name : g'.name = if field.1 = "name" then bsonGetString field.2 else g.name
  mapId : g'.mapId = if field.1 = "map" then loadedId defs (bsonIterInt32 field.2) else g.mapId
  x : g'.x = if field.1 = "x" then bsonIterInt32 field.2 else g.x
  y : g'.y = if field.1 = "y" then bsonIterInt32 field.2 else g.y
  maxMove : g'.maxMove
    = if field.1 = "max_move" then Int.bmod (bsonIterInt32 field.2) (2 ^ 16) else g.maxMove

theorem storeProgress_eq_some {g' : Progress} (h : storeProgress defs g field = some g') :
    FieldSays defs field g g' := by
  obtain ⟨key, value⟩ := field
  unfold storeProgress at h
  dsimp only at h
  split at h
  · rename_i hkey
    obtain ⟨s, -, rfl⟩ := Option.map_eq_some_iff.mp h
    subst hkey
    exact ⟨rfl, rfl, rfl, rfl, rfl⟩
  split at h
  · rename_i hkey
    obtain ⟨s, hs, rfl⟩ := Option.map_eq_some_iff.mp h
    subst hkey
    exact ⟨hs.symm, rfl, rfl, rfl, rfl⟩
  rename_i hid hname
  split at h
  · rename_i hkey
    subst hkey
    obtain ⟨-, h⟩ := Option.ite_none_left_eq_some.mp h
    obtain rfl := Option.some.inj h
    exact ⟨rfl, rfl, rfl, rfl, rfl⟩
  rename_i hmap
  split at h
  · rename_i hkey
    subst hkey
    obtain rfl := Option.some.inj h
    exact ⟨rfl, rfl, rfl, rfl, rfl⟩
  rename_i hx
  split at h
  · rename_i hkey
    subst hkey
    obtain rfl := Option.some.inj h
    exact ⟨rfl, rfl, rfl, rfl, rfl⟩
  rename_i hy
  split at h
  · rename_i hkey
    subst hkey
    obtain rfl := Option.some.inj h
    exact ⟨rfl, rfl, rfl, rfl, rfl⟩
  · rename_i hmax
    obtain rfl := Option.some.inj h
    exact ⟨(if_neg hname).symm, (if_neg hmap).symm, (if_neg hx).symm, (if_neg hy).symm,
      (if_neg hmax).symm⟩

/-- What the loop over the fields has made of a part of the player that one field says. -/
theorem foldlM_storeProgress {g' : Progress} {β : Type} {f : Progress → β} {read : Bson → β}
    (key : String) (hstored : ∀ {field g g'}, storeProgress defs g field = some g' →
      f g' = if field.1 = key then read field.2 else f g) {fields : List (String × Bson)}
    (hnodup : (fields.map Prod.fst).Nodup)
    (h : fields.foldlM (storeProgress defs) g = some g') :
    f g' = ((fields.lookup key).map read).getD (f g) := by
  induction fields generalizing g with
  | nil =>
    obtain rfl := Option.some.inj h
    rfl
  | cons field fields ih =>
    rw [List.foldlM_cons] at h
    obtain ⟨g₁, hstore, h⟩ := Option.bind_eq_some_iff.mp h
    rw [List.map_cons, List.nodup_cons] at hnodup
    rw [ih hnodup.2 h, hstored hstore]
    obtain ⟨name, value⟩ := field
    by_cases hname : name = key
    · -- no other field has this name
      subst hname
      have hnone : fields.lookup name = none := by
        rw [List.lookup_eq_none_iff]
        rintro ⟨other, _⟩ hmem
        exact bne_iff_ne.mpr fun heq => hnodup.1 (List.mem_map.mpr ⟨_, hmem, heq.symm⟩)
      rw [hnone, List.lookup_cons_self, if_pos rfl]
      rfl
    · have hbeq : (key == name) = false := beq_eq_false_iff_ne.mpr (Ne.symm hname)
      rw [List.lookup_cons, hbeq, if_neg hname]

/-- What a record says, part by part. -/
structure RecordSays (defs : MapDefs) (doc : Document) (g : Progress) : Prop where
  name : g.name = ((doc.fields.lookup "name").map bsonGetString).getD none
  mapId : g.mapId
    = ((doc.fields.lookup "map").map fun value => loadedId defs (bsonIterInt32 value)).getD none
  x : g.x = intField doc "x"
  y : g.y = intField doc "y"
  maxMove : g.maxMove = ((doc.fields.lookup "max_move").map fun value =>
    Int.bmod (bsonIterInt32 value) (2 ^ 16)).getD 0

theorem recordProgress_eq_some {doc : Document} (h : recordProgress defs doc = some g) :
    RecordSays defs doc g where
  name := foldlM_storeProgress (f := Progress.name) "name"
    (fun hstore => (storeProgress_eq_some hstore).name) doc.nodup h
  mapId := foldlM_storeProgress (f := Progress.mapId) "map"
    (fun hstore => (storeProgress_eq_some hstore).mapId) doc.nodup h
  x := foldlM_storeProgress (f := Progress.x) "x"
    (fun hstore => (storeProgress_eq_some hstore).x) doc.nodup h
  y := foldlM_storeProgress (f := Progress.y) "y"
    (fun hstore => (storeProgress_eq_some hstore).y) doc.nodup h
  maxMove := foldlM_storeProgress (f := Progress.maxMove) "max_move"
    (fun hstore => (storeProgress_eq_some hstore).maxMove) doc.nodup h

/-! ## Nothing is saved -/

/-- No player was modified, and nothing is in the cache.  This keeps the database as it
is. -/
structure Unsaved (playerdata : List Document) (w : World) : Prop where
  cache : w.cache = []
  unmodified : ∀ p player, w.players.get p = some player → player.modified = 0
  playerdata : w.playerdata = playerdata
  tiled : Tiled w
  locks : w.locks = []

theorem unsaved_boot (playerdata : List Document) : Unsaved playerdata (boot playerdata) where
  cache := rfl
  unmodified _ _ hp := absurd hp.symm (Option.some_ne_none _)
  playerdata := rfl
  tiled _ _ hm := absurd hm.symm (Option.some_ne_none _)
  locks := rfl

theorem Unsaved.writes {playerdata : List Document} (hw : Unsaved playerdata w)
    (h : Writes defs w w') : Unsaved playerdata w' := by
  obtain ⟨hcache, hunmodified, hplayerdata⟩ := h.invariant
    (I := fun w => w.cache = [] ∧ (∀ p player, w.players.get p = some player →
      player.modified = 0) ∧ w.playerdata = playerdata)
    (fun _ _ hv => hv) (fun v v' ⟨hcache, hunmodified, hplayerdata⟩ hwrite => by
      cases hwrite with
      | newPlayer =>
        refine ⟨hcache, fun q player hq => ?_, hplayerdata⟩
        rcases Heap.get_alloc_eq_some hq with ⟨-, rfl⟩ | ⟨-, hq⟩
        · rfl
        · exact hunmodified q player hq
      | @player k old new hk hmodified =>
        refine ⟨hcache, fun q player hq => ?_, hplayerdata⟩
        by_cases hqk : q = k
        · subst hqk
          obtain rfl := Option.some.inj ((Heap.get_set_self new hk).symm.trans hq)
          exact hmodified.trans (hunmodified q old hk)
        · exact hunmodified q player ((Heap.get_set_of_ne new hqk).symm.trans hq)
      | freePlayer k =>
        refine ⟨hcache, fun q player hq => ?_, hplayerdata⟩
        by_cases hqk : q = k
        · subst hqk
          exact absurd ((Heap.get_free_self v.players q).symm.trans hq).symm
            (Option.some_ne_none _)
        · exact hunmodified q player ((if_neg hqk).symm.trans hq)
      | uncache id =>
        refine ⟨?_, hunmodified, hplayerdata⟩
        show v.cache.filter _ = []
        rw [hcache, List.filter_nil]
      | @save k player _ hk hmodified => exact absurd (hunmodified k player hk) hmodified
      | _ => exact ⟨hcache, hunmodified, hplayerdata⟩)
    (fun _ _ _ hv => hv) ⟨hw.cache, hw.unmodified, hw.playerdata⟩
  exact ⟨hcache, hunmodified, hplayerdata, h.tiled hw.tiled, h.locks_eq.trans hw.locks⟩

/-! ## Reading one field -/

/-- **`map_load`** gives a map with the id it was asked for. -/
theorem mapIdOf_mapLoad {i : ℤ} {r : Option ℕ} (htiled : Tiled w)
    (h : mapLoad defs i w = .ok (r, w')) :
    w'.players = w.players ∧ i ≠ defs.count ∧
      mapIdOf w' r = some (if (defs.count : ℤ) < i ∨ i < 0 then none else some i) := by
  rcases mapLoad_eq_ok h with ⟨hbad, rfl, rfl⟩ | ⟨j, m, map, rfl, hj, rfl, hloads⟩
  · refine ⟨rfl, fun hi => ?_, by rw [if_pos hbad]; rfl⟩
    omega
  · obtain ⟨map', hmap', hid⟩ := (within_mapLoad _ _ _ _ h).tiled htiled j m hloads.tile_eq
    refine ⟨hloads.players_eq, by omega, ?_⟩
    rw [if_neg (by omega), mapIdOf, hmap', Option.map_some, hid]

theorem mapLoad_returns {i : ℤ} (htiled : Tiled w) (hlocks : w.locks = [])
    (hi : i ≠ defs.count) : ∃ r w', mapLoad defs i w = .ok (r, w') := by
  unfold mapLoad
  split
  · exact ⟨none, w, rfl⟩
  · rename_i hrange
    obtain ⟨map, hmap⟩ : ∃ map, defs.loaders[i.toNat]? = some map :=
      ⟨_, List.getElem?_eq_getElem (by unfold MapDefs.count at *; omega)⟩
    have hlock : lock (.map i.toNat) w = .ok ((), w.setLocks [.map i.toNat]) :=
      lock_eq_ok.mpr ⟨by rw [hlocks]; exact List.not_mem_nil, by rw [hlocks]⟩
    obtain ⟨m, v, old, hensure, hold⟩ : ∃ m v old,
        ensureTile i.toNat map (w.setLocks [.map i.toNat]) = .ok (m, v) ∧
          v.maps.get m = some old := by
      cases htile : w.tiles i.toNat with
      | some m =>
        obtain ⟨old, hold, -⟩ := htiled _ m htile
        refine ⟨m, w.setLocks [.map i.toNat], old, ?_, hold⟩
        simp only [ensureTile, bind_eq_ok, get_eq_ok]
        refine ⟨_, _, ⟨rfl, rfl⟩, ?_⟩
        rw [show (w.setLocks [.map i.toNat]).tiles i.toNat = some m from htile]
        exact pure_eq_ok.mpr ⟨rfl, rfl⟩
      | none =>
        refine ⟨w.maps.next, (w.setLocks [.map i.toNat]).addTile i.toNat map, map, ?_,
          Heap.get_alloc_next _ _⟩
        simp only [ensureTile, bind_eq_ok, get_eq_ok]
        refine ⟨_, _, ⟨rfl, rfl⟩, ?_⟩
        rw [show (w.setLocks [.map i.toNat]).tiles i.toNat = none from htile]
        simp only [bind_eq_ok, modify_eq_ok, pure_eq_ok]
        exact ⟨(), _, rfl, rfl, rfl⟩
    simp only [mapLoadTile, bind_eq_ok, need_eq_ok, updateMap_eq_ok, unlock_eq_ok, get_eq_ok,
      pure_eq_ok]
    exact ⟨_, _, map, w, ⟨hmap, rfl⟩, (), _, hlock, m, v, hensure, (), _, ⟨old, hold, rfl⟩, (), _,
      rfl, _, _, ⟨rfl, rfl⟩, rfl, rfl⟩

/-- A field that only changes the player. -/
theorem progress_updatePlayer {f : Player → Player} {g' : Progress} {u : Unit}
    (hg : progress w p = some g) (h : updatePlayer p f w = .ok (u, w'))
    (hmap : ∀ player, (f player).map = player.map)
    (hstore : ∀ player mapId, progressOf player mapId = g → progressOf (f player) mapId = g') :
    progress w' p = some g' := by
  obtain ⟨player, hp, rfl⟩ := updatePlayer_eq_ok.mp h
  obtain ⟨player', mapId, hp', hid, hof⟩ := progress_eq_some.mp hg
  obtain rfl := Option.some.inj (hp.symm.trans hp')
  refine progress_eq_some.mpr ⟨f player, mapId, Heap.get_set_self _ hp, ?_, hstore _ _ hof⟩
  rw [hmap]
  exact hid

/-- **Reading a field** does to the player what the field says. -/
theorem readField_progress {u : Unit} (htiled : Tiled w) (hg : progress w p = some g)
    (h : readField defs p field w = .ok (u, w')) :
    ∃ g', storeProgress defs g field = some g' ∧ progress w' p = some g' := by
  unfold readField at h
  unfold storeProgress
  by_cases hid : field.1 = "id"
  · rw [if_pos hid] at h ⊢
    simp only [bind_eq_ok, need_eq_ok] at h
    obtain ⟨s, _, ⟨hs, rfl⟩, h⟩ := h
    refine ⟨g, by rw [hs, Option.map_some], progress_updatePlayer hg h (fun _ => rfl) ?_⟩
    exact fun _ _ hof => hof
  rw [if_neg hid] at h ⊢
  by_cases hname : field.1 = "name"
  · rw [if_pos hname] at h ⊢
    simp only [bind_eq_ok, need_eq_ok] at h
    obtain ⟨s, _, ⟨hs, rfl⟩, h⟩ := h
    refine ⟨{ g with name := some s }, by rw [hs, Option.map_some],
      progress_updatePlayer hg h (fun _ => rfl) ?_⟩
    rintro player mapId rfl
    rfl
  rw [if_neg hname] at h ⊢
  by_cases hmap : field.1 = "map"
  · rw [if_pos hmap] at h ⊢
    obtain ⟨r, v, hload, h⟩ := bind_eq_ok.mp h
    obtain ⟨hplayers, hcount, hmapId⟩ := mapIdOf_mapLoad htiled hload
    refine ⟨_, if_neg hcount, ?_⟩
    obtain ⟨player, mapId, hp, -, rfl⟩ := progress_eq_some.mp hg
    obtain ⟨player', hp', rfl⟩ := updatePlayer_eq_ok.mp h
    rw [hplayers] at hp'
    obtain rfl := Option.some.inj (hp.symm.trans hp')
    rw [← hplayers] at hp
    exact progress_eq_some.mpr ⟨_, _, Heap.get_set_self _ hp, hmapId, rfl⟩
  rw [if_neg hmap] at h ⊢
  by_cases hx : field.1 = "x"
  · rw [if_pos hx] at h ⊢
    refine ⟨_, rfl, progress_updatePlayer hg h (fun _ => rfl) ?_⟩
    rintro player mapId rfl
    rfl
  rw [if_neg hx] at h ⊢
  by_cases hy : field.1 = "y"
  · rw [if_pos hy] at h ⊢
    refine ⟨_, rfl, progress_updatePlayer hg h (fun _ => rfl) ?_⟩
    rintro player mapId rfl
    rfl
  rw [if_neg hy] at h ⊢
  by_cases hmove : field.1 = "max_move"
  · rw [if_pos hmove] at h ⊢
    refine ⟨_, rfl, progress_updatePlayer hg h (fun _ => rfl) ?_⟩
    rintro player mapId rfl
    rfl
  rw [if_neg hmove] at h ⊢
  obtain ⟨-, rfl⟩ := pure_eq_ok.mp h
  exact ⟨g, rfl, hg⟩

theorem updatePlayer_returns (f : Player → Player) (hg : progress w p = some g) :
    ∃ w', updatePlayer p f w = .ok ((), w') := by
  obtain ⟨player, _, hp, -⟩ := progress_eq_some.mp hg
  exact ⟨_, updatePlayer_eq_ok.mpr ⟨player, hp, rfl⟩⟩

/-- A field that says something can be read. -/
theorem readField_returns {g' : Progress} (htiled : Tiled w) (hlocks : w.locks = [])
    (hg : progress w p = some g) (hstore : storeProgress defs g field = some g') :
    ∃ w', readField defs p field w = .ok ((), w') := by
  unfold readField
  unfold storeProgress at hstore
  split at hstore
  · rename_i hid
    rw [if_pos hid]
    obtain ⟨s, hs, -⟩ := Option.map_eq_some_iff.mp hstore
    obtain ⟨w', hset⟩ := updatePlayer_returns (fun player => { player with id := some s }) hg
    exact ⟨w', by rw [hs, need_some_bind]; exact hset⟩
  rename_i hid
  rw [if_neg hid]
  split at hstore
  · rename_i hname
    rw [if_pos hname]
    obtain ⟨s, hs, -⟩ := Option.map_eq_some_iff.mp hstore
    obtain ⟨w', hset⟩ := updatePlayer_returns (fun player => { player with name := some s }) hg
    exact ⟨w', by rw [hs, need_some_bind]; exact hset⟩
  rename_i hname
  rw [if_neg hname]
  split at hstore
  · rename_i hmap
    rw [if_pos hmap]
    have hcount : bsonIterInt32 field.2 ≠ defs.count := fun hi => by
      rw [if_pos hi] at hstore
      exact Option.some_ne_none _ hstore.symm
    obtain ⟨r, v, hload⟩ := mapLoad_returns htiled hlocks hcount
    obtain ⟨player, _, hp, -⟩ := progress_eq_some.mp hg
    rw [← (mapIdOf_mapLoad htiled hload).1] at hp
    exact ⟨_, (bind_of_ok hload).trans (updatePlayer_eq_ok.mpr ⟨player, hp, rfl⟩)⟩
  rename_i hmap
  rw [if_neg hmap]
  have hset := fun f => updatePlayer_returns f hg
  split_ifs
  · exact hset _
  · exact hset _
  · exact hset _
  · exact ⟨w, rfl⟩

/-! ## Reading a record -/

theorem Unsaved.readField {playerdata : List Document} {u : Unit} (hw : Unsaved playerdata w)
    (h : readField defs p field w = .ok (u, w')) : Unsaved playerdata w' :=
  hw.writes (within_readField p field _ _ _ h)

/-- The loop over the fields. -/
theorem forEach_progress {playerdata : List Document} {fields : List (String × Bson)} {u : Unit}
    (hw : Unsaved playerdata w) (hg : progress w p = some g)
    (h : Exec.forEach fields (World.readField defs p) w = .ok (u, w')) :
    ∃ g', fields.foldlM (storeProgress defs) g = some g' ∧ progress w' p = some g' := by
  induction fields generalizing w g with
  | nil =>
    obtain ⟨-, rfl⟩ := pure_eq_ok.mp h
    exact ⟨g, rfl, hg⟩
  | cons field fields ih =>
    rw [forEach_cons] at h
    obtain ⟨_, v, hread, hrest⟩ := bind_eq_ok.mp h
    obtain ⟨g₁, hstore, hg₁⟩ := readField_progress hw.tiled hg hread
    obtain ⟨g', hfold, hg'⟩ := ih (hw.readField hread) hg₁ hrest
    refine ⟨g', ?_, hg'⟩
    rw [List.foldlM_cons, hstore]
    exact hfold

theorem forEach_returns {playerdata : List Document} {fields : List (String × Bson)}
    {g' : Progress} (hw : Unsaved playerdata w) (hg : progress w p = some g)
    (hfold : fields.foldlM (storeProgress defs) g = some g') :
    ∃ w', Exec.forEach fields (World.readField defs p) w = .ok ((), w') := by
  induction fields generalizing w g with
  | nil => exact ⟨w, rfl⟩
  | cons field fields ih =>
    rw [List.foldlM_cons] at hfold
    obtain ⟨g₁, hstore, hfold⟩ := Option.bind_eq_some_iff.mp hfold
    obtain ⟨v, hread⟩ := readField_returns hw.tiled hw.locks hg hstore
    obtain ⟨g₁', hstore', hg₁⟩ := readField_progress hw.tiled hg hread
    obtain rfl := Option.some.inj (hstore.symm.trans hstore')
    obtain ⟨w', hrest⟩ := ih (hw.readField hread) hg₁ hfold
    exact ⟨w', (bind_of_ok hread).trans hrest⟩

theorem progress_withNewPlayer (w : World) :
    progress w.withNewPlayer w.players.next = some ⟨none, none, 0, 0, 0⟩ :=
  progress_eq_some.mpr ⟨_, none, Heap.get_alloc_next _ _, rfl, rfl⟩

theorem Unsaved.withNewPlayer (defs : MapDefs) {playerdata : List Document}
    (hw : Unsaved playerdata w) : Unsaved playerdata w.withNewPlayer := by
  have hwrite : Writes defs w w.withNewPlayer := .one .newPlayer
  exact hw.writes hwrite

/-- **A player that was loaded** has what its record says. -/
theorem dbPlayerGetPlayer_progress {playerdata : List Document} (hw : Unsaved playerdata w)
    (h : dbPlayerGetPlayer defs id w = .ok (some p, w')) :
    ∃ doc g, findById id playerdata = some doc ∧ recordProgress defs doc = some g ∧
      progress w' p = some g := by
  rcases dbPlayerGetPlayer_eq_ok hw.cache h with ⟨-, hnone, -⟩ | ⟨doc, hdoc, hp, hloop⟩
  · exact absurd hnone (Option.some_ne_none p)
  · obtain rfl := Option.some.inj hp
    obtain ⟨g, hfold, hg⟩ :=
      forEach_progress (hw.withNewPlayer defs) (progress_withNewPlayer w) hloop
    exact ⟨doc, g, hw.playerdata ▸ hdoc, hfold, hg⟩

/-- The player cache is empty. -/
theorem Unsaved.playerCacheFind_run {playerdata : List Document} (hw : Unsaved playerdata w) :
    playerCacheFind id w = .ok (none, w) := by
  obtain ⟨_, _, _, _, cache, _, _, locks, _, _⟩ := w
  obtain rfl : cache = [] := hw.cache
  obtain rfl : locks = [] := hw.locks
  rfl

/-- **A record that says something** can be read. -/
theorem dbPlayerGetPlayer_returns {playerdata : List Document} {doc : Document}
    (hw : Unsaved playerdata w) (hdoc : findById id playerdata = some doc)
    (hg : recordProgress defs doc = some g) :
    ∃ q w', dbPlayerGetPlayer defs id w = .ok (some q, w') ∧ progress w' q = some g := by
  rw [← hw.playerdata] at hdoc
  obtain ⟨w', hloop⟩ := forEach_returns (hw.withNewPlayer defs) (progress_withNewPlayer w) hg
  have hread : readPlayer defs id w = .ok (some w.players.next, w') := by
    simp only [readPlayer, bind_eq_ok, get_eq_ok]
    refine ⟨w, w, ⟨rfl, rfl⟩, ?_⟩
    rw [hdoc]
    simp only [playerCreate, bind_eq_ok, get_eq_ok, modify_eq_ok, pure_eq_ok]
    exact ⟨w.players.next, w.withNewPlayer, ⟨w, w, ⟨rfl, rfl⟩, (), _, rfl, rfl, rfl⟩, (), w', hloop,
      rfl, rfl⟩
  have hload : dbPlayerGetPlayer defs id w = .ok (some w.players.next, w') :=
    (bind_of_ok hw.playerCacheFind_run).trans hread
  obtain ⟨doc', g', hdoc', hg', hprogress⟩ := dbPlayerGetPlayer_progress hw hload
  rw [hw.playerdata] at hdoc
  obtain rfl := Option.some.inj (hdoc.symm.trans hdoc')
  obtain rfl := Option.some.inj (hg.symm.trans hg')
  exact ⟨_, w', hload, hprogress⟩

/-! ## Any calls -/

/-- A call that returns. -/
inductive Call (defs : MapDefs) (w w' : World) : Prop
  | load {id : CString} {r : Option ℕ} : dbPlayerGetPlayer defs id w = .ok (r, w') → Call defs w w'
  | move {fuel p : ℕ} {x y : ℤ} {args : MoveArgs} {moved : Bool} :
      playerMove defs fuel p x y args w = .ok (moved, w') → Call defs w w'
  | spawn {fuel p : ℕ} {id x y suppress r : ℤ} :
      mapSpawnPlayer defs fuel id p x y suppress w = .ok (r, w') → Call defs w w'
  | changeName {p : ℕ} {name : CString} :
      playerChangeName p name w = .ok ((), w') → Call defs w w'
  | remove {m : Option ℕ} {p : ℕ} : mapRemovePlayer defs m p w = .ok ((), w') → Call defs w w'
  | ref {p : ℕ} : playerRef p w = .ok ((), w') → Call defs w w'
  | free {p : ℕ} : playerFree defs p w = .ok ((), w') → Call defs w w'
  | loadMap {id : ℤ} {r : Option ℕ} : mapLoad defs id w = .ok (r, w') → Call defs w w'
  | unloadMap {id : ℤ} : mapUnload defs id w = .ok ((), w') → Call defs w w'
  /-- The server answers a request. -/
  | request {a : Request} : Step defs w a w' → Call defs w w'

/-- Any number of calls. -/
def Calls (defs : MapDefs) : World → World → Prop := Relation.ReflTransGen (Call defs)

theorem Call.writes (h : Call defs w w') : Writes defs w w' := by
  cases h with
  | load h => exact within_dbPlayerGetPlayer _ _ _ _ h
  | move h => exact within_playerMove _ _ _ _ _ _ _ _ h
  | spawn h => exact within_mapSpawnPlayer _ _ _ _ _ _ _ _ _ h
  | changeName h => exact within_playerChangeName _ _ _ _ _ h
  | remove h => exact within_mapRemovePlayer _ _ _ _ _ h
  | ref h => exact within_playerRef _ _ _ _ h
  | free h => exact within_playerFree _ _ _ _ h
  | loadMap h => exact within_mapLoad _ _ _ _ h
  | unloadMap h => exact within_mapUnload _ _ _ _ h
  | request h => exact h.writes

theorem Calls.writes (h : Calls defs w w') : Writes defs w w' := by
  induction h with
  | refl => exact .refl
  | tail _ hlast ih => exact ih.trans hlast.writes

/-- **No progress is saved.**  A player was loaded, any calls were made, and it was freed.
When it is loaded again, it has what it had in the end if and only if that is what it had in
the beginning. -/
theorem reload_eq_iff {playerdata : List Document} {w₀ w₁ w₂ w₃ : World}
    (hbefore : Calls defs (boot playerdata) w₀)
    (hload : dbPlayerGetPlayer defs id w₀ = .ok (some p, w₁)) (hcalls : Calls defs w₁ w)
    (hfree : playerFree defs p w = .ok ((), w₂)) (hafter : Calls defs w₂ w₃) :
    (∃ q w₄, dbPlayerGetPlayer defs id w₃ = .ok (some q, w₄) ∧ progress w₄ q = progress w p) ↔
      progress w p = progress w₁ p := by
  have hw₀ := (unsaved_boot playerdata).writes hbefore.writes
  have hw₁ := hw₀.writes (within_dbPlayerGetPlayer _ _ _ _ hload)
  have hw₃ := ((hw₁.writes hcalls.writes).writes (within_playerFree _ _ _ _ hfree)).writes
    hafter.writes
  obtain ⟨doc, g, hdoc, hrecord, hg⟩ := dbPlayerGetPlayer_progress hw₀ hload
  rw [hg]
  constructor
  · rintro ⟨q, w₄, hreload, hq⟩
    obtain ⟨doc', g', hdoc', hrecord', hg'⟩ := dbPlayerGetPlayer_progress hw₃ hreload
    obtain rfl := Option.some.inj (hdoc.symm.trans hdoc')
    exact hq.symm.trans (hg'.trans (hrecord'.symm.trans hrecord))
  · intro hp
    obtain ⟨q, w₄, hreload, hq⟩ := dbPlayerGetPlayer_returns hw₃ hdoc hrecord
    exact ⟨q, w₄, hreload, hq.trans hp.symm⟩

/-! ## A player that moves -/

/-- A player is loaded, moves one cell, and is freed with its only reference. -/
theorem run_firstMove : ∃ w₁ w w₂ w₃,
    dbPlayerGetPlayer mapLoaders [97] (boot [firstRecord]) = .ok (some 0, w₁) ∧
    playerMove mapLoaders 1 0 2 1 MoveArgs.zero w₁ = .ok (true, w) ∧
    playerFree mapLoaders 0 w = .ok ((), w₂) ∧ w₂.players.get 0 = none ∧
    dbPlayerGetPlayer mapLoaders [97] w₂ = .ok (some 1, w₃) ∧
    progress w 0 = some ⟨none, some 0, 2, 1, 1⟩ ∧
    progress w₃ 1 = some ⟨none, some 0, 1, 1, 1⟩ := by
  have hrun : Exec.value (do
      let r ← dbPlayerGetPlayer mapLoaders [97]
      let moved ← playerMove mapLoaders 1 0 2 1 MoveArgs.zero
      let w ← Exec.get
      playerFree mapLoaders 0
      let w₂ ← Exec.get
      let q ← dbPlayerGetPlayer mapLoaders [97]
      let w₃ ← Exec.get
      pure (decide (r = some 0 ∧ moved = true ∧ w₂.players.get 0 = none ∧ q = some 1 ∧
        progress w 0 = some ⟨none, some 0, 2, 1, 1⟩ ∧
        progress w₃ 1 = some ⟨none, some 0, 1, 1, 1⟩))) (boot [firstRecord]) = some true := by
    decide +kernel
  obtain ⟨_, hrun⟩ := Exec.value_eq_some.mp hrun
  simp only [bind_eq_ok, get_eq_ok, pure_eq_ok, decide_eq_true_iff] at hrun
  obtain ⟨r, w₁, hload, moved, w, hmove, _, _, ⟨rfl, rfl⟩, ⟨⟩, w₂, hfree, _, _, ⟨rfl, rfl⟩, q, w₃,
    hreload, _, _, ⟨rfl, rfl⟩, ⟨rfl, rfl, hgone, rfl, hw, hw₃⟩, -⟩ := hrun
  exact ⟨w₁, w, w₂, w₃, hload, hmove, hfree, hgone, hreload, hw, hw₃⟩

/-- Its move is lost. -/
theorem not_reload_eq_firstMove : ∃ w₁ w w₂ w₃,
    dbPlayerGetPlayer mapLoaders [97] (boot [firstRecord]) = .ok (some 0, w₁) ∧
    playerMove mapLoaders 1 0 2 1 MoveArgs.zero w₁ = .ok (true, w) ∧
    playerFree mapLoaders 0 w = .ok ((), w₂) ∧ w₂.players.get 0 = none ∧
    dbPlayerGetPlayer mapLoaders [97] w₂ = .ok (some 1, w₃) ∧
    progress w₃ 1 ≠ progress w 0 := by
  obtain ⟨w₁, w, w₂, w₃, hload, hmove, hfree, hgone, hreload, hw, hw₃⟩ := run_firstMove
  refine ⟨w₁, w, w₂, w₃, hload, hmove, hfree, hgone, hreload, ?_⟩
  rw [hw, hw₃]
  decide

/-- What the theorem says about it. -/
theorem reload_eq_iff_firstMove : ∃ w₁ w w₂,
    dbPlayerGetPlayer mapLoaders [97] (boot [firstRecord]) = .ok (some 0, w₁) ∧
    playerMove mapLoaders 1 0 2 1 MoveArgs.zero w₁ = .ok (true, w) ∧
    playerFree mapLoaders 0 w = .ok ((), w₂) ∧
    ((∃ q w₄, dbPlayerGetPlayer mapLoaders [97] w₂ = .ok (some q, w₄) ∧
      progress w₄ q = progress w 0) ↔ progress w 0 = progress w₁ 0) := by
  obtain ⟨w₁, w, w₂, w₃, hload, hmove, hfree, -⟩ := run_firstMove
  exact ⟨w₁, w, w₂, hload, hmove, hfree,
    reload_eq_iff .refl hload (.single (.move hmove)) hfree .refl⟩

end World
end MmoBackend
