import MmoBackend.World.Progress

/-!
# Loading a player and writing it back

`db_player_get_player` takes a record apart and `db_player_write_player` puts one together.
Between the two every field lives in a member of `Player`, and not every value survives that:
a name is copied up to its first zero byte, the id of a map is turned into a pointer, which is
null if there is no such map, and `max_move` is a `short`.  The pointer to the map is followed
without a check, though `player_free` has one for it.

The coordinates and all fields the server does not know are kept in any case, in any order of
the fields.  `keepsRecord_iff` is what is needed of the three others.
-/

namespace MmoBackend

open Authentication Db Exec Maps

namespace Db

/-! ## The database -/

/-- **`$set`** changes the one field. -/
theorem lookup_setField (key k : String) (value : Bson) (fields : List (String × Bson)) :
    (setField key value fields).lookup k = if k = key then some value else fields.lookup k := by
  induction fields with
  | nil =>
    rw [setField, List.lookup_cons, List.lookup_nil]
    by_cases hk : k = key
    · rw [if_pos hk, beq_iff_eq.mpr hk]
    · rw [if_neg hk, beq_eq_false_iff_ne.mpr hk]
  | cons f fields ih =>
    obtain ⟨name, old⟩ := f
    rw [setField]
    by_cases hname : name = key
    · rw [if_pos hname, List.lookup_cons, List.lookup_cons, hname]
      by_cases hk : k = key
      · rw [if_pos hk, beq_iff_eq.mpr hk]
      · rw [if_neg hk, beq_eq_false_iff_ne.mpr hk]
    · rw [if_neg hname, List.lookup_cons, List.lookup_cons, ih]
      by_cases hk : k = name
      · rw [beq_iff_eq.mpr hk]
        exact (if_neg (hk ▸ hname)).symm
      · rw [beq_eq_false_iff_ne.mpr hk]

/-- The record that is changed is the one that is found. -/
theorem findById_modifyById {id : CString} {f : Document → Document} {docs : List Document}
    {doc : Document} (h : findById id docs = some doc) (hf : (f doc).hasId id) :
    findById id (modifyById id f docs) = some (f doc) := by
  induction docs with
  | nil => exact absurd h.symm (Option.some_ne_none doc)
  | cons d docs ih =>
    rw [modifyById]
    by_cases hd : d.hasId id
    · obtain rfl : d = doc := Option.some.inj ((List.find?_cons_of_pos hd).symm.trans h)
      rw [if_pos hd]
      exact List.find?_cons_of_pos hf
    · rw [if_neg hd]
      rw [findById, List.find?_cons_of_neg hd] at h
      exact (List.find?_cons_of_neg hd).trans (ih h)

end Db

namespace World

variable {defs : MapDefs} {w w' : World} {doc : Document} {g : Progress} {id name : CString}
  {mapId x y maxMove : ℤ} {p : ℕ}

/-! ## Writing -/

/-- **`db_player_write_player`** returns for a player with an id, a name and a map. -/
theorem dbPlayerWritePlayer_eq_ok : dbPlayerWritePlayer p w = .ok ((), w') ↔
    ∃ player id name m map, w.players.get p = some player ∧ player.id = some id ∧
      player.name = some name ∧ player.map = some m ∧ w.maps.get m = some map ∧
      w' = { w with
        playerdata := modifyById id
          (playerUpdate name map.id player.x player.y player.maxMove) w.playerdata } := by
  simp only [dbPlayerWritePlayer, bind_eq_ok, derefPlayer_eq_ok, need_eq_ok, derefMap_eq_ok,
    modify_eq_ok]
  constructor
  · rintro ⟨player, _, ⟨hp, rfl⟩, id, _, ⟨hid, rfl⟩, name, _, ⟨hname, rfl⟩, m, _, ⟨hm, rfl⟩, map, _,
      ⟨hmap, rfl⟩, rfl⟩
    exact ⟨player, id, name, m, map, hp, hid, hname, hm, hmap, rfl⟩
  · rintro ⟨player, id, name, m, map, hp, hid, hname, hm, hmap, rfl⟩
    exact ⟨player, w, ⟨hp, rfl⟩, id, w, ⟨hid, rfl⟩, name, w, ⟨hname, rfl⟩, m, w, ⟨hm, rfl⟩, map, w,
      ⟨hmap, rfl⟩, rfl⟩

/-- The fields of a record that was written. -/
theorem lookup_playerUpdate (key : String) :
    (playerUpdate name mapId x y maxMove doc).fields.lookup key =
      if key = "max_move" then some (.int32 maxMove) else if key = "y" then some (.int32 y)
      else if key = "x" then some (.int32 x) else if key = "map" then some (.int32 mapId)
      else if key = "name" then some (.utf8 name) else doc.fields.lookup key := by
  simp only [playerUpdate, Document.set, lookup_setField]

theorem hasId_playerUpdate (h : doc.hasId id) :
    (playerUpdate name mapId x y maxMove doc).hasId id := by
  unfold Document.hasId at h ⊢
  rw [lookup_playerUpdate]
  exact h

/-- The fields of a record, apart from its id, that the server reads. -/
structure PlayerRecord (doc : Document) (name : CString) (mapId x y maxMove : ℤ) : Prop where
  name : doc.fields.lookup "name" = some (.utf8 name)
  map : doc.fields.lookup "map" = some (.int32 mapId)
  x : doc.fields.lookup "x" = some (.int32 x)
  y : doc.fields.lookup "y" = some (.int32 y)
  maxMove : doc.fields.lookup "max_move" = some (.int32 maxMove)

/-- A record keeps its fields if the values that are written are the old ones. -/
theorem lookup_playerUpdate_iff :
    (∀ key, (playerUpdate name mapId x y maxMove doc).fields.lookup key
      = doc.fields.lookup key) ↔ PlayerRecord doc name mapId x y maxMove := by
  simp only [lookup_playerUpdate]
  constructor
  · intro h
    exact ⟨(h "name").symm, (h "map").symm, (h "x").symm, (h "y").symm, (h "max_move").symm⟩
  · intro h key
    split_ifs with hmax hy hx hmap hname
    · rw [hmax, h.maxMove]
    · rw [hy, h.y]
    · rw [hx, h.x]
    · rw [hmap, h.map]
    · rw [hname, h.name]
    · rfl

/-! ## There and back -/

/-- The player `id` is loaded and written back, both calls return, and every field of the
record has the value it had. -/
def KeepsRecord (defs : MapDefs) (id : CString) (w : World) : Prop :=
  ∃ p w₁ w₂ doc doc', dbPlayerGetPlayer defs id w = .ok (some p, w₁) ∧
    dbPlayerWritePlayer p w₁ = .ok ((), w₂) ∧ findById id w.playerdata = some doc ∧
    findById id w₂.playerdata = some doc' ∧
    ∀ key, doc'.fields.lookup key = doc.fields.lookup key

/-- **What has to be read from a record** to be able to write it back. -/
theorem keepsRecord_iff_progress {playerdata : List Document} (hw : Unsaved playerdata w)
    (hdoc : findById id playerdata = some doc) :
    KeepsRecord defs id w ↔ ∃ g name mapId, recordProgress defs doc = some g ∧
      g.name = some name ∧ g.mapId = some mapId ∧
      PlayerRecord doc name mapId g.x g.y g.maxMove := by
  have hhasId : doc.hasId id := List.find?_some hdoc
  -- what a load of the record leaves behind
  have hload : ∀ {p w₁}, dbPlayerGetPlayer defs id w = .ok (some p, w₁) →
      ∃ player, w₁.players.get p = some player ∧ player.id = some id ∧
        w₁.playerdata = playerdata := by
    intro p w₁ hget
    rcases dbPlayerGetPlayer_found hw.cache hget with ⟨-, hnone, -⟩ |
      ⟨_, player, -, hp, hreads, hid⟩
    · exact absurd hnone (Option.some_ne_none p)
    · obtain rfl := Option.some.inj hp
      exact ⟨player, hreads.get_eq, hid,
        (hw.writes (within_dbPlayerGetPlayer id _ _ _ hget)).playerdata⟩
  constructor
  · rintro ⟨p, w₁, w₂, doc₀, doc', hget, hwrite, hdoc₀, hdoc', hkeeps⟩
    obtain ⟨doc₁, g, hdoc₁, hrecord, hprogress⟩ := dbPlayerGetPlayer_progress hw hget
    obtain rfl := Option.some.inj (hdoc.symm.trans hdoc₁)
    obtain rfl := Option.some.inj (hdoc.symm.trans (hw.playerdata ▸ hdoc₀))
    obtain ⟨player, hp, hid, hdata⟩ := hload hget
    obtain ⟨player₁, mapId, hp₁, hmapId, rfl⟩ := progress_eq_some.mp hprogress
    obtain rfl := Option.some.inj (hp.symm.trans hp₁)
    obtain ⟨player₂, id', name, m, map, hp₂, hid', hname, hm, hmap, rfl⟩ :=
      dbPlayerWritePlayer_eq_ok.mp hwrite
    obtain rfl := Option.some.inj (hp.symm.trans hp₂)
    obtain rfl := Option.some.inj (hid.symm.trans hid')
    rw [hm, mapIdOf, hmap, Option.map_some, Option.some.injEq] at hmapId
    have hfound := findById_modifyById (f := playerUpdate name map.id player.x player.y
      player.maxMove) (hdata ▸ hdoc) (hasId_playerUpdate hhasId)
    obtain rfl := Option.some.inj (hfound.symm.trans hdoc')
    exact ⟨_, name, map.id, hrecord, hname, hmapId.symm, lookup_playerUpdate_iff.mp hkeeps⟩
  · rintro ⟨g, name, mapId, hrecord, hname, hmapId, hkeeps⟩
    obtain ⟨p, w₁, hget, hprogress⟩ := dbPlayerGetPlayer_returns hw hdoc hrecord
    obtain ⟨player, hp, hid, hdata⟩ := hload hget
    obtain ⟨player₁, mapId₁, hp₁, hmapId₁, rfl⟩ := progress_eq_some.mp hprogress
    obtain rfl := Option.some.inj (hp.symm.trans hp₁)
    obtain rfl : mapId₁ = some mapId := hmapId
    obtain ⟨m, map, hm, hmap, rfl⟩ := mapIdOf_eq_some.mp hmapId₁
    refine ⟨p, w₁, _, doc, _, hget, dbPlayerWritePlayer_eq_ok.mpr
      ⟨player, id, name, m, map, hp, hid, hname, hm, hmap, rfl⟩, hw.playerdata.symm ▸ hdoc,
      findById_modifyById (hdata.symm ▸ hdoc) (hasId_playerUpdate hhasId),
      lookup_playerUpdate_iff.mpr hkeeps⟩

/-! ## What is kept -/

/-- A field that can be read: the id and the name are strings, and there is one id that passes
the check of `map_load` and has no map. -/
def Readable (defs : MapDefs) (field : String × Bson) : Prop :=
  (field.1 = "id" ∨ field.1 = "name" → ∃ s, field.2 = .utf8 s) ∧
    (field.1 = "map" → bsonIterInt32 field.2 ≠ defs.count)

theorem exists_bsonGetString_iff {value : Bson} :
    (∃ s, bsonGetString value = some s) ↔ ∃ s, value = .utf8 s := by
  cases value <;> simp [bsonGetString]

theorem exists_storeProgress_iff {field : String × Bson} :
    (∃ g', storeProgress defs g field = some g') ↔ Readable defs field := by
  obtain ⟨key, value⟩ := field
  unfold storeProgress Readable
  dsimp only
  by_cases hid : key = "id"
  · subst hid
    simpa using exists_bsonGetString_iff
  rw [if_neg hid]
  by_cases hname : key = "name"
  · subst hname
    simpa using exists_bsonGetString_iff
  rw [if_neg hname]
  by_cases hmap : key = "map"
  · subst hmap
    simp
  rw [if_neg hmap]
  refine iff_of_true ?_ ⟨fun h => (h.elim hid hname).elim, fun h => absurd h hmap⟩
  split_ifs <;> exact ⟨_, rfl⟩

/-- A record is read if every field is. -/
theorem exists_foldlM_iff {fields : List (String × Bson)} :
    (∃ g', fields.foldlM (storeProgress defs) g = some g') ↔
      ∀ field ∈ fields, Readable defs field := by
  induction fields generalizing g with
  | nil => exact iff_of_true ⟨g, rfl⟩ fun _ h => absurd h List.not_mem_nil
  | cons field fields ih =>
    rw [List.forall_mem_cons, ← exists_storeProgress_iff (g := g)]
    simp only [List.foldlM_cons, Option.bind_eq_bind, Option.bind_eq_some_iff]
    constructor
    · rintro ⟨g', g₁, hstore, hfold⟩
      exact ⟨⟨g₁, hstore⟩, ih.mp ⟨g', hfold⟩⟩
    · rintro ⟨⟨g₁, hstore⟩, hfields⟩
      obtain ⟨g', hfold⟩ := ih.mpr hfields
      exact ⟨g', g₁, hstore, hfold⟩

/-- A record with all its fields is read unless its map is the one behind the last. -/
theorem PlayerRecord.exists_recordProgress_iff (h : PlayerRecord doc name mapId x y maxMove)
    (hid : doc.hasId id) : (∃ g, recordProgress defs doc = some g) ↔ mapId ≠ defs.count := by
  have hfield : doc.fields.lookup "id" = some (.utf8 id) := (of_decide_eq_true hid).2
  have hlookup : ∀ {field : String × Bson} {value : Bson}, field ∈ doc.fields →
      doc.fields.lookup field.1 = some value → field.2 = value := by
    intro field value hmem hvalue
    obtain ⟨l, l', hfields, -⟩ := List.lookup_eq_some_iff.mp hvalue
    have hother : (field.1, value) ∈ doc.fields :=
      hfields ▸ List.mem_append_right l List.mem_cons_self
    exact congrArg Prod.snd (eq_of_name hother hmem rfl)
  rw [recordProgress, exists_foldlM_iff]
  constructor
  · intro hall
    obtain ⟨l, l', hfields, -⟩ := List.lookup_eq_some_iff.mp h.map
    exact (hall ("map", .int32 mapId)
      (hfields ▸ List.mem_append_right l List.mem_cons_self)).2 rfl
  · intro hcount field hmem
    refine ⟨?_, fun hkey => ?_⟩
    · rintro (hkey | hkey)
      · exact ⟨id, hlookup hmem (hkey ▸ hfield)⟩
      · exact ⟨name, hlookup hmem (hkey ▸ h.name)⟩
    · rw [hlookup hmem (hkey ▸ h.map)]
      exact hcount

theorem loadedId_eq_some_iff : loadedId defs mapId = some mapId ∧ mapId ≠ defs.count ↔
    0 ≤ mapId ∧ mapId < defs.count := by
  rw [loadedId, Option.ite_none_left_eq_some]
  constructor
  · rintro ⟨⟨hrange, -⟩, hcount⟩
    omega
  · rintro ⟨hle, hlt⟩
    exact ⟨⟨by omega, rfl⟩, by omega⟩

/-- A `short` holds the numbers of 16 bits. -/
theorem bmod_short_iff : Int.bmod maxMove (2 ^ 16) = maxMove ↔
    -2 ^ 15 ≤ maxMove ∧ maxMove < 2 ^ 15 := by
  rw [Int.bmod_def]
  split <;> omega

/-- **When a record is kept.**  In every state the server can reach, for every record with a
string for the name and numbers for the rest: loading it and writing it back keeps every field
exactly when the name has no zero byte, the map is one of the maps and `max_move` fits into 16
bits. -/
theorem keepsRecord_iff {playerdata : List Document} (h : Calls defs (boot playerdata) w)
    (hdoc : findById id playerdata = some doc)
    (hrecord : PlayerRecord doc name mapId x y maxMove) :
    KeepsRecord defs id w ↔ 0 ∉ name ∧ (0 ≤ mapId ∧ mapId < defs.count) ∧
      -2 ^ 15 ≤ maxMove ∧ maxMove < 2 ^ 15 := by
  rw [keepsRecord_iff_progress ((unsaved_boot playerdata).writes h.writes) hdoc,
    ← loadedId_eq_some_iff, ← bmod_short_iff, ← bsonGetString_utf8_iff]
  have hreads : (∃ g, recordProgress defs doc = some g) ↔ mapId ≠ defs.count :=
    hrecord.exists_recordProgress_iff (List.find?_some hdoc)
  have hsays : ∀ {g}, recordProgress defs doc = some g →
      g = ⟨bsonGetString (.utf8 name), loadedId defs mapId, x, y, Int.bmod maxMove (2 ^ 16)⟩ := by
    intro g hg
    obtain ⟨hname, hmapId, hx, hy, hmax⟩ := recordProgress_eq_some hg
    rw [hrecord.name] at hname
    rw [hrecord.map] at hmapId
    rw [intField, hrecord.x] at hx
    rw [intField, hrecord.y] at hy
    rw [hrecord.maxMove] at hmax
    obtain ⟨name', mapId', x', y', maxMove'⟩ := g
    rw [show name' = _ from hname, show mapId' = _ from hmapId, show x' = _ from hx,
      show y' = _ from hy, show maxMove' = _ from hmax]
    rfl
  constructor
  · rintro ⟨g, name', mapId', hg, hname, hmapId, hkeeps⟩
    obtain rfl := hsays hg
    obtain rfl : name = name' := by simpa [hrecord.name] using hkeeps.name
    obtain rfl : mapId = mapId' := by simpa [hrecord.map] using hkeeps.map
    have hmax : maxMove = Int.bmod maxMove (2 ^ 16) := by
      simpa [hrecord.maxMove] using hkeeps.maxMove
    exact ⟨hname, ⟨hmapId, hreads.mp ⟨_, hg⟩⟩, hmax.symm⟩
  · rintro ⟨hname, ⟨hmapId, hcount⟩, hmax⟩
    obtain ⟨g, hg⟩ := hreads.mpr hcount
    obtain rfl := hsays hg
    refine ⟨_, name, mapId, hg, hname, hmapId, ?_⟩
    show PlayerRecord doc name mapId x y (Int.bmod maxMove (2 ^ 16))
    rw [hmax]
    exact hrecord

/-- A record with all its fields. -/
def fullRecord (mapId maxMove : ℤ) : Document where
  fields := [("id", .utf8 [97]), ("name", .utf8 [98]), ("map", .int32 mapId), ("x", .int32 1),
    ("y", .int32 1), ("max_move", .int32 maxMove)]
  nodup := by
    show ["id", "name", "map", "x", "y", "max_move"].Nodup
    decide

theorem playerRecord_fullRecord (mapId maxMove : ℤ) :
    PlayerRecord (fullRecord mapId maxMove) [98] mapId 1 1 maxMove := ⟨rfl, rfl, rfl, rfl, rfl⟩

theorem keepsRecord_fullRecord : KeepsRecord mapLoaders [97] (boot [fullRecord 0 1]) :=
  (keepsRecord_iff .refl rfl (playerRecord_fullRecord 0 1)).mpr (by decide)

/-- **A record that is changed.**  The `max_move` of 40000 comes back as -25536. -/
theorem not_keepsRecord : ¬∀ defs playerdata w id doc name mapId x y maxMove,
    Calls defs (boot playerdata) w → findById id playerdata = some doc →
    PlayerRecord doc name mapId x y maxMove → KeepsRecord defs id w := by
  intro h
  have hkeeps := h mapLoaders [fullRecord 0 40000] _ [97] _ _ _ _ _ _ .refl rfl
    (playerRecord_fullRecord 0 40000)
  obtain ⟨g, _, _, hg, -, -, hsaved⟩ :=
    (keepsRecord_iff_progress (unsaved_boot _) rfl).mp hkeeps
  have hread : recordProgress mapLoaders (fullRecord 0 40000)
      = some ⟨some [98], some 0, 1, 1, -25536⟩ := by decide
  obtain rfl := Option.some.inj (hread.symm.trans hg)
  exact absurd hsaved.maxMove (by decide)

end World
end MmoBackend
