import MmoBackend.World.Server
import MmoBackend.World.Sound

/-!
# Reading a player from the database

`db_player_get_player` makes a player and reads the fields of its record into it, one
after the other.  The field `map` loads a map, the others only change the player, so
that nobody else notices: `Reads`.

What a field says is there after the loop, because no other field has its name.  For
a record with a valid map and a position on that map this gives the player a map that
is in memory and a position on it, `readPlayer_valid`.
-/

namespace MmoBackend

open Authentication Bytes Communication Db Maps Player

namespace World

variable {defs : MapDefs} {w w' v v' : World} {p : ℕ} {player old new : Player} {id : CString}
  {field : String × Bson} {u : Unit}

/-! ## Valid records -/

/-- A record with the id of a map and a position on that map. -/
def ValidRecord (defs : MapDefs) (doc : Document) : Prop :=
  ∃ (i : ℕ) (base : Map) (x y : ℤ), ("map", .int32 i) ∈ doc.fields ∧ ("x", .int32 x) ∈ doc.fields ∧
    ("y", .int32 y) ∈ doc.fields ∧ defs.loaders[i]? = some base ∧ mapCheckBounds base x y = true

/-- A database of such records. -/
def ValidRecords (defs : MapDefs) (playerdata : List Document) : Prop :=
  ∀ doc ∈ playerdata, ValidRecord defs doc

/-! ## One field -/

/-- The state `w'` is `w` with the player `player`, which nobody refers to, under `p`. -/
structure Reads (defs : MapDefs) (w : World) (p : ℕ) (player : Player) (w' : World) : Prop where
  kept : Kept defs w w'
  bits : SameBits defs w w'
  scene_eq : w'.scene = w.scene.setPlayer p player
  refs : player.refs = 1
  session : player.session = none

theorem Reads.get_eq (h : Reads defs w p player w') : w'.players.get p = some player := by
  have hp : w'.scene.player p = some player := by
    rw [h.scene_eq]
    exact Function.update_self _ _ _
  exact hp

theorem Reads.session_get {s : ℕ} {session : Session} (h : Reads defs w p player w')
    (hs : w.sessions.get s = some session) : w'.sessions.get s = some session := by
  have hsession : w'.scene.session s = some session := by
    rw [h.scene_eq]
    exact hs
  exact hsession

/-- What a field does to the player `old` in a step to the state `w'`. -/
structure Stored (defs : MapDefs) (field : String × Bson) (old new : Player) (w' : World) :
    Prop where
  refs : new.refs = old.refs
  session : new.session = old.session
  id : new.id = if field.1 = "id" then bsonGetString field.2 else old.id
  x : new.x = if field.1 = "x" then bsonIterInt32 field.2 else old.x
  y : new.y = if field.1 = "y" then bsonIterInt32 field.2 else old.y
  map : field.1 ≠ "map" → new.map = old.map
  loaded : field.1 = "map" → ∀ i : ℕ, bsonIterInt32 field.2 = i → i < defs.count →
    ∃ m, new.map = some m ∧ w'.tiles i = some m

/-- A field that only changes the player. -/
theorem stored_plain {f : Player → Player} (hp : w.players.get p = some old)
    (hstored : Stored defs field old (f old) w)
    (h : updatePlayer p f w = .ok (u, w')) :
    ∃ new w₁, Kept defs w w₁ ∧ Still defs w w₁ ∧ w' = w₁.setPlayer p new ∧
      Stored defs field old new w' := by
  obtain ⟨player, hp', rfl⟩ := updatePlayer_eq_ok.mp h
  obtain rfl := Option.some.inj (hp.symm.trans hp')
  exact ⟨_, w, Kept.refl w, Still.refl w, rfl, hstored.refs, hstored.session, hstored.id, hstored.x,
    hstored.y, hstored.map, hstored.loaded⟩

theorem readField_eq_ok (hp : w.players.get p = some old)
    (h : readField defs p field w = .ok (u, w')) :
    ∃ new w₁, Kept defs w w₁ ∧ Still defs w w₁ ∧ w' = w₁.setPlayer p new ∧
      Stored defs field old new w' := by
  obtain ⟨key, value⟩ := field
  simp only [readField] at h
  split at h
  · rename_i hkey
    obtain rfl : key = "id" := hkey
    simp only [Exec.bind_eq_ok, Exec.need_eq_ok] at h
    obtain ⟨s, _, ⟨hs, rfl⟩, h⟩ := h
    refine stored_plain hp ?_ h
    exact ⟨rfl, rfl, by rw [if_pos rfl]; exact hs.symm, rfl, rfl, fun _ => rfl,
      fun hmap : "id" = "map" => absurd hmap (by decide)⟩
  split at h
  · rename_i hid hkey
    obtain rfl : key = "name" := hkey
    simp only [Exec.bind_eq_ok, Exec.need_eq_ok] at h
    obtain ⟨s, _, ⟨-, rfl⟩, h⟩ := h
    exact stored_plain hp ⟨rfl, rfl, rfl, rfl, rfl, fun _ => rfl,
      fun hmap : "name" = "map" => absurd hmap (by decide)⟩ h
  split at h
  · rename_i hid hname hkey
    obtain rfl : key = "map" := hkey
    simp only [Exec.bind_eq_ok, updatePlayer_eq_ok] at h
    obtain ⟨r, w₁, hload, player, hp', rfl⟩ := h
    rcases mapLoad_eq_ok hload with ⟨hbad, rfl, rfl⟩ | ⟨i, m, map, hi, -, rfl, hloads⟩
    · obtain rfl := Option.some.inj (hp.symm.trans hp')
      refine ⟨_, w₁, Kept.refl w₁, Still.refl w₁, rfl, rfl, rfl, rfl, rfl, rfl,
        fun hne => absurd rfl hne, fun _ i hi hcount => ?_⟩
      dsimp only at hi
      omega
    · rw [hloads.players_eq] at hp'
      obtain rfl := Option.some.inj (hp.symm.trans hp')
      refine ⟨_, w₁, hloads.kept, hloads.still, rfl, rfl, rfl, rfl, rfl, rfl,
        fun hne => absurd rfl hne, fun _ j hj hcount => ⟨m, rfl, ?_⟩⟩
      obtain rfl : i = j := by
        dsimp only at hj
        omega
      exact hloads.tile_eq
  split at h
  · rename_i hid hname hmap hkey
    obtain rfl : key = "x" := hkey
    exact stored_plain hp ⟨rfl, rfl, rfl, rfl, rfl, fun _ => rfl, fun h => absurd h hmap⟩ h
  split at h
  · rename_i hid hname hmap hx hkey
    obtain rfl : key = "y" := hkey
    exact stored_plain hp ⟨rfl, rfl, rfl, rfl, rfl, fun _ => rfl, fun h => absurd h hmap⟩ h
  have hquiet : ∀ new : Player, new.refs = old.refs → new.session = old.session →
      new.id = old.id → new.x = old.x → new.y = old.y → new.map = old.map →
      Stored defs (key, value) old new w := by
    rename_i hid hname hmap hx hy
    intro new hrefs hsession hnid hnx hny hnmap
    exact ⟨hrefs, hsession, by rw [if_neg hid, hnid], by rw [if_neg hx, hnx],
      by rw [if_neg hy, hny], fun _ => hnmap, fun h => absurd h hmap⟩
  split at h
  · exact stored_plain hp (hquiet _ rfl rfl rfl rfl rfl rfl) h
  · obtain ⟨-, rfl⟩ := Exec.pure_eq_ok.mp h
    exact ⟨old, w, Kept.refl w, Still.refl w, by rw [setPlayer, Heap.set_eq_self hp],
      hquiet old rfl rfl rfl rfl rfl rfl⟩

/-- A field is read. -/
theorem Reads.readField (hreads : Reads defs w p old v)
    (h : readField defs p field v = .ok (u, v')) :
    ∃ new, Reads defs w p new v' ∧ Stored defs field old new v' ∧ Kept defs v v' := by
  obtain ⟨new, v₁, hkept, hstill, rfl, hstored⟩ := readField_eq_ok hreads.get_eq h
  have hp₁ : v₁.players.get p = some old :=
    (congrFun (congrArg Scene.player hstill.scene) p).trans hreads.get_eq
  have hbits : SameBits defs v (v₁.setPlayer p new) := hstill.bits.trans (SameBits.of_maps rfl)
  have hall : Kept defs v (v₁.setPlayer p new) := hkept.trans (Kept.setPlayer p new)
  refine ⟨new, ⟨hreads.kept.trans hall, hreads.bits.trans hbits, ?_, hstored.refs.trans hreads.refs,
    hstored.session.trans hreads.session⟩, hstored, hall⟩
  rw [scene_setPlayer hp₁, hstill.scene, hreads.scene_eq, Scene.setPlayer_setPlayer]

/-! ## All fields -/

/-- What one field says is there after the loop, if no other field takes it back. -/
theorem Reads.forEach {fields : List (String × Bson)} {Q : Player → World → Prop}
    (hfield : field ∈ fields)
    (hset : ∀ old new v', Stored defs field old new v' → Q new v')
    (hkeep : ∀ other ∈ fields, ∀ old new v v', Kept defs v v' → Stored defs other old new v' →
      Q old v → Q new v')
    (hreads : Reads defs w p old v)
    (h : Exec.forEach fields (World.readField defs p) v = .ok ((), v')) :
    ∃ new, Reads defs w p new v' ∧ Q new v' := by
  refine Exec.forEach_establish (I := fun v => ∃ old, Reads defs w p old v)
    (P := fun v => ∃ new, Reads defs w p new v ∧ Q new v) hfield ?_ ?_ ?_ ⟨old, hreads⟩ h
  · rintro other - v v' ⟨old, hold⟩ hother
    obtain ⟨new, hnew, -⟩ := hold.readField hother
    exact ⟨new, hnew⟩
  · rintro v v' ⟨old, hold⟩ hread
    obtain ⟨new, hnew, hstored, -⟩ := hold.readField hread
    exact ⟨new, hnew, hset old new v' hstored⟩
  · rintro other hmem v v' - ⟨old, hold, hQ⟩ hother
    obtain ⟨new, hnew, hstored, hkept⟩ := hold.readField hother
    exact ⟨new, hnew, hkeep other hmem old new v v' hkept hstored hQ⟩

/-- A field with the name of another is that field. -/
theorem eq_of_name {doc : Document} {other : String × Bson} (hfield : field ∈ doc.fields)
    (hother : other ∈ doc.fields) (h : other.1 = field.1) : other = field :=
  List.inj_on_of_nodup_map doc.nodup hother hfield h

/-- What the loop has made of a part of the player that one field says. -/
theorem Reads.forEach_key {doc : Document} {β : Type} {f : Player → β} {g : Bson → β} {key : String}
    {value : Bson} (hfield : (key, value) ∈ doc.fields)
    (hstored : ∀ {other old new v'}, Stored defs other old new v' →
      f new = if other.1 = key then g other.2 else f old) (hreads : Reads defs w p old v)
    (h : Exec.forEach doc.fields (World.readField defs p) v = .ok ((), v')) :
    ∃ new, Reads defs w p new v' ∧ f new = g value := by
  refine hreads.forEach (Q := fun new _ => f new = g value) hfield (fun old new _ hnew => ?_)
    (fun other hother old new _ _ _ hnew hold => ?_) h
  · rw [hstored hnew, if_pos rfl]
  · rw [hstored hnew]
    split
    · rename_i hname
      rw [eq_of_name hfield hother hname]
    · exact hold

/-- The map of the record. -/
theorem Reads.forEach_map {doc : Document} {i : ℕ} {value : Bson}
    (hmap : ("map", value) ∈ doc.fields) (hi : bsonIterInt32 value = i) (hcount : i < defs.count)
    (hreads : Reads defs w p old v)
    (h : Exec.forEach doc.fields (World.readField defs p) v = .ok ((), v')) :
    ∃ new m, Reads defs w p new v' ∧ new.map = some m ∧ v'.tiles i = some m := by
  obtain ⟨new, hnew, m, hm, htile⟩ := hreads.forEach
    (Q := fun new v => ∃ m, new.map = some m ∧ v.tiles i = some m) hmap
    (fun old new _ hstored => hstored.loaded rfl i hi hcount)
    (fun other hother old new v v' hkept hstored ⟨m, hm, htile⟩ => by
      by_cases hname : other.1 = "map"
      · obtain rfl := eq_of_name hmap hother hname
        exact hstored.loaded rfl i hi hcount
      · exact ⟨m, (hstored.map hname).trans hm, hkept.tiles i m htile⟩) h
  exact ⟨new, m, hnew, hm, htile⟩

/-- **The fields of a record** that are there after the loop. -/
theorem Reads.forEach_valid {doc : Document} {i : ℕ} {base : Map} {x y : ℤ}
    (hid : ("id", .utf8 id) ∈ doc.fields) (hzero : 0 ∉ id) (hmap : ("map", .int32 i) ∈ doc.fields)
    (hx : ("x", .int32 x) ∈ doc.fields) (hy : ("y", .int32 y) ∈ doc.fields)
    (hbase : defs.loaders[i]? = some base) (hreads : Reads defs w p old v)
    (h : Exec.forEach doc.fields (World.readField defs p) v = .ok ((), v')) :
    ∃ new m, Reads defs w p new v' ∧ new.id = some id ∧ new.x = x ∧ new.y = y ∧
      new.map = some m ∧ v'.tiles i = some m := by
  obtain ⟨new, hnew, hnewid⟩ :=
    hreads.forEach_key (f := Player.id) (g := bsonGetString) hid (fun hnew => hnew.id) h
  obtain ⟨newx, hnewx, hx'⟩ :=
    hreads.forEach_key (f := Player.x) (g := bsonIterInt32) hx (fun hnew => hnew.x) h
  obtain ⟨newy, hnewy, hy'⟩ :=
    hreads.forEach_key (f := Player.y) (g := bsonIterInt32) hy (fun hnew => hnew.y) h
  obtain ⟨newm, m, hnewm, hm, htile⟩ :=
    hreads.forEach_map hmap rfl (List.getElem?_eq_some_iff.mp hbase).1 h
  -- the four loops are the same loop
  obtain rfl := Option.some.inj (hnew.get_eq.symm.trans hnewx.get_eq)
  obtain rfl := Option.some.inj (hnew.get_eq.symm.trans hnewy.get_eq)
  obtain rfl := Option.some.inj (hnew.get_eq.symm.trans hnewm.get_eq)
  exact ⟨new, m, hnew, hnewid.trans (bsonGetString_utf8_iff.mpr hzero), hx', hy', hm, htile⟩

/-! ## `db_player_get_player` -/

/-- A record the database finds. -/
theorem findById_eq_some {playerdata : List Document} {doc : Document}
    (h : findById id playerdata = some doc) :
    doc ∈ playerdata ∧ 0 ∉ id ∧ ("id", .utf8 id) ∈ doc.fields := by
  obtain ⟨hzero, hid⟩ : 0 ∉ id ∧ doc.fields.lookup "id" = some (.utf8 id) := by
    simpa [Document.hasId] using List.find?_some h
  refine ⟨List.mem_of_find?_eq_some h, hzero, ?_⟩
  obtain ⟨l, l', hfields, -⟩ := List.lookup_eq_some_iff.mp hid
  rw [hfields]
  exact List.mem_append_right l List.mem_cons_self

/-- The state with a player that was just made. -/
def withNewPlayer (w : World) : World :=
  { w with players := w.players.alloc ⟨0, 0, 0, 0, 1, none, none, none, none⟩ }

/-- The player that is made. -/
theorem reads_alloc (w : World) :
    Reads defs w w.players.next ⟨0, 0, 0, 0, 1, none, none, none, none⟩ w.withNewPlayer where
  kept := Kept.of_eq rfl rfl rfl rfl
  bits := SameBits.of_maps rfl
  scene_eq := by
    refine Scene.ext rfl (funext fun q => ?_) rfl rfl
    show (w.players.alloc _).get q = Function.update w.scene.player w.players.next _ q
    rw [Heap.get_alloc, Function.update_apply]
    rfl
  refs := rfl
  session := rfl

/-- **`db_player_get_player`** finds no record, or makes a player and reads the fields of
the record. -/
theorem dbPlayerGetPlayer_eq_ok {r : Option ℕ} (hcache : w.cache = [])
    (h : dbPlayerGetPlayer defs id w = .ok (r, w')) :
    findById id w.playerdata = none ∧ r = none ∧ w' = w ∨
      ∃ doc, findById id w.playerdata = some doc ∧ r = some w.players.next ∧
        Exec.forEach doc.fields (World.readField defs w.players.next) w.withNewPlayer
          = .ok ((), w') := by
  simp only [dbPlayerGetPlayer, playerCacheFind, Exec.bind_eq_ok, lock_eq_ok, Exec.get_eq_ok] at h
  obtain ⟨cached, w₁, ⟨_, _, ⟨-, rfl⟩, _, _, ⟨rfl, rfl⟩, hfind⟩, h⟩ := h
  have hempty : (w.setLocks (.cache :: w.locks)).cache = [] := hcache
  rw [hempty, List.lookup_nil] at hfind
  simp only [Exec.bind_eq_ok, unlock_eq_ok, Exec.pure_eq_ok] at hfind
  obtain ⟨_, _, rfl, rfl, rfl⟩ := hfind
  have hunlock : World.setLocks ((Lock.cache :: w.locks).erase .cache)
      (w.setLocks (.cache :: w.locks)) = w := by
    rw [List.erase_cons_head]
    rfl
  rw [show (w.setLocks (.cache :: w.locks)).locks = Lock.cache :: w.locks from rfl, hunlock] at h
  simp only [readPlayer, Exec.bind_eq_ok, Exec.get_eq_ok] at h
  obtain ⟨_, _, ⟨rfl, rfl⟩, h⟩ := h
  cases hfind : findById id w.playerdata with
  | none =>
    rw [hfind] at h
    obtain ⟨rfl, rfl⟩ := Exec.pure_eq_ok.mp h
    exact Or.inl ⟨rfl, rfl, rfl⟩
  | some doc =>
    rw [hfind] at h
    simp only [playerCreate, Exec.bind_eq_ok, Exec.get_eq_ok, Exec.modify_eq_ok,
      Exec.pure_eq_ok] at h
    obtain ⟨_, _, ⟨_, _, ⟨rfl, rfl⟩, _, _, rfl, rfl, rfl⟩, ⟨⟩, w₂, hloop, rfl, rfl⟩ := h
    exact Or.inr ⟨doc, rfl, rfl, hloop⟩

/-- **Reading any record** gives a player with the id that was asked for. -/
theorem dbPlayerGetPlayer_found {r : Option ℕ} (hcache : w.cache = [])
    (h : dbPlayerGetPlayer defs id w = .ok (r, w')) :
    findById id w.playerdata = none ∧ r = none ∧ w' = w ∨
      ∃ doc player, findById id w.playerdata = some doc ∧ r = some w.players.next ∧
        Reads defs w w.players.next player w' ∧ player.id = some id := by
  rcases dbPlayerGetPlayer_eq_ok hcache h with hnone | ⟨doc, hfind, hr, hloop⟩
  · exact Or.inl hnone
  · obtain ⟨-, hzero, hfield⟩ := findById_eq_some hfind
    obtain ⟨player, hplayer, hid⟩ := (reads_alloc w).forEach_key (f := Player.id)
      (g := bsonGetString) hfield (fun hnew => hnew.id) hloop
    exact Or.inr ⟨doc, player, hfind, hr, hplayer, hid.trans (bsonGetString_utf8_iff.mpr hzero)⟩

theorem dbPlayerGetPlayer_reads {r : Option ℕ} (hcache : w.cache = [])
    (h : dbPlayerGetPlayer defs id w = .ok (r, w')) :
    w' = w ∨ ∃ player, Reads defs w w.players.next player w' := by
  rcases dbPlayerGetPlayer_found hcache h with ⟨-, -, rfl⟩ | ⟨_, player, -, -, hreads, -⟩
  · exact Or.inl rfl
  · exact Or.inr ⟨player, hreads⟩

/-- **Reading a valid record** gives a player with the id that was asked for, on a map in
memory. -/
theorem dbPlayerGetPlayer_valid {r : Option ℕ} (hcache : w.cache = [])
    (hdata : ValidRecords defs w.playerdata) (h : dbPlayerGetPlayer defs id w = .ok (r, w')) :
    findById id w.playerdata = none ∧ r = none ∧ w' = w ∨
      ∃ doc player i base m, findById id w.playerdata = some doc ∧ r = some w.players.next ∧
        Reads defs w w.players.next player w' ∧ player.id = some id ∧ player.map = some m ∧
        w'.tiles i = some m ∧ defs.loaders[i]? = some base ∧
        mapCheckBounds base player.x player.y = true := by
  rcases dbPlayerGetPlayer_eq_ok hcache h with hnone | ⟨doc, hfind, hr, hloop⟩
  · exact Or.inl hnone
  · obtain ⟨hdoc, hzero, hid⟩ := findById_eq_some hfind
    obtain ⟨i, base, x, y, hmap, hx, hy, hbase, hbounds⟩ := hdata doc hdoc
    obtain ⟨player, m, hplayer, hpid, rfl, rfl, hpm, htile⟩ :=
      (reads_alloc w).forEach_valid hid hzero hmap hx hy hbase hloop
    exact Or.inr ⟨doc, player, i, base, m, hfind, hr, hplayer, hpid, hpm, htile, hbase, hbounds⟩

end World
end MmoBackend
