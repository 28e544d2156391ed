import MmoBackend.World.Effects

/-!
# The registry of maps stays in order

`tiles` holds the maps that are in memory, each under its own id, and each is what its
loader made apart from its bits, players and references.  `Sound` says so, together
with the fact that the player cache is empty, since nothing ever puts a player into
it.

No call breaks this as long as no map loses its last reference, and then no map loses
any: loads outnumber unloads.  `Kept` relates the state before such a call to the
state after it.  For each call there is a lemma that gives `Kept` and the scene
afterwards.
-/

namespace MmoBackend

open Authentication Communication Maps Player

namespace World

/-- What is fixed when a map is loaded. -/
def frame (map : Map) : ℤ × ℤ × ℤ × List MapEvent := (map.id, map.width, map.height, map.events)

theorem id_of_frame {map map' : Map} (h : frame map' = frame map) : map'.id = map.id :=
  (Prod.mk.inj h).1

theorem events_of_frame {map map' : Map} (h : frame map' = frame map) :
    map'.events = map.events :=
  (Prod.mk.inj (Prod.mk.inj (Prod.mk.inj h).2).2).2

theorem mapCheckBounds_of_frame {map map' : Map} (h : frame map' = frame map) (x y : ℤ) :
    mapCheckBounds map' x y = mapCheckBounds map x y := by
  have hw : map'.width = map.width := (Prod.mk.inj (Prod.mk.inj h).2).1
  have hh : map'.height = map.height := (Prod.mk.inj (Prod.mk.inj (Prod.mk.inj h).2).2).1
  rw [mapCheckBounds, mapCheckBounds, hw, hh]

variable (defs : MapDefs)

/-- The registry is in order. -/
structure Sound (w : World) : Prop where
  tile : ∀ i m, w.tiles i = some m → ∃ map base, w.maps.get m = some map ∧
    defs.loaders[i]? = some base ∧ frame map = frame base ∧ 1 ≤ map.refs
  map : ∀ m map, w.maps.get m = some map → ∃ i : ℕ, map.id = i ∧ w.tiles i = some m
  cache : w.cache = []

/-- The registry stays in order, and of the maps only bits, players and references
change. -/
structure Steady (w w' : World) : Prop where
  sound : Sound defs w → Sound defs w'
  tiles : ∀ i m, w.tiles i = some m → w'.tiles i = some m
  maps : ∀ m map, w.maps.get m = some map →
    ∃ map', w'.maps.get m = some map' ∧ frame map' = frame map
  playerdata : w'.playerdata = w.playerdata

/-- Besides, no map loses references. -/
structure Kept (w w' : World) : Prop extends Steady defs w w' where
  refs : ∀ m map map', w.maps.get m = some map → w'.maps.get m = some map' →
    map.refs ≤ map'.refs

variable {defs}

theorem sound_boot (playerdata : List Db.Document) : Sound defs (boot playerdata) :=
  ⟨fun _ _ h => absurd h.symm (Option.some_ne_none _),
    fun _ _ h => absurd h.symm (Option.some_ne_none _), rfl⟩

theorem Steady.trans {w w' w'' : World} (h : Steady defs w w') (h' : Steady defs w' w'') :
    Steady defs w w'' where
  sound hw := h'.sound (h.sound hw)
  tiles i m hi := h'.tiles i m (h.tiles i m hi)
  maps m map hm := by
    obtain ⟨map₁, hmap₁, hframe₁⟩ := h.maps m map hm
    obtain ⟨map₂, hmap₂, hframe₂⟩ := h'.maps m map₁ hmap₁
    exact ⟨map₂, hmap₂, hframe₂.trans hframe₁⟩
  playerdata := h'.playerdata.trans h.playerdata

namespace Kept

variable {w w' w'' : World} {m : ℕ} {map old : Map}

/-- The maps are not touched. -/
theorem of_eq (hmaps : w'.maps = w.maps) (htiles : w'.tiles = w.tiles) (hcache : w'.cache = w.cache)
    (hdata : w'.playerdata = w.playerdata) : Kept defs w w' where
  sound h := ⟨by rw [hmaps, htiles]; exact h.tile, by rw [hmaps, htiles]; exact h.map,
    hcache.trans h.cache⟩
  tiles i m h := htiles ▸ h
  maps m map h := ⟨map, by rw [hmaps]; exact h, rfl⟩
  playerdata := hdata
  refs m map map' h h' := by
    rw [hmaps, h, Option.some.injEq] at h'
    rw [h']

theorem refl (w : World) : Kept defs w w := of_eq rfl rfl rfl rfl

theorem trans (h : Kept defs w w') (h' : Kept defs w' w'') : Kept defs w w'' where
  toSteady := h.toSteady.trans h'.toSteady
  refs m map map₂ hm hm₂ := by
    obtain ⟨map₁, hmap₁, -⟩ := h.maps m map hm
    exact (h.refs m map map₁ hm hmap₁).trans (h'.refs m map₁ map₂ hmap₁ hm₂)

end Kept

section Writes

variable {w w' : World} {m i : ℕ} {map old : Map}

/-- A map is written, keeping what is fixed, with references left. -/
theorem Steady.setMap (hm : w.maps.get m = some old) (hframe : frame map = frame old)
    (hrefs : 1 ≤ old.refs → 1 ≤ map.refs) : Steady defs w (w.setMap m map) where
  sound h := by
    refine ⟨fun i k hi => ?_, fun k map' hk => ?_, h.cache⟩
    · obtain ⟨map', base, hmap', hbase, hframe', hrefs'⟩ := h.tile i k hi
      by_cases hkm : k = m
      · subst hkm
        obtain rfl := Option.some.inj (hm.symm.trans hmap')
        exact ⟨map, base, Heap.get_set_self _ hm, hbase, hframe.trans hframe', hrefs hrefs'⟩
      · exact ⟨map', base, (Heap.get_set_of_ne _ hkm).trans hmap', hbase, hframe', hrefs'⟩
    · by_cases hkm : k = m
      · subst hkm
        obtain rfl := Option.some.inj ((Heap.get_set_self map hm).symm.trans hk)
        obtain ⟨i, hid, hi⟩ := h.map k old hm
        exact ⟨i, (id_of_frame hframe).trans hid, hi⟩
      · exact h.map k map' ((Heap.get_set_of_ne map hkm).symm.trans hk)
  tiles i k hi := hi
  maps k map' hk := by
    by_cases hkm : k = m
    · subst hkm
      obtain rfl := Option.some.inj (hm.symm.trans hk)
      exact ⟨map, Heap.get_set_self _ hm, hframe⟩
    · exact ⟨map', (Heap.get_set_of_ne _ hkm).trans hk, rfl⟩
  playerdata := rfl

/-- A map is written, keeping what is fixed and losing no reference. -/
theorem Kept.setMap (hm : w.maps.get m = some old) (hframe : frame map = frame old)
    (hrefs : old.refs ≤ map.refs) : Kept defs w (w.setMap m map) where
  toSteady := Steady.setMap hm hframe fun h => h.trans hrefs
  refs k map₀ map₁ hk hk₁ := by
    by_cases hkm : k = m
    · subst hkm
      obtain rfl := Option.some.inj (hm.symm.trans hk)
      obtain rfl := Option.some.inj ((Heap.get_set_self map hm).symm.trans hk₁)
      exact hrefs
    · obtain rfl := Option.some.inj (hk.symm.trans ((Heap.get_set_of_ne map hkm).symm.trans hk₁))
      exact le_refl _

/-- A list of players is written. -/
theorem Kept.setPlayers (hm : w.maps.get m = some map) (l : List ℕ) :
    Kept defs w (w.setMap m { map with players := l }) :=
  Kept.setMap hm rfl (le_refl map.refs)

theorem Kept.setPlayer (p : ℕ) (player : Player) : Kept defs w (w.setPlayer p player) :=
  of_eq rfl rfl rfl rfl

theorem Kept.setSession (s : ℕ) (session : Session) : Kept defs w (w.setSession s session) :=
  of_eq rfl rfl rfl rfl

theorem Kept.newSession (session : Session) :
    Kept defs w { w with sessions := w.sessions.alloc session } := of_eq rfl rfl rfl rfl

theorem Kept.setTable (table : AwaitingTable) : Kept defs w (w.setTable table) :=
  of_eq rfl rfl rfl rfl

theorem Kept.setErrno (code : ℤ) : Kept defs w { w with packetErrno := code } :=
  of_eq rfl rfl rfl rfl

theorem Kept.emit (l : List (ℕ × Sent)) : Kept defs w (w.emit l) := of_eq rfl rfl rfl rfl

theorem Kept.write (fd : ℕ) (sent : Sent) : Kept defs w (w.write fd sent) :=
  of_eq rfl rfl rfl rfl

theorem Kept.tellAll (l : List ℕ) (packet : ServerPacket) :
    Kept defs w (w.tellAll l packet) := of_eq rfl rfl rfl rfl

/-- A load keeps the registry in order. -/
theorem Loads.kept (h : Loads defs w i m map w') : Kept defs w w' := by
  cases h with
  | loaded _ hget => exact Kept.setMap hget rfl (Int.le_of_lt (Int.lt_succ _))
  | created hi hm hloader =>
    have hfresh := defs.fresh i map hloader
    have hget : ∀ k map', w.maps.get k = some map' → (w.maps.alloc
        { map with refs := map.refs + 1 }).get k = some map' :=
      fun k map' hk => Heap.get_alloc_of_get _ hk
    have htile : ∀ j k, w.tiles j = some k →
        Function.update w.tiles i (some w.maps.next) j = some k := by
      intro j k hj
      rw [Function.update_of_ne (fun hji => ?_)]
      · exact hj
      · rw [hji, hi] at hj
        exact absurd hj.symm (Option.some_ne_none _)
    refine ⟨⟨fun hw => ⟨fun j k hj => ?_, fun k map' hk => ?_, hw.cache⟩, htile,
      fun k map' hk => ⟨map', hget k map' hk, rfl⟩, rfl⟩, fun k map₀ map₁ hk hk₁ => ?_⟩
    · have hj' : Function.update w.tiles i (some w.maps.next) j = some k := hj
      by_cases hji : j = i
      · rw [hji, Function.update_self] at hj'
        obtain rfl := Option.some.inj hj'
        subst hji
        exact ⟨_, map, Heap.get_alloc_next _ _, hloader, rfl, by dsimp only; omega⟩
      · rw [Function.update_of_ne hji] at hj'
        obtain ⟨map', base, hmap', hrest⟩ := hw.tile j k hj'
        exact ⟨map', base, hget k map' hmap', hrest⟩
    · rcases Heap.get_alloc_eq_some hk with ⟨hnext, rfl⟩ | ⟨-, hold⟩
      · exact ⟨i, hfresh.1, hnext ▸ Function.update_self _ _ _⟩
      · obtain ⟨j, hid, hj⟩ := hw.map k map' hold
        exact ⟨j, hid, htile j k hj⟩
    · obtain rfl := Option.some.inj ((hget k map₀ hk).symm.trans hk₁)
      exact le_refl _

theorem Loads.tile_eq (h : Loads defs w i m map w') : w'.tiles i = some m := by
  cases h with
  | loaded htile _ => exact htile
  | created _ hm _ => exact hm ▸ Function.update_self _ _ _

end Writes

/-! ## Loads and unloads -/

section Load

variable {w w' : World} {m : ℕ} {map : Map} {r : Option ℕ} {u : Unit}

/-- A valid id is loaded. -/
theorem mapLoad_valid {i : ℕ} (hi : i < defs.count) (h : mapLoad defs i w = .ok (r, w')) :
    ∃ m map, r = some m ∧ Loads defs w i m map w' := by
  rcases mapLoad_eq_ok h with ⟨hbad, -⟩ | ⟨j, m, map, hij, -, hr, hload⟩
  · omega
  · obtain rfl : i = j := by omega
    exact ⟨m, map, hr, hload⟩

/-- A map in memory has references. -/
theorem Sound.one_le_refs (hw : Sound defs w) (hm : w.maps.get m = some map) : 1 ≤ map.refs := by
  obtain ⟨i, -, hi⟩ := hw.map m map hm
  obtain ⟨map', _, hmap', -, -, hrefs⟩ := hw.tile i m hi
  obtain rfl := Option.some.inj (hm.symm.trans hmap')
  exact hrefs

/-- A map in memory has the id it was loaded under. -/
theorem Sound.id_of_tile (hw : Sound defs w) {i : ℕ} (hi : w.tiles i = some m)
    (hm : w.maps.get m = some map) : map.id = i := by
  obtain ⟨map', base, hmap', hbase, hframe, -⟩ := hw.tile i m hi
  obtain rfl := Option.some.inj (hm.symm.trans hmap')
  exact (id_of_frame hframe).trans (defs.fresh i base hbase).1

theorem Sound.lt_count (hw : Sound defs w) {i : ℕ} (hi : w.tiles i = some m) :
    i < defs.count := by
  obtain ⟨_, _, -, hbase, -⟩ := hw.tile i m hi
  exact (List.getElem?_eq_some_iff.mp hbase).1

/-- The id of a map in memory loads that map. -/
theorem mapLoad_self (hw : Sound defs w) (hm : w.maps.get m = some map)
    (h : mapLoad defs map.id w = .ok (r, w')) :
    ∃ i : ℕ, map.id = i ∧ r = some m ∧ Loads defs w i m map w' := by
  obtain ⟨i, hid, hi⟩ := hw.map m map hm
  rw [hid] at h
  obtain ⟨k, map', rfl, hload⟩ := mapLoad_valid (hw.lt_count hi) h
  cases hload with
  | loaded htile hget =>
    obtain rfl := Option.some.inj (hi.symm.trans htile)
    obtain rfl := Option.some.inj (hm.symm.trans hget)
    exact ⟨i, hid, rfl, .loaded htile hget⟩
  | created htile _ _ => exact absurd (hi.symm.trans htile) (Option.some_ne_none _)

/-- An unload that is not the last. -/
theorem mapUnload_self (hw : Sound defs w) (hm : w.maps.get m = some map) (hrefs : 2 ≤ map.refs)
    (h : mapUnload defs map.id w = .ok (u, w')) :
    w' = w ∨ w' = w.setMap m { map with refs := map.refs - 1 } := by
  rcases mapUnload_eq_ok h with rfl | ⟨i, k, map', hid, hi, hmap', hset⟩
  · exact Or.inl rfl
  · obtain ⟨j, hid', hj⟩ := hw.map m map hm
    obtain rfl : i = j := by omega
    obtain rfl := Option.some.inj (hi.symm.trans hj)
    obtain rfl := Option.some.inj (hmap'.symm.trans hm)
    exact Or.inr (hset (by omega))

end Load

/-! ## Calls that only count references -/

/-- The bits of no map change, and a map that is new has those of its loader. -/
def SameBits (defs : MapDefs) (w w' : World) : Prop :=
  ∀ m map', w'.maps.get m = some map' → ∃ map,
    (w.maps.get m = some map ∨ map ∈ defs.loaders) ∧ frame map' = frame map ∧
      map'.collision = map.collision

section SameBits

variable {w w' w'' : World} {m : ℕ} {map old : Map}

theorem SameBits.of_maps (h : w'.maps = w.maps) : SameBits defs w w' :=
  fun _ map' hm => ⟨map', Or.inl (h ▸ hm), rfl, rfl⟩

theorem SameBits.trans (h : SameBits defs w w') (h' : SameBits defs w' w'') :
    SameBits defs w w'' := by
  intro m map₂ hm₂
  obtain ⟨map₁, hm₁ | hbase, hframe, hbits⟩ := h' m map₂ hm₂
  · obtain ⟨map, hmap, hframe', hbits'⟩ := h m map₁ hm₁
    exact ⟨map, hmap, hframe.trans hframe', hbits.trans hbits'⟩
  · exact ⟨map₁, Or.inr hbase, hframe, hbits⟩

theorem SameBits.setMap (hm : w.maps.get m = some old) (hframe : frame map = frame old)
    (hbits : map.collision = old.collision) : SameBits defs w (w.setMap m map) := by
  intro k map' hk
  by_cases hkm : k = m
  · subst hkm
    obtain rfl := Option.some.inj ((Heap.get_set_self map hm).symm.trans hk)
    exact ⟨old, Or.inl hm, hframe, hbits⟩
  · exact ⟨map', Or.inl ((Heap.get_set_of_ne map hkm).symm.trans hk), rfl, rfl⟩

end SameBits

/-- Only references change, and perhaps a map is loaded. -/
structure Still (defs : MapDefs) (w w' : World) : Prop extends Steady defs w w' where
  scene : w'.scene = w.scene
  bits : SameBits defs w w'

section Still

variable {w w' : World} {i m : ℕ} {map old : Map}

theorem Still.refl (w : World) : Still defs w w :=
  ⟨(Kept.refl w).toSteady, rfl, SameBits.of_maps rfl⟩

/-- A map is written, but for its references as it was. -/
theorem Still.setMap (hm : w.maps.get m = some old) (hframe : frame map = frame old)
    (hrefs : 1 ≤ old.refs → 1 ≤ map.refs) (hplayers : map.players = old.players)
    (hbits : map.collision = old.collision) : Still defs w (w.setMap m map) where
  toSteady := Steady.setMap hm hframe hrefs
  scene := scene_setMap_of_players hm hplayers
  bits := SameBits.setMap hm hframe hbits

theorem Loads.still (h : Loads defs w i m map w') : Still defs w w' := by
  cases h with
  | loaded _ hget =>
    exact Still.setMap hget rfl (fun h => h.trans (Int.le_of_lt (Int.lt_succ _))) rfl rfl
  | created hi hm hloader =>
    have hloads : Loads defs w i m map _ := .created hi hm hloader
    refine ⟨hloads.kept.toSteady, hloads.scene_eq, fun k map' hk => ?_⟩
    rcases Heap.get_alloc_eq_some hk with ⟨-, rfl⟩ | ⟨-, hold⟩
    · exact ⟨map, Or.inr (List.mem_of_getElem? hloader), rfl, rfl⟩
    · exact ⟨map', Or.inl hold, rfl, rfl⟩

end Still

end World
end MmoBackend
