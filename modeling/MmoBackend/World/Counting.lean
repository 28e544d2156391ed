import MmoBackend.World.References

/-!
# Taking references and giving them back

`map_load` takes a reference and `map_unload` gives one back that is held.  With the
last one the map is freed: no player points at it then, so no player is in its list, and
the loop of `map_free` over the list has nothing to do.  In the same way the player that
loses its last reference is in no list, and the reference to its map goes over to the
call that frees it.

So the two never call each other back, and `player_free` makes no call of itself.
-/

namespace MmoBackend

open Authentication Communication Db Exec Ledger Maps Walk

namespace World

variable {defs : MapDefs} {own : ℕ → ℕ} {held : List ℕ} {d : Option ℕ} {w w' : World}
  {g : Notes} {i m p : ℕ} {map map' : Map} {player : Player}

/-! ## `map_load` -/

theorem Good.load (h : Good defs own held d w g) (hi : i < defs.count)
    (hload : Loads defs w i m map w') : Good defs own (m :: held) d w' g := by
  cases hload with
  | loaded htile hget =>
    refine ⟨?_, h.uncached, h.clean⟩
    rw [ledger_setMap]
    exact h.balanced.retain (box_of_get hget)
  | created htile hm hloader =>
    obtain ⟨hid, hrefs, hplayers⟩ := defs.fresh i map hloader
    refine ⟨?_, h.uncached, h.clean⟩
    have hid' : ({ map with refs := map.refs + 1 } : Map).id = i := hid
    rw [ledger_addTile w hi hid', hm]
    refine h.balanced.create ?_ ?_ hplayers
    · show (if (defs.count : ℤ) < map.id ∨ map.id < 0 then none else w.tiles map.id.toNat) = none
      rw [hid, if_neg (by omega), Int.toNat_natCast, htile]
    · show 1 ≤ map.refs + 1
      omega

/-- The count of a map may grow at any time. -/
theorem Shelters.setMap (h : Shelters defs d w g) (hm : w.maps.get m = some map)
    (hid : map'.id = map.id) (hrefs : map.refs ≤ map'.refs) :
    Shelters defs d (w.setMap m map') g := by
  refine ⟨?_, h.clean⟩
  rw [ledger_setMap]
  exact h.backed.setBox (box_of_get hm) hid hrefs

/-- What `map_load` has done when it returns. -/
def Loaded (defs : MapDefs) (id : ℤ) (w : World) (r : Option ℕ) (w' : World) : Prop :=
  ((defs.count : ℤ) < id ∨ id < 0) ∧ r = none ∧ w' = w ∨
    ∃ i m map, id = (i : ℕ) ∧ i < defs.count ∧ r = some m ∧ Loads defs w i m map w'

theorem safe_ensureTile {i : ℕ} (hloader : defs.loaders[i]? = some map)
    (h : Shelters defs d w g) :
    Safe (Shelters defs d) (.step (ensureTile i map)) w g fun _ w' g' =>
      Shelters defs d w' g ∧ g' = g := by
  refine safe_step fun m w' htile => and_assoc.mp ⟨?_, rfl⟩
  rw [and_self]
  simp only [ensureTile, bind_eq_ok, get_eq_ok] at htile
  obtain ⟨_, _, ⟨rfl, rfl⟩, htile⟩ := htile
  cases hi : w.tiles i with
  | some k =>
    rw [hi] at htile
    obtain ⟨-, rfl⟩ := pure_eq_ok.mp htile
    exact h
  | none =>
    rw [hi] at htile
    simp only [bind_eq_ok, modify_eq_ok, pure_eq_ok] at htile
    obtain ⟨_, _, rfl, -, rfl⟩ := htile
    have hlt : i < defs.count := (List.getElem?_eq_some_iff.mp hloader).1
    have hid := (defs.fresh i map hloader).1
    refine ⟨?_, h.clean⟩
    rw [ledger_addTile w hlt hid]
    refine h.backed.addBox ?_
    show (if (defs.count : ℤ) < map.id ∨ map.id < 0 then none else w.tiles map.id.toNat) = none
    rw [hid, if_neg (by omega), Int.toNat_natCast, hi]

/-- **`map_load`** takes a reference. -/
theorem safe_mapLoad (id : ℤ) (h : Shelters defs d w g) :
    Safe (Shelters defs d) (walkMapLoad defs id) w g fun r w' g' =>
      Loaded defs id w r w' ∧ g' = g := by
  have hwalk : Safe (Shelters defs d) (walkMapLoad defs id) w g fun _ _ g' => g' = g := by
    refine safe_ite (fun _ => ?_) fun _ => ?_
    · refine safe_step fun _ _ hpure => ?_
      obtain ⟨-, rfl⟩ := pure_eq_ok.mp hpure
      exact ⟨h, rfl⟩
    · refine safe_step_bind fun map _ hneed => ?_
      obtain ⟨hloader, rfl⟩ := need_eq_ok.mp hneed
      refine ⟨h, safe_step_bind fun _ w₁ hlock => ?_⟩
      have h₁ := (quiet_lock _ _ _ _ hlock).shelters h
      refine ⟨h₁, safe_bind <| (safe_ensureTile hloader h₁).imp ?_⟩
      rintro m w₂ g - ⟨h₂, rfl⟩
      refine safe_step_bind fun _ w₃ hrefs => ?_
      obtain ⟨map₂, hm, rfl⟩ := updateMap_eq_ok.mp hrefs
      have h₃ : Shelters defs d (w₂.setMap m { map₂ with refs := map₂.refs + 1 }) g :=
        h₂.setMap hm rfl (Int.le_add_one (Int.le_refl _))
      refine ⟨h₃, safe_step_bind fun _ w₄ hunlock => ?_⟩
      have h₄ := (quiet_unlock _ _ _ _ hunlock).shelters h₃
      refine ⟨h₄, safe_step fun r w₅ hlast => ?_⟩
      simp only [bind_eq_ok, get_eq_ok, pure_eq_ok] at hlast
      obtain ⟨_, _, ⟨rfl, rfl⟩, -, rfl⟩ := hlast
      exact ⟨h₄, rfl⟩
  exact hwalk.imp fun r w' g' hrun hg => ⟨mapLoad_eq_ok hrun, hg⟩

/-! ## `map_unload` -/

theorem Good.freeing (h : Good defs own held d w g) (hplayers : map.players = []) :
    Good defs own held d w (g.freeing map) where
  balanced := h.balanced
  uncached := h.uncached
  clean := by
    intro map' hmem
    rcases List.mem_cons.mp hmem with rfl | hmem
    · exact hplayers
    · exact h.clean map' hmem

theorem Good.clearTile (h : Good defs own held d w g) (hi : i < defs.count)
    (hnone : ∀ k map, w.maps.get k = some map → map.id ≠ i) :
    Good defs own held d { w with tiles := Function.update w.tiles i none } g := by
  refine ⟨?_, h.uncached, h.clean⟩
  rw [ledger_clearTile w hi]
  refine h.balanced.clear fun k box hk => ?_
  obtain ⟨map, hmap, rfl⟩ := Option.map_eq_some_iff.mp hk
  exact hnone k map hmap

section Free

variable {free : ℕ → Exec World Unit} (walkFree : ∀ p, Walk Notes (free p))

/-- **`map_free`** is called for a map that nobody is on. -/
theorem safe_mapFree (h : Good defs own held d w g) (hm : w.maps.get m = some map)
    (hrefs : map.refs ≤ 0) :
    Safe (Shelters defs d) (walkMapFree walkFree m) w g fun _ w' g' =>
      w' = { w with maps := w.maps.free m } ∧ Good defs own held d w' g' ∧
        g'.active = g.active := by
  refine safe_step_bind fun map' _ hderef => ?_
  obtain ⟨hm', rfl⟩ := derefMap_eq_ok.mp hderef
  obtain rfl := Option.some.inj (hm.symm.trans hm')
  have hbox : (ledger defs w).boxes.get m = some (mapBox map) := box_of_get hm
  have hplayers : map.players = [] :=
    h.balanced.items_eq_nil hbox (hrefs.trans (Int.natCast_nonneg _))
  have hnoted := h.freeing hplayers
  refine ⟨h.shelters, safe_note hnoted.shelters <| safe_bind ?_⟩
  have hloop : Safe (Shelters defs d) (Walk.forEach walkFree map.players) w (g.freeing map)
      fun _ w' g' => w' = w ∧ g' = g.freeing map := by
    refine safe_forEach (fun q hq => ?_) (fun _ _ ⟨hw, hg⟩ => ?_) ⟨rfl, rfl⟩
    · rw [hplayers] at hq
      exact absurd hq List.not_mem_nil
    · rw [hw, hg]
      exact hnoted.shelters
  refine hloop.imp ?_
  rintro _ w _ - ⟨rfl, rfl⟩
  refine safe_step fun _ w' hfree => ?_
  obtain rfl := modify_eq_ok.mp hfree
  have hgood : Good defs own held d { w with maps := w.maps.free m } (g.freeing map) := by
    refine ⟨?_, h.uncached, hnoted.clean⟩
    rw [ledger_freeMap]
    exact h.balanced.discard hbox hrefs
  exact ⟨hgood.shelters, rfl, hgood, rfl⟩

/-- A reference to the map of a tile is given back. -/
theorem safe_unrefTile (h : Good defs own (m :: held) d w g) (hi : i < defs.count)
    (hm : w.maps.get m = some map) (hid : map.id = i) :
    Safe (Shelters defs d) (walkUnrefTile walkFree i m) w g fun _ w' g' =>
      Good defs own held d w' g' ∧ g'.active = g.active := by
  refine safe_step_bind fun map' _ hderef => ?_
  obtain ⟨hm', rfl⟩ := derefMap_eq_ok.mp hderef
  obtain rfl := Option.some.inj (hm.symm.trans hm')
  refine ⟨h.shelters, safe_step_bind fun _ w₁ hset => ?_⟩
  obtain rfl := modify_eq_ok.mp hset
  have h₁ : Good defs own held d (w.setMap m { map with refs := map.refs - 1 }) g := by
    refine ⟨?_, h.uncached, h.clean⟩
    rw [ledger_setMap]
    exact h.balanced.release (box_of_get hm)
  have hm₁ := Heap.get_set_self { map with refs := map.refs - 1 } hm
  refine ⟨h₁.shelters, safe_ite (fun hzero => ?_) fun _ => ?_⟩
  · refine safe_bind <| (safe_mapFree walkFree h₁ hm₁ (le_of_eq hzero)).imp ?_
    rintro _ _ g₂ - ⟨rfl, h₂, hactive⟩
    refine safe_step fun _ w₃ hclear => ?_
    obtain rfl := modify_eq_ok.mp hclear
    have h₃ := h₂.clearTile hi ?_
    · exact ⟨h₃.shelters, h₃, hactive⟩
    · -- The tile led to the map that is freed.
      intro k map' hk hid'
      have hkm : k ≠ m := by
        rintro rfl
        exact absurd ((Heap.get_free_self _ k).symm.trans hk).symm (Option.some_ne_none _)
      obtain ⟨j, hj, -, htile⟩ := h₂.tile_eq hk
      obtain ⟨j', hj', -, htile'⟩ := h.tile_eq hm
      obtain rfl : j = j' := by omega
      exact hkm (Option.some.inj (htile.symm.trans htile'))
  · refine safe_step fun _ w₂ hpure => ?_
    obtain ⟨-, rfl⟩ := pure_eq_ok.mp hpure
    exact ⟨h₁.shelters, h₁, rfl⟩

/-- **`map_unload`** of a map that a reference is held to. -/
theorem safe_mapUnloadWith (h : Good defs own (m :: held) d w g)
    (hm : w.maps.get m = some map) :
    Safe (Shelters defs d) (walkMapUnloadWith defs walkFree map.id) w g fun _ w' g' =>
      Good defs own held d w' g' ∧ g'.active = g.active := by
  obtain ⟨i, hid, hle, htile⟩ := h.tile_eq hm
  refine safe_ite (fun hbad => by omega) fun _ => ?_
  refine safe_step_bind fun _ _ hneed => ?_
  obtain ⟨hloader, rfl⟩ := need_eq_ok.mp hneed
  refine ⟨h.shelters, safe_step_bind fun _ _ hget => ?_⟩
  obtain ⟨rfl, rfl⟩ := get_eq_ok.mp hget
  have hi : map.id.toNat < defs.count := (List.getElem?_eq_some_iff.mp hloader).1
  refine ⟨h.shelters, ?_⟩
  cases htile' : w.tiles map.id.toNat with
  | none =>
    rw [hid, Int.toNat_natCast, htile] at htile'
    exact absurd htile' (Option.some_ne_none m)
  | some k =>
    obtain rfl : k = m := by
      rw [hid, Int.toNat_natCast, htile] at htile'
      exact (Option.some.inj htile').symm
    refine safe_step_bind fun _ w₁ hlock => ?_
    have h₁ := (quiet_lock _ _ _ _ hlock).good h
    obtain ⟨-, rfl⟩ := lock_eq_ok.mp hlock
    refine ⟨h₁.shelters, safe_bind <| (safe_unrefTile walkFree h₁ hi hm (by omega)).imp ?_⟩
    rintro _ w₂ g₂ - ⟨h₂, hactive⟩
    refine safe_step fun _ w₃ hunlock => ?_
    have h₃ := (quiet_unlock _ _ _ _ hunlock).good h₂
    exact ⟨h₃.shelters, h₃, hactive⟩

/-! ## `player_free` -/

/-- The player that is freed gives up the reference to its map. -/
theorem safe_unloadPlayerMap {item : Item} (hp : (ledger defs w).items.get p = some item)
    (h : Good defs own (item.box.toList ++ held) d w g) :
    Safe (Shelters defs d) (walkUnloadPlayerMap defs walkFree p) w g fun _ w' g' =>
      Good defs own held d w' g' ∧ g'.active = g.active := by
  refine safe_step_bind fun player _ hderef => ?_
  obtain ⟨hplayer, rfl⟩ := derefPlayer_eq_ok.mp hderef
  obtain rfl := Option.some.inj (hp.symm.trans (item_of_get hplayer))
  refine ⟨h.shelters, ?_⟩
  rw [show (playerItem player).box = player.map from rfl] at h
  cases hmap : player.map with
  | none =>
    rw [hmap] at h
    refine safe_step fun _ _ hpure => ?_
    obtain ⟨-, rfl⟩ := pure_eq_ok.mp hpure
    exact ⟨h.shelters, h, rfl⟩
  | some m =>
    rw [hmap] at h
    refine safe_step_bind fun map _ hderef' => ?_
    obtain ⟨hm, rfl⟩ := derefMap_eq_ok.mp hderef'
    exact ⟨h.shelters, safe_mapUnloadWith walkFree h hm⟩

/-- The cache is empty, so there is nothing to take out of it. -/
theorem safe_uncachePlayer (h : Good defs own held d w g) :
    Safe (Shelters defs d) (walkUncachePlayer walkFree p) w g fun _ w' g' =>
      Good defs own held d w' g' ∧ g'.active = g.active := by
  refine safe_step_bind fun player _ hderef => ?_
  obtain ⟨-, rfl⟩ := derefPlayer_eq_ok.mp hderef
  refine ⟨h.shelters, ?_⟩
  cases player.id with
  | none =>
    refine safe_step fun _ _ hpure => ?_
    obtain ⟨-, rfl⟩ := pure_eq_ok.mp hpure
    exact ⟨h.shelters, h, rfl⟩
  | some id =>
    refine safe_step_bind fun _ _ hget => ?_
    obtain ⟨rfl, rfl⟩ := get_eq_ok.mp hget
    refine ⟨h.shelters, ?_⟩
    cases hlookup : w.cache.lookup id with
    | none =>
      refine safe_step fun _ _ hpure => ?_
      obtain ⟨-, rfl⟩ := pure_eq_ok.mp hpure
      exact ⟨h.shelters, h, rfl⟩
    | some q =>
      rw [h.uncached, List.lookup_nil] at hlookup
      exact absurd hlookup.symm (Option.some_ne_none q)

/-- `player_free` on the last reference. -/
theorem safe_releasePlayer (hp : w.players.get p = some player) (hown : own p = 0)
    (h : Good defs own (player.map.toList ++ held) (some p) w g) :
    Safe (Shelters defs (some p)) (walkReleasePlayer defs walkFree p) w g fun _ w' g' =>
      Good defs own held none w' g' ∧ g'.active = g.active := by
  refine safe_step_bind fun _ w₁ hwrite => ?_
  have hsame : SameLedger defs w w₁ := quiet_writeModified p _ _ _ hwrite
  have h₁ := hsame.good h
  have hp₁ : (ledger defs w₁).items.get p = some (playerItem player) :=
    hsame.1 ▸ item_of_get hp
  refine ⟨h₁.shelters, safe_bind <| (safe_unloadPlayerMap walkFree hp₁ h₁).imp ?_⟩
  rintro _ w₂ g₂ - ⟨h₂, hactive₂⟩
  refine safe_bind <| (safe_uncachePlayer walkFree h₂).imp ?_
  rintro _ w₃ g₃ - ⟨h₃, hactive₃⟩
  refine safe_step_bind fun _ w₄ hcache => ?_
  have h₄ := (quiet_unlock _ _ _ _ hcache).good h₃
  refine ⟨h₄.shelters, safe_step fun _ w₅ hdestroy => ?_⟩
  obtain rfl := modify_eq_ok.mp hdestroy
  have h₅ : Good defs own held none
      { w₄ with locks := w₄.locks.erase (.player p), players := w₄.players.free p } g₃ := by
    refine ⟨?_, h₄.uncached, h₄.clean⟩
    rw [ledger_destroyPlayer]
    exact h₄.balanced.bury hown
  exact ⟨h₅.shelters.retire p, h₅, hactive₃.trans hactive₂⟩

/-- A player whose reference count follows the number of its owners. -/
theorem Good.recountPlayer (h : Good defs own held d w g) (hp : w.players.get p = some player)
    {r : ℤ} {n : ℕ} (hr : r + own p = player.refs + n) :
    Good defs (Function.update own p n) held d (w.setPlayer p { player with refs := r }) g := by
  refine ⟨?_, h.uncached, h.clean⟩
  have hcounted := h.balanced.counted p _ (item_of_get hp)
  have hrefs : (playerItem player).refs = player.refs := rfl
  rw [ledger_setPlayer]
  refine h.balanced.recount (item_of_get hp) rfl ?_ fun q hq => Function.update_of_ne hq _ _
  rw [Function.update_self]
  show r = _
  omega

/-- A player with one reference less. -/
theorem Good.unrefPlayer (h : Good defs own held d w g) (hp : w.players.get p = some player)
    (hown : 0 < own p) :
    Good defs (Function.update own p (own p - 1)) held d
      (w.setPlayer p { player with refs := player.refs - 1 }) g :=
  h.recountPlayer hp (by omega)

/-- `player_free`, when it is known whether the reference is the last. -/
theorem safe_playerFreeWith {held' : List ℕ} (h : Good defs own held' d w g)
    (hp : w.players.get p = some player) (hown : 0 < own p)
    (hmore : 1 < player.refs → d = none ∧ held' = held)
    (hlast : player.refs ≤ 1 → d = some p ∧ held' = player.map.toList ++ held) :
    Safe (Shelters defs d) (walkPlayerFreeWith defs walkFree p) w g fun _ w' g' =>
      Good defs (Function.update own p (own p - 1)) held none w' g' ∧ g'.active = g.active := by
  refine safe_step_bind fun _ w₁ hlock₁ => ?_
  have h₁ := (quiet_lock _ _ _ _ hlock₁).good h
  obtain ⟨-, rfl⟩ := lock_eq_ok.mp hlock₁
  refine ⟨h₁.shelters, safe_step_bind fun _ w₂ hlock₂ => ?_⟩
  have h₂ := (quiet_lock _ _ _ _ hlock₂).good h₁
  obtain ⟨-, rfl⟩ := lock_eq_ok.mp hlock₂
  refine ⟨h₂.shelters, safe_step_bind fun _ w₃ hupdate => ?_⟩
  obtain ⟨player', hp', rfl⟩ := updatePlayer_eq_ok.mp hupdate
  obtain rfl := Option.some.inj (hp.symm.trans hp')
  have h₃ := h₂.unrefPlayer hp' hown
  refine ⟨h₃.shelters, safe_step_bind fun player₄ _ hderef => ?_⟩
  obtain ⟨hp₄, rfl⟩ := derefPlayer_eq_ok.mp hderef
  obtain rfl := Option.some.inj ((Heap.get_set_self _ hp').symm.trans hp₄)
  refine ⟨h₃.shelters, safe_ite (fun hpos => ?_) fun hzero => ?_⟩
  · obtain ⟨rfl, rfl⟩ := hmore (by dsimp only at hpos; omega)
    refine safe_step_bind fun _ w₅ hunlock₅ => ?_
    have h₅ := (quiet_unlock _ _ _ _ hunlock₅).good h₃
    refine ⟨h₅.shelters, safe_step fun _ w₆ hunlock₆ => ?_⟩
    have h₆ := (quiet_unlock _ _ _ _ hunlock₆).good h₅
    exact ⟨h₆.shelters, h₆, rfl⟩
  · have hle : player.refs ≤ 1 := by
      dsimp only at hzero
      omega
    obtain ⟨rfl, rfl⟩ := hlast hle
    refine safe_releasePlayer walkFree hp₄ ?_ h₃
    have hcounted := h.balanced.counted p _ (item_of_get hp)
    have hrefs : (playerItem player).refs = player.refs := rfl
    rw [Function.update_self]
    omega

/-- **`player_free`** with a reference that somebody owns.  The condition `I` is for the
states it passes: with the last reference, the player does not count any more. -/
theorem safe_playerFree {I : World → Notes → Prop} (h : Good defs own held none w g)
    (hp : w.players.get p = some player) (hown : 0 < own p)
    (hmore : 1 < player.refs → ∀ t g', Shelters defs none t g' → I t g')
    (hlast : player.refs ≤ 1 → ∀ t g', Shelters defs (some p) t g' → I t g') :
    Safe I (walkPlayerFree defs p) w g fun _ w' g' =>
      Good defs (Function.update own p (own p - 1)) held none w' g' ∧ g'.active = g.active := by
  by_cases hrefs : 1 < player.refs
  · refine Safe.mono ?_ (hmore hrefs)
    exact safe_playerFreeWith _ h hp hown (fun _ => ⟨rfl, rfl⟩) fun hle => by omega
  · have hle : player.refs ≤ 1 := by omega
    refine Safe.mono ?_ (hlast hle)
    have hitem : (ledger defs w).items.get p = some (playerItem player) := item_of_get hp
    have hcounted := h.balanced.counted p _ hitem
    have hplayer : (playerItem player).refs = player.refs := rfl
    have hunlisted : (ledger defs w).Unlisted p := unlisted_of_listings (by omega)
    have hretired : Good defs own (player.map.toList ++ held) (some p) w g := by
      refine ⟨?_, h.uncached, h.clean⟩
      rw [List.append_assoc]
      exact h.balanced.retire hitem hunlisted
    exact safe_playerFreeWith _ hretired hp hown (fun hlt => by omega) fun _ => ⟨rfl, rfl⟩

end Free

end World
end MmoBackend
