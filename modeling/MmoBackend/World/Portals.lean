import MmoBackend.World.SessionGate

/-!
# Whether changes of the map come to an end

`player_move` runs the events of the cell it moves to, an event can spawn the player on
another map, and a spawn is a move.  Nothing in this circle counts its rounds.  What is meant
to break it is the fourth argument of an event that changes the map: if it is not zero, the
spawn does not run the events of the cell it leads to.  But `map_event_change_map` reads the
third argument in its place, which is the row of that cell, and of the row only the last bit
gets into the field `suppress_events`.

So the circle is broken when the row is odd, or when the destination has no events to run.
`map_changes_terminate` says that this is exactly when all is as the fourth argument means it
to be.  The two portals of the repository lead to row 5.

`loopDefs` has two portals that lead onto each other, in the row 4.  There a step onto a
portal never comes to an end.
-/

namespace MmoBackend

open Authentication Communication Db Exec Maps Player

namespace World

open Scene

variable {defs : MapDefs} {w w' v : World} {s₀ : Scene} {p sid i n : ℕ} {k : CString}
  {base old : Map} {x y : ℤ} {j : Journey} {r : ℤ}

/-! ## The states and the maps -/

/-- What the calls for the player `p` use is there, and everybody who is listed can be
written to. -/
def InOrder (defs : MapDefs) (p : ℕ) (w : World) : Prop :=
  w.scene.Peopled p ∧ ∃ k sid, Sturdy defs w.scene p k sid w

/-- The states the server comes to are in order for the players that roam. -/
theorem inOrder_run {playerdata : List Document} {l : List (Request × World)}
    (hdefs : defs.WellShaped) (h : Trace (Step defs) (boot playerdata) l w)
    (hroams : w.scene.RoamsWith sid p) : InOrder defs p w := by
  obtain ⟨hlocks, hshapely⟩ := shapely_run hdefs h
  obtain ⟨hpeople, k, hsturdy⟩ := (member_run h).sturdy hlocks hshapely hroams
  exact ⟨hpeople, k, sid, hsturdy⟩

/-- Every event that changes the map has a fourth argument that is not zero. -/
def Suppressing (defs : MapDefs) : Prop :=
  ∀ base ∈ defs.loaders, ∀ e ∈ base.events, e.func = .changeMap → ∃ id x y suppress : ℤ,
    e.staticArgs[0]? = some id ∧ e.staticArgs[1]? = some x ∧ e.staticArgs[2]? = some y ∧
      e.staticArgs[3]? = some suppress ∧ suppress ≠ 0

/-- The flag has its last bit set, or the destination is no cell with events. -/
def Dormant (defs : MapDefs) (id x y flag : ℤ) : Prop :=
  id ≠ defs.count ∧ (flag % 2 = 1 ∨ ∀ (i : ℕ) (base : Map), id = i → defs.loaders[i]? = some base →
    mapCheckBounds base x y = true → ∀ e ∈ base.events, ¬(e.x = x ∧ e.y = y))

/-- A `map_event_activate` that stops when there is an event to activate. -/
def stopAtEvent (x y : ℤ) (m _p : ℕ) : Exec World Unit := do
  let map ← derefMap m
  if ∃ e ∈ map.events, e.x = x ∧ e.y = y then Exec.stop .fault else pure ()

/-- Moves and spawns return, and the spawns of events activate no events: they return with
an activation that stops at the first event as well. -/
structure ChangesTerminate (defs : MapDefs) : Prop where
  moves : ∀ p w, InOrder defs p w → ∀ x y (args : MoveArgs),
    (∀ m, args.map = some m → ∃ map, w.maps.get m = some map) →
      ∃ fuel r w', playerMove defs fuel p x y args w = .ok (r, w')
  spawns : ∀ p w, InOrder defs p w → ∀ id x y suppress : ℤ, id ≠ defs.count →
    ∃ fuel r w', mapSpawnPlayer defs fuel id p x y suppress w = .ok (r, w')
  quiet : ∀ p w, InOrder defs p w → ∀ base ∈ defs.loaders, ∀ e ∈ base.events,
    e.func = .changeMap → ∃ w', mapEventChangeMap
      (mapSpawnPlayerWith defs (playerMoveWith defs stopAtEvent)) p e w = .ok ((), w')

/-! ## Dormant destinations -/

section Dormant

variable {E : Stop → Prop}

theorem stopAtEvent_eq_ok {m : ℕ} {u : Unit} (h : stopAtEvent x y m p w = .ok (u, w')) :
    w' = w ∧ ∃ map, w.maps.get m = some map ∧ ¬∃ e ∈ map.events, e.x = x ∧ e.y = y := by
  simp only [stopAtEvent, bind_eq_ok, derefMap_eq_ok, ite_eq_ok, stop_eq_ok, pure_eq_ok] at h
  obtain ⟨map, _, ⟨hm, rfl⟩, ⟨-, h⟩ | ⟨hno, -, rfl⟩⟩ := h
  · exact h.elim
  · exact ⟨rfl, map, hm, hno⟩

theorem within_stopAtEvent (x y : ℤ) (m p : ℕ) : Within (Writes defs) (stopAtEvent x y m p) :=
  within_of_state_eq fun _ _ _ h => (stopAtEvent_eq_ok h).1.symm

/-- Where a dormant spawn runs events, there are none. -/
theorem Dormant.no_events {m : ℕ} {map : Map} {id flag : ℤ} (hD : Dormant defs id x y flag)
    (hflag : flag % 2 ≠ 1) (hw : Sound defs w) (hi : id = (i : ℕ)) (htile : w.tiles i = some m)
    (hm : w.maps.get m = some map) (hin : mapCheckBounds map x y = true) :
    ∀ e ∈ map.events, ¬(e.x = x ∧ e.y = y) := by
  obtain ⟨map', base, hm', hbase, hframe, -⟩ := hw.tile i m htile
  obtain rfl := Option.some.inj (hm.symm.trans hm')
  rw [events_of_frame hframe]
  exact hD.2.resolve_left hflag i base hi hbase (mapCheckBounds_of_frame hframe x y ▸ hin)

variable (hdefs : defs.WellShaped) (hpeople : s₀.Peopled p)

include hdefs hpeople

/-- **A dormant spawn** has no reason to stop, even if no spawn is allowed inside it. -/
theorem spawnsStop_dormant (fuel : ℕ) :
    SpawnsStop E (Dormant defs) defs s₀ p k sid (mapSpawnPlayer defs (fuel + 1)) := by
  intro id x y flag w hD h
  refine ⟨stopsBy_mapSpawnPlayer hdefs hpeople h hD.1 ?_, fun r w' => h.spawn hdefs⟩
  intro hflag i m map v hi hv htile hm hin
  have hno := hD.no_events hflag hv.sound hi htile hm hin
  exact hv.mapEventActivate hdefs hm fun e he hx hy _ _ _ => absurd ⟨hx, hy⟩ (hno e he)

/-- A dormant spawn activates no events. -/
theorem stopsBy_dormant {id flag : ℤ} (hD : Dormant defs id x y flag)
    (h : Sturdy defs s₀ p k sid w) :
    StopsBy E (mapSpawnPlayerWith defs (playerMoveWith defs stopAtEvent) id p x y flag) w := by
  refine stopsBy_mapSpawnPlayerWith hdefs hpeople h hD.1 fun i n v hi hv htile => ?_
  have hargs := hv.tile htile
  refine ⟨hv.stopsBy_playerMoveWith hdefs hpeople hargs ?_, fun r v' hmove => ?_⟩
  · intro hs m map v' hm hkept hv' hmap hin
    obtain rfl := hm n rfl
    have hno := hD.no_events (by simpa using hs) hv'.sound hi (hkept.tiles i m htile) hmap hin
    refine ⟨stopsBy_bind_ok (derefMap_eq_ok.mpr ⟨hmap, rfl⟩) ?_, fun v'' hstop => ?_⟩
    · exact stopsBy_ite (fun ⟨e, he, hcell⟩ => absurd hcell (hno e he)) fun _ => stopsBy_pure ()
    · exact (stopAtEvent_eq_ok hstop).1 ▸ hv'
  · have htriggers : ∀ u u', Sound defs u → Afoot s₀ p k sid u →
        triggerEvents stopAtEvent p x y (decide (flag % 2 = 1)) u = .ok ((), u') →
        Kept defs u u' ∧ Afoot s₀ p k sid u' := by
      intro u u' _ hu htrigger
      rcases triggerEvents_eq_ok htrigger with ⟨-, rfl⟩ | ⟨-, _, _, -, -, hstop⟩
      · exact ⟨Kept.refl _, hu⟩
      · obtain ⟨rfl, -⟩ := stopAtEvent_eq_ok hstop
        exact ⟨Kept.refl _, hu⟩
    obtain ⟨hkept, hafoot⟩ := (carried_afoot hdefs).playerMoveWith htriggers hv.sound
      (fun u hu => hv.toAfoot.shift hdefs hv.sound hargs hu) hmove
    exact ⟨hkept, hv.next hkept hafoot
      (within_playerMoveWith within_stopAtEvent _ _ _ _ _ _ _ hmove).locks_eq⟩

end Dormant

/-! ## Destinations with events -/

/-- **A spawn that is not suppressed activates the events** of its cell, if it is on the map
and the player comes from a cell of a map. -/
theorem Travelled.activates {activate : ℤ → ℤ → ℕ → ℕ → Exec World Unit} {flag : ℤ}
    (hw : Sound defs w) (h : Travelled defs w s₀ p k sid j v) (hbase : defs.loaders[i]? = some base)
    (hold : defs.loaders[j.place.map]? = some old) (hin : mapCheckBounds base x y = true)
    (hon : mapCheckBounds old j.place.x j.place.y = true) (hflag : flag % 2 ≠ 1)
    (hspawn : mapSpawnPlayerWith defs (playerMoveWith defs activate) i p x y flag v = .ok (r, w')) :
    ∃ n map u u', u.maps.get n = some map ∧ map.events = base.events ∧
      activate x y n p u = .ok ((), u') := by
  have hi := (List.getElem?_eq_some_iff.mp hbase).1
  rcases h.sent hw hspawn with ⟨-, hbad⟩ |
    ⟨i', n, base', v₂, moved, v₃, hi', -, hbase', htile, -, h₂, hmove, -⟩
  · exact absurd hbad (by rw [MapDefs.count]; omega)
  obtain rfl : i = i' := by omega
  obtain rfl := Option.some.inj (hbase.symm.trans hbase')
  rw [show decide (flag % 2 = 1) = false by simpa using hflag] at hmove
  obtain ⟨v₄, hkept, h₄, hr, ⟨rfl, -⟩ | ⟨-, mover, hp, hrest⟩⟩ :=
    h₂.arrives hw htile hbase hold hmove
  · exact absurd hr (by simp [hin, hon])
  obtain ⟨v₅, htrigger, -⟩ := moveTo_eq_ok hp hrest
  rcases triggerEvents_eq_ok htrigger with ⟨hs, -⟩ | ⟨-, player, m, hp', hm, hactivate⟩
  · exact absurd hs Bool.false_ne_true
  -- the map the player is on is the one that was loaded
  obtain ⟨player', m', hp'', hm', htile', -⟩ := (h₄.place hp).placed
  obtain rfl := Option.some.inj (hp'.symm.trans hp'')
  obtain rfl := Option.some.inj (hm.symm.trans hm')
  obtain ⟨map, base', hmap, hbase', hframe, -⟩ :=
    ((h₄.place hp).kept.sound hw).tile i m htile'
  obtain rfl := Option.some.inj (hbase.symm.trans hbase')
  exact ⟨m, map, _, v₅, hmap, events_of_frame hframe, hactivate⟩

/-- The map with the id `i` is in memory, and a player stands on it. -/
def standing (base : Map) (i : ℕ) (x y : ℤ) : World :=
  { boot [] with
    maps := Heap.empty.alloc { base with refs := 1, players := [0] }
    tiles := fun i' => if i' = i then some 0 else none
    players := Heap.empty.alloc ⟨x, y, 0, 1, 2, some 0, some 0, some [], some []⟩
    sessions := Heap.empty.alloc ⟨0, .roaming, some 0⟩ }

theorem sturdy_standing (hdefs : defs.WellShaped) (hbase : defs.loaders[i]? = some base) (x y : ℤ) :
    Sturdy defs (standing base i x y).scene 0 [] 0 (standing base i x y) := by
  have hmap : ∀ m map, (standing base i x y).maps.get m = some map →
      m = 0 ∧ map = { base with refs := 1, players := [0] } := by
    intro m map hm
    rcases Heap.get_alloc_eq_some hm with ⟨rfl, rfl⟩ | ⟨-, hm⟩
    · exact ⟨rfl, rfl⟩
    · exact absurd hm.symm (Option.some_ne_none map)
  have htile : (standing base i x y).tiles i = some 0 := if_pos rfl
  have hshaped : Maps.WellShaped { base with refs := 1, players := [0] } :=
    ⟨(hdefs base (List.mem_of_getElem? hbase)).width_mod,
      (hdefs base (List.mem_of_getElem? hbase)).shaped⟩
  refine ⟨⟨⟨MovesOnly.refl 0 _, ⟨_, 0, 1, ⟨rfl, rfl, rfl, le_refl 1, rfl, ?_⟩, by decide, rfl, rfl⟩,
    _, rfl⟩, fun m map hm => ?_, _, 0, _, rfl, rfl, rfl⟩, ⟨fun i' m hi' => ?_, fun m map hm => ?_,
      rfl⟩, rfl⟩
  · intro m hm hmem
    obtain ⟨map, hget, -⟩ := mem_roster.mp hmem
    exact hm (hmap m map hget).1
  · rw [(hmap m map hm).2]
    exact hshaped
  · have hi : i' = i := by
      by_contra hne
      have hnone : (standing base i x y).tiles i' = none := if_neg hne
      exact absurd (hi'.symm.trans hnone) (Option.some_ne_none m)
    subst hi
    obtain rfl := Option.some.inj (htile.symm.trans hi')
    exact ⟨_, base, rfl, hbase, rfl, le_refl 1⟩
  · obtain ⟨rfl, rfl⟩ := hmap m map hm
    exact ⟨i, (defs.fresh i base hbase).1, htile⟩

theorem inOrder_standing (hdefs : defs.WellShaped) (hbase : defs.loaders[i]? = some base)
    (x y : ℤ) : InOrder defs 0 (standing base i x y) := by
  refine ⟨fun m q hq hne => ?_, [], 0, sturdy_standing hdefs hbase x y⟩
  obtain ⟨map, hm, hmem⟩ := mem_roster.mp hq
  rcases Heap.get_alloc_eq_some hm with ⟨-, rfl⟩ | ⟨-, hm⟩
  · exact absurd (List.mem_singleton.mp hmem) hne
  · exact absurd hm.symm (Option.some_ne_none map)

theorem travelled_standing (hdefs : defs.WellShaped) (hbase : defs.loaders[i]? = some base)
    (x y : ℤ) : Travelled defs (standing base i x y) (standing base i x y).scene 0 [] 0
      ⟨⟨i, x, y⟩, []⟩ (standing base i x y) :=
  ⟨Kept.refl _, (sturdy_standing hdefs hbase x y).way,
    ⟨_, 0, rfl, rfl, if_pos rfl, rfl, rfl⟩, fun i' => by simp⟩

/-! ## When changes of the map terminate -/

/-- **Changes of the map terminate** when every portal is dormant, and only then.  A portal
that is not dormant runs the events it leads to. -/
theorem map_changes_terminate (hdefs : defs.WellShaped) (hsuppressing : Suppressing defs) :
    ChangesTerminate defs ↔ Portals defs (Dormant defs) := by
  constructor
  · intro h base hbase e he hfunc
    obtain ⟨id, x, y, -, hid, hx, hy, -⟩ := hsuppressing base hbase e he hfunc
    have hreturns : ∀ p w, InOrder defs p w → ∃ r w', mapSpawnPlayerWith defs
        (playerMoveWith defs stopAtEvent) id p x y y w = .ok (r, w') := by
      intro p w hw
      obtain ⟨w', hchange⟩ := h.quiet p w hw base hbase e he hfunc
      obtain ⟨r, hspawn⟩ := mapEventChangeMap_eq_ok hid hx hy hchange
      exact ⟨r, w', hspawn⟩
    refine ⟨id, x, y, hid, hx, hy, ?_, ?_⟩
    · -- the id of no map, for a player on any map
      rintro rfl
      obtain ⟨i, hi⟩ := List.getElem?_of_mem hbase
      obtain ⟨r, w', hspawn⟩ := hreturns 0 _ (inOrder_standing hdefs hi 0 0)
      have hstart := travelled_standing hdefs hi 0 0
      rcases hstart.sent (sturdy_standing hdefs hi 0 0).sound hspawn with ⟨-, hbad⟩ |
        ⟨i', _, _, _, _, _, hi', hlt, -⟩
      · omega
      · omega
    · -- a player on the cell the portal leads to
      rw [or_iff_not_imp_left]
      rintro hflag i base' rfl hbase' hin e' he' hcell
      obtain ⟨r, w', hspawn⟩ := hreturns 0 _ (inOrder_standing hdefs hbase' x y)
      obtain ⟨n, map, u, u', hm, hevents, hstop⟩ :=
        (travelled_standing hdefs hbase' x y).activates (sturdy_standing hdefs hbase' x y).sound
          hbase' hbase' hin hin hflag hspawn
      obtain ⟨-, map', hm', hno⟩ := stopAtEvent_eq_ok hstop
      obtain rfl := Option.some.inj (hm.symm.trans hm')
      exact hno ⟨e', hevents ▸ he', hcell⟩
  · intro hportals
    refine ⟨fun p w hw x y args hargs => ?_, fun p w hw id x y flag hid => ?_,
      fun p w hw base hbase e he hfunc => ?_⟩
    · obtain ⟨hpeople, k, sid, h⟩ := hw
      have hspawns : SpawnsStop (fun _ => False) (Dormant defs) defs w.scene p k sid
          (mapSpawnPlayer defs 1) := spawnsStop_dormant hdefs hpeople 0
      exact ⟨1, (h.stopsBy_playerMoveWith hdefs hpeople hargs fun _ _ _ _ _ _ hv hm _ =>
        hv.mapEventActivate_portals hdefs hportals hspawns hm).exists_ok⟩
    · obtain ⟨hpeople, k, sid, h⟩ := hw
      have hspawns : SpawnsStop (fun _ => False) (Dormant defs) defs w.scene p k sid
          (mapSpawnPlayer defs 1) := spawnsStop_dormant hdefs hpeople 0
      exact ⟨2, (stopsBy_mapSpawnPlayer hdefs hpeople h hid fun _ _ _ _ _ _ hv _ hm _ =>
        hv.mapEventActivate_portals hdefs hportals hspawns hm).exists_ok⟩
    · obtain ⟨hpeople, k, sid, h⟩ := hw
      obtain ⟨id, x, y, hid, hx, hy, hD⟩ := hportals base hbase e he hfunc
      obtain ⟨⟨⟩, w', hchange⟩ := (stopsBy_mapEventChangeMap hid hx hy
        (stopsBy_dormant hdefs hpeople hD h)).exists_ok
      exact ⟨w', hchange⟩

/-- In the repository all changes of the map terminate. -/
theorem map_changes_terminate_mapLoaders : ChangesTerminate mapLoaders := by
  refine (map_changes_terminate wellShaped_mapLoaders fun base hbase e he hfunc => ?_).mpr
    fun base hbase e he hfunc => ?_
  · rcases staticArgs_mapLoaders base hbase e he hfunc with hargs | hargs
    · rw [hargs]
      exact ⟨1, 0, 5, 1, rfl, rfl, rfl, rfl, by decide⟩
    · rw [hargs]
      exact ⟨0, 31, 5, 1, rfl, rfl, rfl, rfl, by decide⟩
  · rcases staticArgs_mapLoaders base hbase e he hfunc with hargs | hargs
    · rw [hargs]
      exact ⟨1, 0, 5, rfl, rfl, rfl, by decide, Or.inl (by decide)⟩
    · rw [hargs]
      exact ⟨0, 31, 5, rfl, rfl, rfl, by decide, Or.inl (by decide)⟩

/-! ## Two portals that lead onto each other -/

/-- A map with a portal in the row 4, which leads to the portal of the map `id`. -/
def loopMap (i id : ℤ) : Map :=
  mapAddEvent (clearCollision (mapCreate i 8 8)) (mapEventCreate 5 4 [id, 5, 4, 1] .changeMap)

def loopDefs : MapDefs where
  loaders := [loopMap 0 1, loopMap 1 0]
  fresh i map h := by
    rcases i with - | - | i
    · rw [← Option.some.inj h]
      exact ⟨rfl, rfl, rfl⟩
    · rw [← Option.some.inj h]
      exact ⟨rfl, rfl, rfl⟩
    · exact absurd h.symm (Option.some_ne_none _)

theorem wellShaped_loopDefs : loopDefs.WellShaped := by
  intro map hmap
  rcases List.mem_cons.mp hmap with rfl | hmap
  · exact ⟨rfl, rfl, by decide⟩
  · rw [List.mem_singleton.mp hmap]
    exact ⟨rfl, rfl, by decide⟩

/-- No number of rounds is enough for the journey. -/
theorem spawnJourney_loopDefs (fuel : ℕ) (visited : List ℕ) :
    spawnJourney loopDefs fuel ⟨⟨0, 5, 4⟩, visited⟩ 1 5 4 4 = none ∧
      spawnJourney loopDefs fuel ⟨⟨1, 5, 4⟩, visited⟩ 0 5 4 4 = none := by
  induction fuel generalizing visited with
  | zero => exact ⟨rfl, rfl⟩
  | succ fuel ih =>
    have hthere : spawnJourney loopDefs (fuel + 1) ⟨⟨0, 5, 4⟩, visited⟩ 1 5 4 4
        = (spawnJourney loopDefs fuel ⟨⟨1, 5, 4⟩, 1 :: visited⟩ 0 5 4 4).bind some := rfl
    have hback : spawnJourney loopDefs (fuel + 1) ⟨⟨1, 5, 4⟩, visited⟩ 0 5 4 4
        = (spawnJourney loopDefs fuel ⟨⟨0, 5, 4⟩, 0 :: visited⟩ 1 5 4 4).bind some := rfl
    rw [hthere, hback, (ih _).1, (ih _).2]
    exact ⟨rfl, rfl⟩

/-- **A step onto one of the portals never comes to an end**, though both have a fourth
argument that is not zero. -/
theorem map_changes_loop : loopDefs.WellShaped ∧ Suppressing loopDefs ∧
    (∃ w, InOrder loopDefs 0 w ∧
      ∀ fuel r w', playerMove loopDefs fuel 0 5 4 MoveArgs.zero w ≠ .ok (r, w')) ∧
    ¬ChangesTerminate loopDefs := by
  have hmove : ∀ fuel r w', playerMove loopDefs fuel 0 5 4 MoveArgs.zero
      (standing (loopMap 0 1) 0 4 4) ≠ .ok (r, w') := by
    intro fuel r w' hmove
    have hbase : loopDefs.loaders[0]? = some (loopMap 0 1) := rfl
    rcases (travelled_standing wellShaped_loopDefs hbase 4 4).walk
      (sturdy_standing wellShaped_loopDefs hbase 4 4).sound hbase hmove with ⟨hno, -⟩ |
        ⟨-, j', hj', -⟩
    · refine hno ⟨_, 0, _, rfl, rfl, rfl, ?_, ?_, ?_, ?_⟩
      · decide
      · decide
      · decide
      · decide
    · have hloop : eventsJourney (spawnJourney loopDefs fuel) 5 4 (loopMap 0 1) ⟨⟨0, 5, 4⟩, []⟩
          = (spawnJourney loopDefs fuel ⟨⟨0, 5, 4⟩, []⟩ 1 5 4 4).bind some := rfl
      rw [(spawnJourney_loopDefs fuel []).1] at hloop
      exact Option.some_ne_none _ (hj'.symm.trans hloop)
  have horder := inOrder_standing wellShaped_loopDefs
    (rfl : loopDefs.loaders[0]? = some (loopMap 0 1)) 4 4
  refine ⟨wellShaped_loopDefs, ?_, ⟨_, horder, hmove⟩, fun h => ?_⟩
  · have hargs : ∀ base ∈ loopDefs.loaders, ∀ e ∈ base.events, e.func = .changeMap →
        e.staticArgs = [1, 5, 4, 1] ∨ e.staticArgs = [0, 5, 4, 1] := by decide
    intro base hbase e he hfunc
    rcases hargs base hbase e he hfunc with hargs | hargs
    · rw [hargs]
      exact ⟨1, 5, 4, 1, rfl, rfl, rfl, rfl, by decide⟩
    · rw [hargs]
      exact ⟨0, 5, 4, 1, rfl, rfl, rfl, rfl, by decide⟩
  · obtain ⟨fuel, r, w', hreturns⟩ := h.moves 0 _ horder 5 4 MoveArgs.zero
      fun _ hn => absurd hn.symm (Option.some_ne_none _)
    exact hmove fuel r w' hreturns

end World
end MmoBackend
