import MmoBackend.World.Relocation

/-!
# Spawns

A spawn loads the map, sends it, moves the player onto it and sends the positions of
the others.  The move runs the events of the target cell, which the code can suppress.
`mapEventActivate_rule` is the rule for a loop over events: the load in front of it and
the unload behind it cancel out, and what the events that change the map preserve, the
whole loop preserves.

`mapSpawnPlayer_scene` is for spawns that run no such event.
-/

namespace MmoBackend

open Authentication Communication Maps Player

namespace World

variable {defs : MapDefs} {w w' : World} {m p : ℕ} {map : Map} {player : Player} {k : CString}
  {x y : ℤ} {u : Unit}

/-! ## Events -/

/-- No event of a cell changes the map. -/
def NoPortal (map : Map) (x y : ℤ) : Prop :=
  ∀ e ∈ map.events, e.x = x → e.y = y → e.func ≠ .changeMap

/-- The load in front of the loop, the loop, and the unload behind it. -/
theorem mapEventActivate_calls {spawn : ℤ → ℕ → ℤ → ℤ → ℤ → Exec World ℤ} (hw : Sound defs w)
    (hm : w.maps.get m = some map) (h : mapEventActivate defs spawn x y m p w = .ok (u, w')) :
    ∃ i w₁ w₂, w.tiles i = some m ∧ Loads defs w i m map w₁ ∧
      Exec.forEach map.events (activateEvent spawn x y m p) w₁ = .ok ((), w₂) ∧
      mapEventArgsFree defs (some m) w₂ = .ok (u, w') := by
  simp only [mapEventActivate, Exec.bind_eq_ok, derefMap_eq_ok] at h
  obtain ⟨map', _, ⟨hm', rfl⟩, loaded, w₁, hload, ⟨⟩, w₂, hloop, hfree⟩ := h
  obtain rfl := Option.some.inj (hm.symm.trans hm')
  obtain ⟨i, hid, rfl, hloads⟩ := mapLoad_self hw hm hload
  obtain ⟨j, hj, htile⟩ := hw.map m map hm
  obtain rfl : i = j := by omega
  exact ⟨i, w₁, w₂, htile, hloads, hloop, hfree⟩

/-- The reference that was counted in front of the loop is still there behind it, so the
unload is not the last. -/
theorem mapEventArgsFree_eq_ok {i : ℕ} {w₁ w₂ : World} (hw : Sound defs w)
    (hm : w.maps.get m = some map) (hloads : Loads defs w i m map w₁) (hkept : Kept defs w₁ w₂)
    (h : mapEventArgsFree defs (some m) w₂ = .ok (u, w')) :
    Kept defs w w' ∧ Still defs w₂ w' ∧ w'.tiles = w₂.tiles := by
  simp only [mapEventArgsFree, Exec.bind_eq_ok, derefMap_eq_ok] at h
  obtain ⟨map₂, _, ⟨hm₂, rfl⟩, hunload⟩ := h
  have hall := hloads.kept.trans hkept
  have hrefs : map.refs + 1 ≤ map₂.refs := hkept.refs m _ map₂ hloads.get_eq hm₂
  have hone := hw.one_le_refs hm
  rcases mapUnload_self (hall.sound hw) hm₂ (by omega) hunload with rfl | rfl
  · exact ⟨hall, Still.refl _, rfl⟩
  · have hstill : Still defs w₂ (w₂.setMap m { map₂ with refs := map₂.refs - 1 }) :=
      Still.setMap hm₂ rfl (fun _ => by dsimp only; omega) rfl rfl
    refine ⟨⟨hall.toSteady.trans hstill.toSteady, fun j map₀ map₃ hj hj₃ => ?_⟩, hstill, rfl⟩
    by_cases hjm : j = m
    · subst hjm
      obtain rfl := Option.some.inj (hm.symm.trans hj)
      obtain rfl := Option.some.inj ((Heap.get_set_self _ hm₂).symm.trans hj₃)
      dsimp only
      omega
    · exact hall.refs j map₀ map₃ hj ((Heap.get_set_of_ne _ hjm).symm.trans hj₃)

/-- One round of the loop: a change of the map, or nothing. -/
theorem activateEvent_eq_ok {spawn : ℤ → ℕ → ℤ → ℤ → ℤ → Exec World ℤ} {e : MapEvent}
    (h : activateEvent spawn x y m p e w = .ok (u, w')) :
    (e.x = x ∧ e.y = y ∧ e.func = .changeMap) ∧ mapEventChangeMap spawn p e w = .ok (u, w') ∨
      ¬(e.x = x ∧ e.y = y ∧ e.func = .changeMap) ∧ w' = w := by
  simp only [activateEvent, Exec.bind_eq_ok, derefMap_eq_ok, Exec.ite_eq_ok] at h
  obtain ⟨_, _, ⟨-, rfl⟩, ⟨⟨hx, hy⟩, h⟩ | ⟨hne, h⟩⟩ := h
  · cases hfunc : e.func with
    | changeMap =>
      rw [eventFunc, hfunc] at h
      exact Or.inl ⟨⟨hx, hy, rfl⟩, h⟩
    | _ =>
      rw [eventFunc, hfunc] at h
      simp only [Exec.bind_eq_ok, derefPlayer_eq_ok, Exec.pure_eq_ok] at h
      obtain ⟨_, _, ⟨-, rfl⟩, -, rfl⟩ := h
      exact Or.inr ⟨fun h => absurd h.2.2 (by simp), rfl⟩
  · exact Or.inr ⟨fun h => hne ⟨h.1, h.2.1⟩, (Exec.pure_eq_ok.mp h).2.symm⟩

/-- **The rule for events.**  What does not depend on references, and is preserved by the
events of the cell that change the map, is preserved by all of them. -/
theorem mapEventActivate_rule {spawn : ℤ → ℕ → ℤ → ℤ → ℤ → Exec World ℤ} {I : World → Prop}
    (hI : ∀ v v', I v → Still defs v v' → I v')
    (hevent : ∀ e ∈ map.events, e.x = x → e.y = y → e.func = .changeMap → ∀ v v',
      Sound defs v → I v → mapEventChangeMap spawn p e v = .ok ((), v') → Kept defs v v' ∧ I v')
    (hw : Sound defs w) (hm : w.maps.get m = some map) (hinv : I w)
    (h : mapEventActivate defs spawn x y m p w = .ok (u, w')) : Kept defs w w' ∧ I w' := by
  obtain ⟨i, w₁, w₂, -, hloads, hloop, hfree⟩ := mapEventActivate_calls hw hm h
  have hsound₁ := hloads.kept.sound hw
  have hstart : Kept defs w₁ w₁ ∧ I w₁ :=
    ⟨Kept.refl w₁, hI w w₁ hinv hloads.still⟩
  obtain ⟨hkept, hinv₂⟩ := Exec.forEach_invariant (I := fun v => Kept defs w₁ v ∧ I v)
    (fun e he v v' hv hbody => by
      rcases activateEvent_eq_ok hbody with ⟨⟨hx, hy, hfunc⟩, hchange⟩ | ⟨-, rfl⟩
      · obtain ⟨hkept, hinv⟩ := hevent e he hx hy hfunc v v' (hv.1.sound hsound₁) hv.2 hchange
        exact ⟨hv.1.trans hkept, hinv⟩
      · exact hv) hstart hloop
  obtain ⟨hkept', hstill, -⟩ := mapEventArgsFree_eq_ok hw hm hloads hkept hfree
  exact ⟨hkept', hI w₂ w' hinv₂ hstill⟩

/-- Events that do not change the map do nothing to the scene. -/
theorem mapEventActivate_quiet {spawn : ℤ → ℕ → ℤ → ℤ → ℤ → Exec World ℤ}
    (hw : Sound defs w) (hm : w.maps.get m = some map) (hquiet : NoPortal map x y)
    (h : mapEventActivate defs spawn x y m p w = .ok (u, w')) :
    Kept defs w w' ∧ w'.scene = w.scene :=
  mapEventActivate_rule (I := fun v => v.scene = w.scene)
    (fun _ _ hv hstill => hstill.scene.trans hv)
    (fun e he hx hy hfunc => absurd hfunc (hquiet e he hx hy)) hw hm rfl h

/-- Which events a move runs. -/
theorem triggerEvents_eq_ok {activate : ℤ → ℤ → ℕ → ℕ → Exec World Unit} {suppress : Bool}
    (h : triggerEvents activate p x y suppress w = .ok (u, w')) :
    suppress = true ∧ w' = w ∨ suppress = false ∧ ∃ player m, w.players.get p = some player ∧
      player.map = some m ∧ activate x y m p w = .ok (u, w') := by
  rw [triggerEvents, Exec.ite_eq_ok] at h
  rcases h with ⟨hs, h⟩ | ⟨hs, h⟩
  · exact Or.inl ⟨hs, (Exec.pure_eq_ok.mp h).2.symm⟩
  · simp only [Exec.bind_eq_ok, derefPlayer_eq_ok, Exec.need_eq_ok] at h
    obtain ⟨player, _, ⟨hp, rfl⟩, m, _, ⟨hm, rfl⟩, h⟩ := h
    exact Or.inr ⟨by simpa using hs, player, m, hp, hm, h⟩

/-- The end of a move that has found its cell. -/
theorem moveTo_eq_ok {activate : ℤ → ℤ → ℕ → ℕ → Exec World Unit} {suppress : Bool}
    (hp : w.players.get p = some player)
    (h : moveTo activate p x y suppress w = .ok (u, w')) :
    ∃ w₂, triggerEvents activate p x y suppress (w.setPlayer p { player with x := x, y := y })
      = .ok ((), w₂) ∧ announce p w₂ = .ok (u, w') := by
  simp only [moveTo, Exec.bind_eq_ok, updatePlayer_eq_ok] at h
  obtain ⟨_, _, ⟨player', hp', rfl⟩, ⟨⟩, w₂, htrigger, hannounce⟩ := h
  obtain rfl := Option.some.inj (hp.symm.trans hp')
  exact ⟨w₂, htrigger, hannounce⟩

/-- **The announcement** of a player on a map. -/
theorem announce_scene (hp : w.players.get p = some player) (hm : player.map = some m)
    (hk : player.id = some k) (h : announce p w = .ok (u, w')) :
    Kept defs w w' ∧
      w'.scene = w.scene.tellAll (w.scene.roster m) (.updatePosition k player.x player.y) := by
  rcases announce_eq_ok hp hm h with ⟨hnone, -⟩ | ⟨map, id, hid, hmap, rfl⟩
  · exact absurd (hk.symm.trans hnone) (Option.some_ne_none _)
  · obtain rfl := Option.some.inj (hk.symm.trans hid)
    refine ⟨Kept.tellAll _ _, ?_⟩
    rw [roster_eq hmap, scene_tellAll]

/-- **The end of a move** that runs no event that changes the map. -/
theorem moveTo_quiet {spawn : ℤ → ℕ → ℤ → ℤ → ℤ → Exec World ℤ} {suppress : Bool}
    (hw : Sound defs w) (hp : w.players.get p = some player) (hm : player.map = some m)
    (hk : player.id = some k) (hmap : w.maps.get m = some map)
    (hquiet : suppress = true ∨ NoPortal map x y)
    (h : moveTo (mapEventActivate defs spawn) p x y suppress w = .ok (u, w')) :
    Kept defs w w' ∧ w'.scene = (w.scene.setPlayer p { player with x := x, y := y }).tellAll
      (w.scene.roster m) (.updatePosition k x y) := by
  obtain ⟨w₂, htrigger, hannounce⟩ := moveTo_eq_ok hp h
  have hp₁ := Heap.get_set_self { player with x := x, y := y } hp
  have hset : Kept defs w (w.setPlayer p { player with x := x, y := y }) := Kept.setPlayer p _
  have hevents : Kept defs (w.setPlayer p { player with x := x, y := y }) w₂ ∧
      w₂.scene = (w.setPlayer p { player with x := x, y := y }).scene := by
    rcases triggerEvents_eq_ok htrigger with ⟨-, rfl⟩ | ⟨hs, player', m', hp', hm', hactivate⟩
    · exact ⟨Kept.refl _, rfl⟩
    · obtain rfl := Option.some.inj (hp₁.symm.trans hp')
      obtain rfl := Option.some.inj (hm.symm.trans hm')
      rcases hquiet with htrue | hquiet
      · exact absurd (hs.symm.trans htrue) (by simp)
      · exact mapEventActivate_quiet (hset.sound hw) hmap hquiet hactivate
  obtain ⟨hkept, hscene⟩ := hevents
  have hp₂ : w₂.players.get p = some { player with x := x, y := y } :=
    (congrFun (congrArg Scene.player hscene) p).trans hp₁
  obtain ⟨hkept', hscene'⟩ := announce_scene hp₂ hm hk hannounce
  refine ⟨(hset.trans hkept).trans hkept', ?_⟩
  rw [hscene', hscene, scene_setPlayer hp]
  rfl

/-! ## Packets of a spawn -/

/-- The map packet.  Building it loads the map once more. -/
theorem mapSendMapPacket_eq_ok {s : ℕ} {session : Session} (hw : Sound defs w)
    (hm : w.maps.get m = some map) (hs : w.sessions.get s = some session)
    (h : mapSendMapPacket defs (some m) (some s) w = .ok (u, w')) :
    ∃ (i : ℕ) (w₁ : World) (packet : ServerPacket), map.id = i ∧ Loads defs w i m map w₁ ∧
      packet.message = some .clear ∧ w' = w₁.write session.fd (.packet packet) := by
  simp only [mapSendMapPacket, packetTemplateMap, Exec.bind_eq_ok, derefMap_eq_ok, Exec.need_eq_ok,
    Exec.pure_eq_ok, derefSession_eq_ok, packetWrite_eq_ok] at h
  obtain ⟨map', _, ⟨hm', rfl⟩, packet, w₁, ⟨loaded, _, hload, _, _, ⟨rfl, rfl⟩, map₁, _, ⟨-, rfl⟩,
    hpacket, rfl⟩, session', _, ⟨hs', rfl⟩, rfl⟩ := h
  obtain rfl := Option.some.inj (hm.symm.trans hm')
  obtain ⟨i, hi, hloaded, hloads⟩ := mapLoad_self hw hm hload
  obtain rfl := Option.some.inj hloaded
  rw [hloads.sessions_eq] at hs'
  obtain rfl := Option.some.inj (hs.symm.trans hs')
  exact ⟨i, _, packet, hi, hloads, by rw [← hpacket]; rfl, rfl⟩

/-- The positions of the others. -/
theorem forEach_sendPosition {fd : ℕ} {l : List ℕ} (hfd : w.scene.fdOf p = some fd)
    (h : Exec.forEach l (sendPosition p) w = .ok ((), w')) :
    w' = w.emit (w.scene.positions l p fd) := by
  induction l generalizing w with
  | nil =>
    rw [Exec.forEach_nil, Exec.pure_eq_ok] at h
    rw [← h.2]
    simp [Scene.positions, emit]
  | cons q l ih =>
    rw [Exec.forEach_cons, Exec.bind_eq_ok] at h
    obtain ⟨⟨⟩, w₁, hq, hl⟩ := h
    have hhead : w₁ = w.emit (w.scene.positions [q] p fd) := by
      rw [sendPosition, Exec.ite_eq_ok] at hq
      rcases hq with ⟨rfl, hq⟩ | ⟨hne, hq⟩
      · rw [← (Exec.pure_eq_ok.mp hq).2]
        simp [Scene.positions, emit]
      · simp only [Exec.bind_eq_ok, derefPlayer_eq_ok, Exec.need_eq_ok] at hq
        obtain ⟨other, _, ⟨hother, rfl⟩, packet, _, ⟨hpacket, rfl⟩, hq⟩ := hq
        have hpos : w.scene.positionOf q = some packet := by
          rw [Scene.positionOf, show w.scene.player q = some other from hother]
          exact hpacket
        rw [(writeToPlayer_eq_ok hq).2, tellAll_singleton hfd]
        simp [Scene.positions, hne, hpos, write, emit]
    have htail := ih (w := w₁) (by rw [hhead]; exact hfd) hl
    rw [htail, hhead]
    simp [Scene.positions, emit, Scene.positionOf, scene]

/-! ## `map_spawn_player` -/

/-- **A move to another map** that is not refused: what is known once the player is on
that map, and the three calls that follow. -/
theorem playerMove_moved {fuel o n : ℕ} {oldMap : Map} {suppress r : Bool}
    (hw : Sound defs w) (hp : w.players.get p = some player) (ho : player.map = some o)
    (hk : player.id = some k) (hrefs : player.refs = if p ∈ w.scene.roster o then 2 else 1)
    (hold : w.maps.get o = some oldMap) (hon : mapCheckBounds oldMap player.x player.y = true)
    (hmap : w.maps.get n = some map) (hbounds : mapCheckBounds map x y = true)
    (h : playerMove defs fuel p x y ⟨suppress, true, some n⟩ w = .ok (r, w')) :
    ∃ w₁ w₂ w₃ disabled, Kept defs w w₁ ∧
      w₁.scene = (w.scene.relocate p o n player).emit (w.scene.leavings p o k) ∧
      w₁.players.get p = some { player with refs := 2, map := some n } ∧
      toggleCoord n x y true w₁ = .ok (disabled, w₂) ∧
      enableOldCoord p (some o) w₂ = .ok (true, w₃) ∧
      moveTo (mapEventActivate defs (mapSpawnPlayer defs fuel)) p x y suppress w₃
        = .ok ((), w') := by
  -- what is known once the player is on the other map
  have hchange : ∀ {w₁ player' mover m map'},
      OnTarget defs p x y ⟨suppress, true, some n⟩ w w₁ player' mover m map' →
      player' = player ∧ Kept defs w w₁ ∧
        w₁.scene = (w.scene.relocate p o n player).emit (w.scene.leavings p o k) ∧
        mover = { player with refs := 2, map := some n } ∧ m = n ∧ frame map' = frame map := by
    intro w₁ player' mover m map' htarget
    obtain rfl := Option.some.inj (hp.symm.trans htarget.player_eq)
    obtain ⟨hkept, hscene⟩ := changeMap_scene hw hp ho hk hrefs htarget.changed
    have hmover : mover = { player with refs := 2, map := some n } := by
      have hget := (congrFun (congrArg Scene.player hscene) p).symm.trans htarget.mover_eq
      exact Option.some.inj (hget.symm.trans (Function.update_self _ _ _))
    have hm : m = n := by
      have hm' := htarget.mover_map
      rw [hmover] at hm'
      exact (Option.some.inj hm').symm
    subst hm
    obtain ⟨map₁, hmap₁, hframe⟩ := hkept.maps m map hmap
    obtain rfl := Option.some.inj (hmap₁.symm.trans htarget.map_eq)
    exact ⟨rfl, hkept, hscene, hmover, rfl, hframe⟩
  cases playerMoveWith_eq_ok h with
  | tooFar _ hnone => exact absurd hnone (Option.some_ne_none n)
  | outOfBounds htarget hout =>
    obtain ⟨-, -, -, -, -, hframe⟩ := hchange htarget
    rw [mapCheckBounds_of_frame hframe, hbounds] at hout
    exact absurd hout (by simp)
  | taken _ _ _ hoverlap => exact absurd hoverlap (by simp)
  | stuck htarget _ htoggle _ hold' holdMap hout =>
    obtain ⟨rfl, hkept, -, rfl, -, -⟩ := hchange htarget
    obtain rfl := Option.some.inj (ho.symm.trans hold')
    obtain ⟨hkept', -, -⟩ := toggleCoord_scene defs htoggle
    obtain ⟨oldMap', holdMap', hframe⟩ := (hkept.trans hkept').maps _ oldMap hold
    obtain rfl := Option.some.inj (holdMap.symm.trans holdMap')
    rw [mapCheckBounds_of_frame hframe, hon] at hout
    exact absurd hout (by simp)
  | @moved w₁ w₂ w₃ _ _ _ _ _ disabled htarget _ htoggle _ henable hmove =>
    obtain ⟨rfl, hkept, hscene, rfl, rfl, -⟩ := hchange htarget
    exact ⟨w₁, w₂, w₃, disabled, hkept, hscene, htarget.mover_eq, htoggle, ho ▸ henable, hmove⟩

/-- Such a move, when it runs no event that changes the map. -/
theorem playerMove_scene {fuel o n : ℕ} {oldMap : Map} {suppress r : Bool}
    (hw : Sound defs w) (hp : w.players.get p = some player) (ho : player.map = some o)
    (hk : player.id = some k) (hrefs : player.refs = if p ∈ w.scene.roster o then 2 else 1)
    (hold : w.maps.get o = some oldMap) (hon : mapCheckBounds oldMap player.x player.y = true)
    (hmap : w.maps.get n = some map) (hbounds : mapCheckBounds map x y = true)
    (hquiet : suppress = true ∨ NoPortal map x y)
    (h : playerMove defs fuel p x y ⟨suppress, true, some n⟩ w = .ok (r, w')) :
    Kept defs w w' ∧ w'.scene = ((w.scene.settle p o n player x y).emit
      (w.scene.leavings p o k)).tellAll ((w.scene.settle p o n player x y).roster n)
        (.updatePosition k x y) := by
  obtain ⟨w₁, w₂, w₃, disabled, hkept, hscene, hp₁, htoggle, henable, hmove⟩ :=
    playerMove_moved hw hp ho hk hrefs hold hon hmap hbounds h
  obtain ⟨hkept₂, hscene₂, hplayers₂⟩ := toggleCoord_scene defs htoggle
  obtain ⟨hkept₃, hscene₃, hplayers₃⟩ := enableOldCoord_scene defs henable
  have hall := (hkept.trans hkept₂).trans hkept₃
  obtain ⟨map₃, hmap₃, hframe₃⟩ := hall.maps n map hmap
  rw [← hplayers₂, ← hplayers₃] at hp₁
  have hquiet' : suppress = true ∨ NoPortal map₃ x y := by
    refine hquiet.imp_right fun hno e he => hno e ?_
    rw [← events_of_frame hframe₃]
    exact he
  obtain ⟨hkept₄, hscene₄⟩ := moveTo_quiet (hall.sound hw) hp₁ rfl hk hmap₃ hquiet' hmove
  refine ⟨hall.trans hkept₄, ?_⟩
  rw [hscene₄, hscene₃, hscene₂, hscene]
  rfl

/-- A spawn on the map `n` comes to the state `v` and calls there whatever stands for
`player_move`.  What this call returns is not looked at. -/
def SpawnCalls (defs : MapDefs) (id : ℤ) (p : ℕ) (x y suppress : ℤ) (n : ℕ) (w v : World) :
    Prop :=
  ∀ move, mapSpawnPlayerWith defs move id p x y suppress w
    = (move p x y ⟨suppress % 2 = 1, true, some n⟩ >>= fun _ => do
        sendPositions n p
        pure 1) v

/-- **The calls of a spawn**: the map packet, the move and the positions of the others.  An
id that is not valid is refused. -/
theorem mapSpawnPlayerWith_calls {move : ℕ → ℤ → ℤ → MoveArgs → Exec World Bool} {sid : ℕ}
    {id : ℤ} {session : Session} {suppress r : ℤ}
    (hw : Sound defs w) (hp : w.players.get p = some player) (hsid : player.session = some sid)
    (hsession : w.sessions.get sid = some session)
    (h : mapSpawnPlayerWith defs move id p x y suppress w = .ok (r, w')) :
    r = 0 ∧ w' = w ∧ (id < 0 ∨ (defs.count : ℤ) < id) ∨
      r = 1 ∧ ∃ (i n : ℕ) (map₁ map₂ : Map) (v₁ v : World) (packet : ServerPacket) (moved : Bool)
        (w₃ : World), id = i ∧ i < defs.count ∧ Loads defs w i n map₁ v₁ ∧
        Loads defs v₁ i n map₂ v ∧ packet.message = some .clear ∧
        move p x y ⟨suppress % 2 = 1, true, some n⟩
          (v.write session.fd (.packet packet)) = .ok (moved, w₃) ∧
        sendPositions n p w₃ = .ok ((), w') ∧
        SpawnCalls defs id p x y suppress n w (v.write session.fd (.packet packet)) := by
  rw [mapSpawnPlayerWith, Exec.ite_eq_ok] at h
  rcases h with ⟨hid, h⟩ | ⟨hrange, h⟩
  · obtain ⟨rfl, rfl⟩ := Exec.pure_eq_ok.mp h
    exact Or.inl ⟨rfl, rfl, hid⟩
  · simp only [spawnOn, Exec.bind_eq_ok, derefPlayer_eq_ok, Exec.need_eq_ok,
      Exec.pure_eq_ok] at h
    obtain ⟨loaded, v₁, hload, player', _, ⟨hp', rfl⟩, ⟨⟩, v, hmappacket, moved, w₃, hmove, n, _,
      ⟨rfl, rfl⟩, ⟨⟩, w₄, hpositions, rfl, rfl⟩ := h
    rcases mapLoad_eq_ok hload with ⟨-, hnone, -⟩ | ⟨i, n', map₁, hid, hi, hn', hloads⟩
    · exact absurd hnone (Option.some_ne_none n)
    · obtain rfl := Option.some.inj hn'
      have hcalls : SpawnCalls defs id p x y suppress n w v := by
        intro move'
        rw [mapSpawnPlayerWith, if_neg hrange, spawnOn, Exec.bind_of_ok hload,
          Exec.bind_of_ok (derefPlayer_eq_ok.mpr ⟨hp', rfl⟩), Exec.bind_of_ok hmappacket]
        rfl
      rw [hloads.players_eq] at hp'
      obtain rfl := Option.some.inj (hp.symm.trans hp')
      rw [hsid] at hmappacket
      have hsound := hloads.kept.sound hw
      obtain ⟨j, w₁, packet, hj, hloads', hmessage, rfl⟩ := mapSendMapPacket_eq_ok hsound
        hloads.get_eq (hloads.sessions_eq ▸ hsession) hmappacket
      obtain rfl : i = j := by
        have hmapid := hsound.id_of_tile hloads.tile_eq hloads.get_eq
        omega
      exact Or.inr ⟨rfl, i, n, map₁, _, v₁, w₁, packet, moved, w₃, hid, hi, hloads, hloads',
        hmessage, hmove, hpositions, hcalls⟩

/-- The same for the spawns with a bound on the number of rounds. -/
theorem mapSpawnPlayer_calls {fuel sid : ℕ} {id : ℤ} {session : Session} {suppress r : ℤ}
    (hw : Sound defs w) (hp : w.players.get p = some player) (hsid : player.session = some sid)
    (hsession : w.sessions.get sid = some session)
    (h : mapSpawnPlayer defs (fuel + 1) id p x y suppress w = .ok (r, w')) :
    r = 0 ∧ w' = w ∧ (id < 0 ∨ (defs.count : ℤ) < id) ∨
      r = 1 ∧ ∃ (i n : ℕ) (map₁ map₂ : Map) (v₁ v : World) (packet : ServerPacket) (moved : Bool)
        (w₃ : World), id = i ∧ i < defs.count ∧ Loads defs w i n map₁ v₁ ∧
        Loads defs v₁ i n map₂ v ∧ packet.message = some .clear ∧
        playerMove defs fuel p x y ⟨suppress % 2 = 1, true, some n⟩
          (v.write session.fd (.packet packet)) = .ok (moved, w₃) ∧
        sendPositions n p w₃ = .ok ((), w') := by
  rcases mapSpawnPlayerWith_calls hw hp hsid hsession h with hbad | ⟨hr, i, n, map₁, map₂, v₁, v,
    packet, moved, w₃, hid, hi, hloads, hloads', hmessage, hmove, hpositions, -⟩
  · exact Or.inl hbad
  · exact Or.inr ⟨hr, i, n, map₁, map₂, v₁, v, packet, moved, w₃, hid, hi, hloads, hloads',
      hmessage, hmove, hpositions⟩

/-- The same for a valid id, up to the references. -/
theorem mapSpawnPlayer_eq_ok {fuel i sid : ℕ} {base : Map} {session : Session} {suppress r : ℤ}
    (hw : Sound defs w) (hp : w.players.get p = some player) (hsid : player.session = some sid)
    (hsession : w.sessions.get sid = some session) (hbase : defs.loaders[i]? = some base)
    (h : mapSpawnPlayer defs fuel i p x y suppress w = .ok (r, w')) :
    r = 1 ∧ ∃ n packet w₂ moved w₃, packet.message = some .clear ∧ Kept defs w w₂ ∧
      w₂.tiles i = some n ∧ w₂.scene = w.scene.emit [(session.fd, .packet packet)] ∧
      playerMove defs (fuel - 1) p x y ⟨suppress % 2 = 1, true, some n⟩ w₂ = .ok (moved, w₃) ∧
      sendPositions n p w₃ = .ok ((), w') := by
  cases fuel with
  | zero => exact absurd h (by simp [mapSpawnPlayer, Exec.stop])
  | succ fuel =>
    have hi : i < defs.count := (List.getElem?_eq_some_iff.mp hbase).1
    rcases mapSpawnPlayer_calls hw hp hsid hsession h with ⟨-, -, hbad⟩ |
      ⟨hr, j, n, _, _, _, v, packet, moved, w₃, hij, -, hloads, hloads', hmessage, hmove,
        hpositions⟩
    · omega
    · obtain rfl : i = j := by omega
      refine ⟨hr, n, packet, _, moved, w₃, hmessage,
        (hloads.kept.trans hloads'.kept).trans (Kept.write _ _), hloads'.tile_eq, ?_, hmove,
        hpositions⟩
      rw [scene_write, hloads'.scene_eq, hloads.scene_eq]

/-- **A spawn**, of a player whose position is on its map, at a cell of a valid map that
runs no event that changes the map. -/
theorem mapSpawnPlayer_scene {fuel i o sid : ℕ} {base oldMap : Map} {session : Session}
    {suppress r : ℤ} (hw : Sound defs w) (hp : w.players.get p = some player)
    (ho : player.map = some o) (hk : player.id = some k) (hsid : player.session = some sid)
    (hsession : w.sessions.get sid = some session)
    (hrefs : player.refs = if p ∈ w.scene.roster o then 2 else 1)
    (hold : w.maps.get o = some oldMap) (hon : mapCheckBounds oldMap player.x player.y = true)
    (hbase : defs.loaders[i]? = some base) (hbounds : mapCheckBounds base x y = true)
    (hquiet : suppress % 2 = 1 ∨ NoPortal base x y)
    (h : mapSpawnPlayer defs fuel i p x y suppress w = .ok (r, w')) :
    r = 1 ∧ Kept defs w w' ∧ ∃ n packet, w'.tiles i = some n ∧ packet.message = some .clear ∧
      w'.scene = w.scene.arrive p o n player k session.fd x y packet := by
  obtain ⟨hr, n, packet, w₂, moved, w₃, hmessage, hkept₂, htile₂, hscene₂, hmove, hpositions⟩ :=
    mapSpawnPlayer_eq_ok hw hp hsid hsession hbase h
  have hsound₂ := hkept₂.sound hw
  have hp₂ : w₂.players.get p = some player :=
    (congrFun (congrArg Scene.player hscene₂) p).trans hp
  have hroster₂ : w₂.scene.roster = w.scene.roster := by
    rw [hscene₂]
    rfl
  -- the move
  obtain ⟨map₂, base', hmap₂, hbase', hframe₂, -⟩ := hsound₂.tile i n htile₂
  obtain rfl := Option.some.inj (hbase.symm.trans hbase')
  obtain ⟨oldMap₂, hold₂, hframeOld⟩ := hkept₂.maps o oldMap hold
  have hquiet₂ : decide (suppress % 2 = 1) = true ∨ NoPortal map₂ x y := by
    refine hquiet.imp (fun hodd => decide_eq_true hodd) fun hno e he => hno e ?_
    rw [← events_of_frame hframe₂]
    exact he
  obtain ⟨hkept₃, hscene₃⟩ := playerMove_scene hsound₂ hp₂ ho hk (hroster₂ ▸ hrefs) hold₂
    (by rw [mapCheckBounds_of_frame hframeOld]; exact hon) hmap₂
    (by rw [mapCheckBounds_of_frame hframe₂]; exact hbounds) hquiet₂ hmove
  -- the positions of the others
  simp only [sendPositions, Exec.bind_eq_ok, derefMap_eq_ok] at hpositions
  obtain ⟨map₃, _, ⟨hmap₃, rfl⟩, hpositions⟩ := hpositions
  have hfd : w.scene.fdOf p = some session.fd := by
    simp [Scene.fdOf, scene, hp, hsid, hsession]
  have hfd₃ : w₃.scene.fdOf p = some session.fd := by
    rw [hscene₃, hscene₂]
    exact (congrFun (Scene.fdOf_settle (s := w.scene) (o := o) hp) p).trans hfd
  have hw' := forEach_sendPosition hfd₃ hpositions
  rw [← roster_eq hmap₃] at hw'
  refine ⟨hr, (hkept₂.trans hkept₃).trans (hw' ▸ Kept.emit _), n, packet, ?_, hmessage, ?_⟩
  · rw [hw']
    exact hkept₃.tiles i n htile₂
  · rw [hw', scene_emit, hscene₃, hscene₂, Scene.arrive]
    simp only [Scene.tellAll, Scene.settle_emit, Scene.leavings_emit, Scene.copies_emit,
      Scene.positions_emit, Scene.roster_emit, Scene.emit_emit, List.append_assoc,
      List.cons_append, List.nil_append]

end World
end MmoBackend
