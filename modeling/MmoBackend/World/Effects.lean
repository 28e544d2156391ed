import MmoBackend.World.Movement
import MmoBackend.World.Scene

/-!
# What the calls do

A call that returns has done one of a few things to the state, and this file says
which, call by call.  The later proofs start from these lemmas and do not look at
the definitions of the calls again.

Two shapes come up everywhere.  A packet to a list of players only lengthens what
has been written: `tellAll`.  A move has five ends, four of which are refusals
after different amounts of work: `MoveResult`.
-/

namespace MmoBackend

open Authentication Communication Maps Player

namespace World

/-! ## Packets to players -/

section Tell

variable {w w' : World} {packet : ServerPacket} {p fd : ℕ} {l : List ℕ}

theorem tellAll_nil : w.tellAll [] packet = w := by
  simp [tellAll, Scene.copies, emit]

theorem tellAll_cons : w.tellAll (p :: l) packet = (w.tellAll [p] packet).tellAll l packet := by
  have hfd : (w.tellAll [p] packet).scene.fdOf = w.scene.fdOf := rfl
  rw [tellAll, tellAll, Scene.copies_congr hfd]
  simp [tellAll, Scene.copies, emit]

theorem tellAll_singleton (h : w.scene.fdOf p = some fd) :
    w.tellAll [p] packet = w.write fd (.packet packet) := by
  simp [tellAll, Scene.copies, emit, write, h]

theorem tellAll_singleton_of_none (h : w.scene.fdOf p = none) : w.tellAll [p] packet = w := by
  simp [tellAll, Scene.copies, emit, h]

theorem writeToPlayer_eq_ok {u : Unit} (h : writeToPlayer packet p w = .ok (u, w')) :
    (∃ fd, w.scene.fdOf p = some fd) ∧ w' = w.tellAll [p] packet := by
  simp only [writeToPlayer, Exec.bind_eq_ok, derefPlayer_eq_ok, Exec.need_eq_ok,
    derefSession_eq_ok, packetWrite_eq_ok] at h
  obtain ⟨player, _, ⟨hp, rfl⟩, s, _, ⟨hs, rfl⟩, session, _, ⟨hsession, rfl⟩, rfl⟩ := h
  have hfd : w.scene.fdOf p = some session.fd := by
    simp [Scene.fdOf, scene, hp, hs, hsession]
  exact ⟨⟨_, hfd⟩, (tellAll_singleton hfd).symm⟩

theorem sendToPlayer_eq_ok {u : Unit} (h : sendToPlayer packet p w = .ok (u, w')) :
    w' = w.tellAll [p] packet := by
  simp only [sendToPlayer, Exec.bind_eq_ok, derefPlayer_eq_ok] at h
  obtain ⟨player, _, ⟨hp, rfl⟩, h⟩ := h
  cases hs : player.session with
  | none =>
    rw [hs] at h
    obtain ⟨-, rfl⟩ := Exec.pure_eq_ok.mp h
    exact (tellAll_singleton_of_none (by simp [Scene.fdOf, scene, hp, hs])).symm
  | some s =>
    rw [hs] at h
    simp only [Exec.bind_eq_ok, derefSession_eq_ok, packetWrite_eq_ok] at h
    obtain ⟨session, _, ⟨hsession, rfl⟩, rfl⟩ := h
    exact (tellAll_singleton (by simp [Scene.fdOf, scene, hp, hs, hsession])).symm

/-- A loop that tells every player of a list something. -/
theorem forEach_tell {f : ℕ → Exec World Unit}
    (hf : ∀ {p w w'}, f p w = .ok ((), w') → w' = w.tellAll [p] packet)
    (h : Exec.forEach l f w = .ok ((), w')) : w' = w.tellAll l packet := by
  induction l generalizing w with
  | nil =>
    rw [Exec.forEach_nil, Exec.pure_eq_ok] at h
    rw [tellAll_nil, h.2]
  | cons p l ih =>
    rw [Exec.forEach_cons, Exec.bind_eq_ok] at h
    obtain ⟨⟨⟩, w₁, hp, hl⟩ := h
    rw [ih hl, hf hp, ← tellAll_cons]

end Tell

section Inversion

variable {defs : MapDefs} {w w' : World} {packet : ServerPacket} {m p : ℕ} {u : Unit}

/-- **`map_send_packet`** on a map. -/
theorem mapSendPacket_eq_ok {packet : Option ServerPacket}
    (h : mapSendPacket (some m) packet w = .ok (u, w')) :
    packet = none ∧ w' = w ∨ ∃ map sent, packet = some sent ∧ w.maps.get m = some map ∧
      w' = w.tellAll map.players sent := by
  cases packet with
  | none => exact Or.inl ⟨rfl, (Exec.pure_eq_ok.mp h).2.symm⟩
  | some sent =>
    simp only [mapSendPacket, Exec.bind_eq_ok, derefMap_eq_ok] at h
    obtain ⟨map, _, ⟨hmap, rfl⟩, h⟩ := h
    exact Or.inr ⟨map, sent, rfl, hmap, forEach_tell sendToPlayer_eq_ok h⟩

/-- **The announcement** at the end of a move, for a player on a map. -/
theorem announce_eq_ok {player : Player} (hp : w.players.get p = some player)
    (hm : player.map = some m) (h : announce p w = .ok (u, w')) :
    player.id = none ∧ w' = w ∨ ∃ map id, player.id = some id ∧ w.maps.get m = some map ∧
      w' = w.tellAll map.players (.updatePosition id player.x player.y) := by
  simp only [announce, Exec.bind_eq_ok, derefPlayer_eq_ok] at h
  obtain ⟨player', _, ⟨hp', rfl⟩, h⟩ := h
  obtain rfl := Option.some.inj (hp.symm.trans hp')
  rw [hm] at h
  rcases mapSendPacket_eq_ok h with ⟨hnone, rfl⟩ | ⟨map, sent, hsent, hmap, rfl⟩
  · exact Or.inl ⟨Option.map_eq_none_iff.mp hnone, rfl⟩
  · obtain ⟨id, hid, rfl⟩ := Option.map_eq_some_iff.mp hsent
    exact Or.inr ⟨map, id, hid, hmap, rfl⟩

/-- **`map_remove_player`** on a map.  Either the player is not in the list and nothing
happens, or it is taken out and those who are left are told. -/
theorem mapRemovePlayer_eq_ok (h : mapRemovePlayer defs (some m) p w = .ok (u, w')) :
    ∃ map player id, w.maps.get m = some map ∧ w.players.get p = some player ∧
      player.id = some id ∧
      (p ∉ map.players ∧ w' = w ∨
        p ∈ map.players ∧ 1 < player.refs ∧
          w' = ((w.setMap m { map with players := map.players.erase p }).setPlayer p
            { player with refs := player.refs - 1 }).tellAll (map.players.erase p)
              (.leavingMap id)) := by
  simp only [mapRemovePlayer, unlinkPlayer, sendLeaving, Exec.bind_eq_ok, derefMap_eq_ok,
    derefPlayer_eq_ok, Exec.need_eq_ok, Exec.ite_eq_ok] at h
  obtain ⟨removed, w₁, ⟨map, _, ⟨hmap, rfl⟩, hunlink⟩, player', _, ⟨hp', rfl⟩, id, _, ⟨hid, rfl⟩, h⟩
    := h
  rcases hunlink with ⟨hmem, hunlink⟩ | ⟨hmem, hunlink⟩
  · simp only [Exec.modify_eq_ok, Exec.pure_eq_ok] at hunlink
    obtain ⟨_, _, rfl, _, _, hfree, rfl, rfl⟩ := hunlink
    obtain ⟨player, hp, ⟨hrefs, rfl⟩ | ⟨-, hgone⟩⟩ := playerFree_eq_ok hfree
    · rw [players_setPlayer, Heap.get_set_self _ hp] at hp'
      obtain rfl := Option.some.inj hp'
      refine ⟨map, player, id, hmap, hp, hid, Or.inr ⟨hmem, hrefs, ?_⟩⟩
      rcases h with ⟨-, map', _, ⟨hmap', rfl⟩, h⟩ | ⟨hnot, -⟩
      · rw [maps_setPlayer, maps_setMap, Heap.get_set_self _ hmap] at hmap'
        obtain rfl := Option.some.inj hmap'
        exact forEach_tell (fun hq => (writeToPlayer_eq_ok hq).2) h
      · exact absurd rfl hnot
    · rw [hgone] at hp'
      exact absurd hp'.symm (Option.some_ne_none _)
  · obtain ⟨rfl, rfl⟩ := Exec.pure_eq_ok.mp hunlink
    refine ⟨map, player', id, hmap, hp', hid, Or.inl ⟨hmem, ?_⟩⟩
    rcases h with ⟨htrue, -⟩ | ⟨-, h⟩
    · exact absurd htrue (by simp)
    · exact (Exec.pure_eq_ok.mp h).2.symm

/-- **`map_add_player`**. -/
theorem mapAddPlayer_eq_ok (h : mapAddPlayer defs m p w = .ok (u, w')) :
    ∃ map player loaded w₁, w.maps.get m = some map ∧ w.players.get p = some player ∧
      mapLoad defs map.id ((w.setPlayer p { player with refs := player.refs + 1 }).setMap m
        { map with players := p :: map.players }) = .ok (loaded, w₁) ∧
      ∃ player', w₁.players.get p = some player' ∧
        w' = w₁.setPlayer p { player' with map := loaded } := by
  simp only [mapAddPlayer, Exec.bind_eq_ok, updateMap_eq_ok, updatePlayer_eq_ok,
    derefMap_eq_ok] at h
  obtain ⟨_, _, href, _, _, ⟨map, hmap, rfl⟩, map', _, ⟨hmap', rfl⟩, loaded, w₁, hload, player',
    hp', rfl⟩ := h
  obtain ⟨player, hp, rfl⟩ := playerRef_eq_ok href
  rw [maps_setMap, Heap.get_set_self _ hmap] at hmap'
  obtain rfl := Option.some.inj hmap'
  exact ⟨map, player, loaded, w₁, hmap, hp, hload, player', hp', rfl⟩

/-- `map_toggle_coord`. -/
theorem toggleCoord_eq_ok {x y : ℤ} {disable b : Bool}
    (h : toggleCoord m x y disable w = .ok (b, w')) :
    ∃ map map', w.maps.get m = some map ∧ mapToggleCoord map x y disable = some (b, map') ∧
      w' = w.setMap m map' := by
  simp only [toggleCoord, Exec.bind_eq_ok, derefMap_eq_ok, Exec.need_eq_ok, Exec.modify_eq_ok,
    Exec.pure_eq_ok] at h
  obtain ⟨map, _, ⟨hmap, rfl⟩, ⟨b, map'⟩, _, ⟨htoggle, rfl⟩, _, _, rfl, rfl, rfl⟩ := h
  exact ⟨map, map', hmap, htoggle, rfl⟩

/-- A cell that could not be switched leaves the state as it was. -/
theorem toggleCoord_eq_ok_false {x y : ℤ} {disable : Bool}
    (h : toggleCoord m x y disable w = .ok (false, w')) :
    w' = w ∧ ∃ map, w.maps.get m = some map ∧ (mapCheckBounds map x y = false ∨
      disable = true ∧ mapCoordIsWalkable map x y = some false) := by
  obtain ⟨map, map', hmap, htoggle, rfl⟩ := toggleCoord_eq_ok h
  rcases mapToggleCoord_eq_some htoggle with ⟨-, rfl, hwhy⟩ | ⟨hfalse, -⟩
  · refine ⟨?_, map', hmap, hwhy⟩
    rw [setMap, Heap.set_eq_self hmap]
  · exact absurd hfalse (by simp)

/-- A cell that was switched. -/
theorem toggleCoord_eq_ok_true {x y : ℤ} {disable : Bool}
    (h : toggleCoord m x y disable w = .ok (true, w')) :
    ∃ map, w.maps.get m = some map ∧ mapCheckBounds map x y = true ∧
      (disable = true → mapCoordIsWalkable map x y = some true) ∧
      w' = w.setMap m (switchCoord map x y disable) := by
  obtain ⟨map, map', hmap, htoggle, rfl⟩ := toggleCoord_eq_ok h
  rcases mapToggleCoord_eq_some htoggle with ⟨hfalse, -⟩ | ⟨-, rfl, hbounds, hwalkable⟩
  · exact absurd hfalse (by simp)
  · exact ⟨map, hmap, hbounds, hwalkable, rfl⟩

/-- Switching a cell changes the size and the references of no map. -/
theorem toggleCoord_get {x y : ℤ} {disable b : Bool}
    (h : toggleCoord m x y disable w = .ok (b, w')) {k : ℕ} {map : Map}
    (hk : w.maps.get k = some map) :
    ∃ map₁, w'.maps.get k = some map₁ ∧ map₁.refs = map.refs ∧
      ∀ x y, mapCheckBounds map₁ x y = mapCheckBounds map x y := by
  cases b with
  | false =>
    obtain ⟨rfl, -⟩ := toggleCoord_eq_ok_false h
    exact ⟨map, hk, rfl, fun _ _ => rfl⟩
  | true =>
    obtain ⟨map', hmap', -, -, rfl⟩ := toggleCoord_eq_ok_true h
    by_cases hkm : k = m
    · subst hkm
      obtain rfl := Option.some.inj (hk.symm.trans hmap')
      exact ⟨_, Heap.get_set_self _ hk, rfl, fun _ _ => rfl⟩
    · exact ⟨map, (Heap.get_set_of_ne _ hkm).trans hk, rfl, fun _ _ => rfl⟩

end Inversion

/-! ## `player_move` -/

/-- The position of a player is on its map, if it has one. -/
def OnItsMap (w : World) (player : Player) : Prop :=
  ∀ m map, player.map = some m → w.maps.get m = some map →
    mapCheckBounds map player.x player.y = true

section Move

variable (defs : MapDefs) (activate : ℤ → ℤ → ℕ → ℕ → Exec World Unit) (p : ℕ) (x y : ℤ)
  (args : MoveArgs)

/-- A move has got to the map it goes to: the state is `w₁`, the player is `mover` and
the map is `map`. -/
structure OnTarget (w w₁ : World) (player mover : Player) (m : ℕ) (map : Map) : Prop where
  player_eq : w.players.get p = some player
  changed : changeMap defs player.map p args.map w = .ok ((), w₁)
  valid : args.map = none → movementCheckValid player.maxMove player.x player.y x y = true
  mover_eq : w₁.players.get p = some mover
  mover_map : mover.map = some m
  map_eq : w₁.maps.get m = some map

/-- The five ends of a move. -/
inductive MoveResult (w : World) : Bool → World → Prop
  /-- The target is too far away. -/
  | tooFar {player : Player} :
      w.players.get p = some player → args.map = none →
      movementCheckValid player.maxMove player.x player.y x y = false → MoveResult w false w
  /-- The target is not on the map. -/
  | outOfBounds {w₁ : World} {player mover : Player} {m : ℕ} {map : Map} :
      OnTarget defs p x y args w w₁ player mover m map → mapCheckBounds map x y = false →
      MoveResult w false w₁
  /-- The target is taken. -/
  | taken {w₁ : World} {player mover : Player} {m : ℕ} {map : Map} :
      OnTarget defs p x y args w w₁ player mover m map → mapCheckBounds map x y = true →
      mapCoordIsWalkable map x y = some false → args.overlap = false → MoveResult w false w₁
  /-- The old cell is not on the old map. -/
  | stuck {w₁ w₂ : World} {player mover : Player} {m old : ℕ} {map oldMap : Map}
      {disabled : Bool} :
      OnTarget defs p x y args w w₁ player mover m map → mapCheckBounds map x y = true →
      toggleCoord m x y true w₁ = .ok (disabled, w₂) →
      disabled = true ∨ args.overlap = true → player.map = some old →
      w₂.maps.get old = some oldMap → mapCheckBounds oldMap mover.x mover.y = false →
      MoveResult w false w₂
  /-- The player has moved. -/
  | moved {w₁ w₂ w₃ w' : World} {player mover : Player} {m : ℕ} {map : Map} {disabled : Bool} :
      OnTarget defs p x y args w w₁ player mover m map → mapCheckBounds map x y = true →
      toggleCoord m x y true w₁ = .ok (disabled, w₂) →
      disabled = true ∨ args.overlap = true →
      enableOldCoord p player.map w₂ = .ok (true, w₃) →
      moveTo activate p x y args.suppressEvents w₃ = .ok ((), w') → MoveResult w true w'

variable {defs activate p x y args}

/-- A plain move does not change the map. -/
theorem OnTarget.plain {w w₁ : World} {player mover : Player} {m : ℕ} {map : Map}
    (h : OnTarget defs p x y args w w₁ player mover m map) (hargs : args.map = none) :
    w₁ = w ∧ mover = player := by
  have hchanged := h.changed
  rw [hargs] at hchanged
  obtain ⟨-, rfl⟩ := Exec.pure_eq_ok.mp hchanged
  exact ⟨rfl, Option.some.inj (h.mover_eq.symm.trans h.player_eq)⟩

theorem enableOldCoord_eq_ok_false {w w' : World} {oldMap : Option ℕ} {mover : Player}
    (hp : w.players.get p = some mover) (h : enableOldCoord p oldMap w = .ok (false, w')) :
    w' = w ∧ ∃ old map, oldMap = some old ∧ w.maps.get old = some map ∧
      mapCheckBounds map mover.x mover.y = false := by
  cases oldMap with
  | none => exact absurd (Exec.pure_eq_ok.mp h).1 (by simp)
  | some old =>
    simp only [enableOldCoord, Exec.bind_eq_ok, derefPlayer_eq_ok] at h
    obtain ⟨mover', _, ⟨hp', rfl⟩, h⟩ := h
    obtain rfl := Option.some.inj (hp.symm.trans hp')
    obtain ⟨rfl, map, hmap, hout | ⟨hfalse, -⟩⟩ := toggleCoord_eq_ok_false h
    · exact ⟨rfl, old, map, rfl, hmap, hout⟩
    · exact absurd hfalse (by simp)

/-- **`player_move`** ends in one of the five ways. -/
theorem playerMoveWith_eq_ok {w w' : World} {r : Bool}
    (h : playerMoveWith defs activate p x y args w = .ok (r, w')) :
    MoveResult defs activate p x y args w r w' := by
  simp only [playerMoveWith, Exec.bind_eq_ok, derefPlayer_eq_ok, Exec.ite_eq_ok] at h
  obtain ⟨player, _, ⟨hp, rfl⟩, ⟨⟩, w₁, hchanged, valid, w₂, hvalid, h⟩ := h
  have hstate : w₂ = w₁ := by
    cases hargs : args.map with
    | none =>
      rw [hargs] at hvalid
      simp only [moveValid, Exec.bind_eq_ok, derefPlayer_eq_ok, Exec.pure_eq_ok] at hvalid
      obtain ⟨_, _, ⟨-, rfl⟩, -, rfl⟩ := hvalid
      rfl
    | some m =>
      rw [hargs] at hvalid
      exact (Exec.pure_eq_ok.mp hvalid).2.symm
  have hnone : args.map = none →
      w₁ = w ∧ valid = movementCheckValid player.maxMove player.x player.y x y := by
    intro hargs
    rw [hargs] at hchanged hvalid
    obtain ⟨-, rfl⟩ := Exec.pure_eq_ok.mp hchanged
    simp only [moveValid, Exec.bind_eq_ok, derefPlayer_eq_ok, Exec.pure_eq_ok] at hvalid
    obtain ⟨_, _, ⟨hp', rfl⟩, rfl, -⟩ := hvalid
    obtain rfl := Option.some.inj (hp.symm.trans hp')
    exact ⟨rfl, rfl⟩
  subst hstate
  rcases h with ⟨hv, h⟩ | ⟨hv, h⟩
  · simp only [moveWithin, Exec.bind_eq_ok, derefPlayer_eq_ok, derefMap_eq_ok, Exec.need_eq_ok,
      Exec.ite_eq_ok] at h
    obtain ⟨mover, _, ⟨hmover, rfl⟩, m, _, ⟨hm, rfl⟩, map, _, ⟨hmap, rfl⟩, h⟩ := h
    have htarget : OnTarget defs p x y args w w₂ player mover m map :=
      ⟨hp, hchanged, fun hargs => (hnone hargs).2 ▸ hv, hmover, hm, hmap⟩
    rcases h with ⟨hbounds, disabled, w₃, htoggle, h⟩ | ⟨hbounds, h⟩
    · rcases h with ⟨hgo, h⟩ | ⟨hgo, h⟩
      · rw [Bool.or_eq_true] at hgo
        simp only [moveFrom, Exec.bind_eq_ok, Exec.ite_eq_ok, Exec.pure_eq_ok] at h
        obtain ⟨enabled, w₄, henable, ⟨rfl, _, _, hmove, rfl, rfl⟩ | ⟨hnot, rfl, rfl⟩⟩ := h
        · exact .moved htarget hbounds htoggle hgo henable hmove
        · obtain rfl : enabled = false := by simpa using hnot
          have hmover' : w₃.players.get p = some mover := by
            obtain ⟨_, _, _, _, rfl⟩ := toggleCoord_eq_ok htoggle
            exact hmover
          obtain ⟨rfl, old, oldMap, hold, hmap', hout⟩ := enableOldCoord_eq_ok_false hmover' henable
          exact .stuck htarget hbounds htoggle hgo hold hmap' hout
      · obtain ⟨rfl, rfl⟩ := Exec.pure_eq_ok.mp h
        simp only [Bool.or_eq_true, not_or, Bool.not_eq_true] at hgo
        obtain ⟨rfl, hoverlap⟩ := hgo
        obtain ⟨rfl, map', hmap', hout | ⟨-, htaken⟩⟩ := toggleCoord_eq_ok_false htoggle
        · obtain rfl := Option.some.inj (hmap.symm.trans hmap')
          exact absurd hbounds (by simp [hout])
        · obtain rfl := Option.some.inj (hmap.symm.trans hmap')
          exact .taken htarget hbounds htaken hoverlap
    · obtain ⟨rfl, rfl⟩ := Exec.pure_eq_ok.mp h
      exact .outOfBounds htarget (by simpa using hbounds)
  · obtain ⟨rfl, rfl⟩ := Exec.pure_eq_ok.mp h
    cases hargs : args.map with
    | none =>
      obtain ⟨rfl, rfl⟩ := hnone hargs
      exact .tooFar hp hargs (by simpa using hv)
    | some m =>
      rw [hargs] at hvalid
      exact absurd (Exec.pure_eq_ok.mp hvalid).1.symm hv

end Move

end World
end MmoBackend
