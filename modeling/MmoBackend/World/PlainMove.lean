import Mathlib.Algebra.Order.Group.Unbundled.Abs
import MmoBackend.Player.Distance
import MmoBackend.World.Portals

/-!
# A plain move

A move that a client asks for names no map and suppresses nothing, and on a cell without a
portal nothing but the player and two cells is touched.  The distance is checked first, in
32-bit arithmetic and before the bounds, so a request from far outside can wrap around and
pass this check.  It does not pass the check of the bounds behind it, and inside a map whose
width and height add up to less than `2 ^ 31` nothing wraps.

`Standing.moves` and `Standing.stays` say what the call does, down to the state it ends in,
and `playerMove_plain_iff` says which of the two it is.
-/

namespace MmoBackend

open Authentication Communication Exec Maps Player

namespace Player

/-! ## The distance -/

/-- **The distance of two cells of a map** is the exact one. -/
theorem movementCountDistance_eq {map : Map} {x₁ y₁ x y : ℤ}
    (hwide : map.width + map.height < 2 ^ 31) (hc₁ : mapCheckBounds map x₁ y₁ = true)
    (hc : mapCheckBounds map x y = true) :
    movementCountDistance x₁ y₁ x y = |x - x₁| + |y - y₁| := by
  obtain ⟨hx₁, hxw₁, hy₁, hyh₁⟩ := mem_cells.mp (show (x₁, y₁) ∈ cells map from hc₁)
  obtain ⟨hx, hxw, hy, hyh⟩ := mem_cells.mp (show (x, y) ∈ cells map from hc)
  dsimp only at hx₁ hxw₁ hy₁ hyh₁ hx hxw hy hyh
  have hxabs : |x - x₁| < map.width := abs_lt.mpr ⟨by omega, by omega⟩
  have hyabs : |y - y₁| < map.height := abs_lt.mpr ⟨by omega, by omega⟩
  have hnear : manhattan x₁ y₁ x y < 2 ^ 31 := by
    rw [manhattan]
    omega
  rw [movementCountDistance_of_lt hnear, manhattan]

end Player

namespace World

variable {defs : MapDefs} {w w' : World} {p q m : ℕ} {k : CString} {player : Player} {map : Map}
  {x y : ℤ} {packet : ServerPacket} {spawn : ℤ → ℕ → ℤ → ℤ → ℤ → Exec World ℤ}

/-! ## The announcement -/

/-- The player is there, and so is its session if it has one. -/
def Tellable (w : World) (q : ℕ) : Prop :=
  ∃ player, w.players.get q = some player ∧
    ∀ sid, player.session = some sid → ∃ session, w.sessions.get sid = some session

theorem sendToPlayer_run (h : Tellable w q) :
    sendToPlayer packet q w = .ok ((), w.tellAll [q] packet) := by
  obtain ⟨player, hq, hsession⟩ := h
  have hreturns : ∃ w', sendToPlayer packet q w = .ok ((), w') := by
    rw [sendToPlayer, bind_of_ok (derefPlayer_eq_ok.mpr ⟨hq, rfl⟩)]
    cases hs : player.session with
    | none => exact ⟨w, rfl⟩
    | some sid =>
      obtain ⟨session, hget⟩ := hsession sid hs
      exact ⟨_, bind_of_ok (derefSession_eq_ok.mpr ⟨hget, rfl⟩)⟩
  obtain ⟨w', hrun⟩ := hreturns
  rw [hrun, sendToPlayer_eq_ok hrun]

/-- **Everybody on a list is told.** -/
theorem forEach_sendToPlayer {l : List ℕ} (h : ∀ q ∈ l, Tellable w q) :
    Exec.forEach l (sendToPlayer packet) w = .ok ((), w.tellAll l packet) := by
  induction l generalizing w with
  | nil =>
    rw [tellAll_nil]
    rfl
  | cons q l ih =>
    have hrest : Exec.forEach l (sendToPlayer packet) (w.tellAll [q] packet)
        = .ok ((), (w.tellAll [q] packet).tellAll l packet) :=
      ih fun q' hq' => h q' (List.mem_cons_of_mem q hq')
    rw [forEach_cons, bind_of_ok (sendToPlayer_run (h q List.mem_cons_self)), hrest,
      ← tellAll_cons]

/-- What the announcement of a player writes. -/
def announcements (w : World) (player : Player) (map : Map) : List (ℕ × Sent) :=
  match player.id with
  | none => []
  | some k => w.scene.copies map.players (.updatePosition k player.x player.y)

/-- **The announcement** writes to sockets, or does nothing for a player without an id. -/
theorem announce_run (hp : w.players.get p = some player) (hm : player.map = some m)
    (hmap : w.maps.get m = some map) (hall : ∀ q ∈ map.players, Tellable w q) :
    announce p w = .ok ((), w.emit (announcements w player map)) := by
  have hannounce : announce p w = mapSendPacket (some m)
      (player.id.map fun k => .updatePosition k player.x player.y) w := by
    rw [announce, bind_of_ok (derefPlayer_eq_ok.mpr ⟨hp, rfl⟩), hm]
    rfl
  rw [hannounce, announcements]
  cases player.id with
  | none => exact congrArg (fun v => Except.ok ((), v)) (emit_nil w).symm
  | some k =>
    rw [Option.map_some, mapSendPacket, bind_of_ok (derefMap_eq_ok.mpr ⟨hmap, rfl⟩)]
    exact forEach_sendToPlayer hall

/-! ## The events -/

theorem activateEvent_run {e : MapEvent} (hp : w.players.get p = some player)
    (hmap : w.maps.get m = some map) (hquiet : e.x = x → e.y = y → e.func ≠ .changeMap) :
    activateEvent spawn x y m p e w = .ok ((), w) := by
  rw [activateEvent, bind_of_ok (derefMap_eq_ok.mpr ⟨hmap, rfl⟩)]
  by_cases hcell : e.x = x ∧ e.y = y
  · have hfunc := hquiet hcell.1 hcell.2
    rw [if_pos hcell, eventFunc]
    cases he : e.func with
    | changeMap => exact absurd he hfunc
    | _ => exact bind_of_ok (derefPlayer_eq_ok.mpr ⟨hp, rfl⟩)
  · rw [if_neg hcell]
    rfl

/-- **The events of a cell without a portal** change nothing: the reference that is counted
in front of the loop is given back behind it. -/
theorem mapEventActivate_run (hw : Sound defs w) (hlocks : w.locks = [])
    (hp : w.players.get p = some player) (hmap : w.maps.get m = some map)
    (hquiet : NoPortal map x y) : mapEventActivate defs spawn x y m p w = .ok ((), w) := by
  obtain ⟨i, hid, htile⟩ := hw.map m map hmap
  obtain ⟨r, v, hload⟩ := mapLoad_returns hw.tiled hlocks (hw.id_ne_count hmap)
  obtain ⟨j, hj, rfl, hloads⟩ := mapLoad_self hw hmap hload
  obtain rfl : i = j := by omega
  have hv : v = w.setMap m { map with refs := map.refs + 1 } := by
    cases hloads with
    | loaded => rfl
    | created hnone => exact absurd (htile.symm.trans hnone) (Option.some_ne_none m)
  have hrefs := hw.one_le_refs hmap
  have hp' : v.players.get p = some player := by rw [hloads.players_eq, hp]
  have hloop : Exec.forEach map.events (activateEvent spawn x y m p) v = .ok ((), v) :=
    forEach_of_same fun e he => activateEvent_run hp' hloads.get_eq (hquiet e he)
  have hunload : mapUnload defs map.id v = .ok ((), w) := by
    have hlast : 1 < ({ map with refs := map.refs + 1 } : Map).refs := by
      dsimp only
      omega
    rw [hid, mapUnload_run (hloads.kept.sound hw) (by rw [hv]; exact hlocks) hloads.tile_eq
      hloads.get_eq hlast, hv]
    show Except.ok ((), (w.setMap m _).setMap m _) = _
    rw [setMap, setMap, Heap.set_set]
    dsimp only
    rw [add_sub_cancel_right, Heap.set_eq_self hmap]
  rw [mapEventActivate, bind_of_ok (derefMap_eq_ok.mpr ⟨hmap, rfl⟩), bind_of_ok hload,
    bind_of_ok hloop, mapEventArgsFree, bind_of_ok (derefMap_eq_ok.mpr ⟨hloads.get_eq, rfl⟩)]
  exact hunload

/-! ## The move -/

/-- What a plain move of the player `p` uses: the player, the map it is on, whose rows are as
`map_create` makes them, and everybody on that map.  The registry is in order and no lock is
held. -/
structure Standing (defs : MapDefs) (w : World) (p : ℕ) (player : Player) (m : ℕ) (map : Map) :
    Prop where
  sound : Sound defs w
  locks : w.locks = []
  player_eq : w.players.get p = some player
  map_eq : player.map = some m
  get_eq : w.maps.get m = some map
  shaped : WellShaped map
  tellable : ∀ q ∈ map.players, Tellable w q

/-- In a state that is in order, as every state of the server is for the players that roam, a
player stands on its map. -/
theorem InOrder.standing (h : InOrder defs p w) :
    ∃ player m map, Standing defs w p player m map := by
  obtain ⟨hpeople, _, _, h⟩ := h
  obtain ⟨player, m, map, hp, -, -, hm, hmap⟩ := h.mover
  refine ⟨player, m, map, h.sound, h.locks, hp, hm, hmap, h.shapely m map hmap, fun q hq => ?_⟩
  rw [← roster_eq hmap] at hq
  obtain ⟨other, _, sid', session, hother, -, hsid', hs⟩ := h.way.connected hpeople hq
  refine ⟨other, hother, fun sid hsid => ⟨session, ?_⟩⟩
  rwa [← Option.some.inj (hsid'.symm.trans hsid)]

/-- The check of the distance, the bounds and the cell. -/
def Allowed (player : Player) (map : Map) (x y : ℤ) : Prop :=
  movementCheckValid player.maxMove player.x player.y x y = true ∧
    mapCheckBounds map x y = true ∧ mapCoordIsWalkable map x y = some true

/-- The map when the player has moved. -/
def steppedMap (map : Map) (player : Player) (x y : ℤ) : Map :=
  switchCoord (switchCoord map x y true) player.x player.y false

/-- The state when the player has moved, but for what is written to the sockets. -/
def stepped (w : World) (p : ℕ) (player : Player) (m : ℕ) (map : Map) (x y : ℤ) : World :=
  (w.setMap m (steppedMap map player x y)).setPlayer p { player with x := x, y := y }

/-- What is written when the player has moved. -/
def told (w : World) (p : ℕ) (player : Player) (m : ℕ) (map : Map) (x y : ℤ) :
    List (ℕ × Sent) :=
  announcements (stepped w p player m map x y) { player with x := x, y := y }
    (steppedMap map player x y)

theorem toggleCoord_run {disable b : Bool} {map' : Map} (hmap : w.maps.get m = some map)
    (htoggle : mapToggleCoord map x y disable = some (b, map')) :
    toggleCoord m x y disable w = .ok (b, w.setMap m map') := by
  rw [toggleCoord, bind_of_ok (derefMap_eq_ok.mpr ⟨hmap, rfl⟩), htoggle, need_some_bind,
    modify_bind]
  rfl

namespace Standing

/-- The player stands on the map as before when it has moved. -/
theorem stepped (h : Standing defs w p player m map) (x y : ℤ) :
    Standing defs (stepped w p player m map x y) p { player with x := x, y := y } m
      (steppedMap map player x y) := by
  have hkept : Kept defs w (w.setMap m (steppedMap map player x y)) :=
    Kept.setMap h.get_eq rfl (le_refl map.refs)
  have hp : (World.stepped w p player m map x y).players.get p
      = some { player with x := x, y := y } := Heap.get_set_self _ h.player_eq
  refine ⟨(hkept.trans (Kept.setPlayer p _)).sound h.sound, h.locks, hp, h.map_eq,
    Heap.get_set_self _ h.get_eq,
    wellShaped_switchCoord (wellShaped_switchCoord h.shaped x y true) player.x player.y false,
    fun q hq => ?_⟩
  obtain ⟨other, hother, hsession⟩ := h.tellable q hq
  by_cases hqp : q = p
  · subst hqp
    obtain rfl := Option.some.inj (h.player_eq.symm.trans hother)
    exact ⟨_, hp, hsession⟩
  · exact ⟨other, (Heap.get_set_of_ne _ hqp).trans hother, hsession⟩

/-- A cell of the map that is walkable is disabled. -/
theorem disables (h : Standing defs w p player m map) (hbounds : mapCheckBounds map x y = true)
    (hwalkable : mapCoordIsWalkable map x y = some true) :
    toggleCoord m x y true w = .ok (true, w.setMap m (switchCoord map x y true)) := by
  refine toggleCoord_run h.get_eq ?_
  rcases mapToggleCoord_spec h.shaped x y true with ⟨htoggle, -⟩ | ⟨-, hout | ⟨-, hmem⟩⟩
  · exact htoggle
  · exact absurd hbounds hout
  · exact absurd (hwalkable.symm.trans hmem.2) (by simp)

/-- The cell the player comes from is enabled. -/
theorem enables (h : Standing defs w p player m map)
    (hin : mapCheckBounds map player.x player.y = true) :
    enableOldCoord p player.map (w.setMap m (switchCoord map x y true))
      = .ok (true, w.setMap m (steppedMap map player x y)) := by
  have htoggle : mapToggleCoord (switchCoord map x y true) player.x player.y false
      = some (true, steppedMap map player x y) := by
    rcases mapToggleCoord_spec (wellShaped_switchCoord h.shaped x y true) player.x player.y false
      with ⟨htoggle, -⟩ | ⟨-, hout | ⟨hfalse, -⟩⟩
    · exact htoggle
    · exact absurd hin hout
    · exact absurd hfalse (by simp)
  have hp : (w.setMap m (switchCoord map x y true)).players.get p = some player := h.player_eq
  rw [h.map_eq, enableOldCoord, bind_of_ok (derefPlayer_eq_ok.mpr ⟨hp, rfl⟩),
    toggleCoord_run (Heap.get_set_self _ h.get_eq) htoggle]
  rw [setMap, setMap, setMap, Heap.set_set]

/-- Behind the two cells the position is written, no event runs and the move is announced. -/
theorem arrives (h : Standing defs w p player m map) (hquiet : NoPortal map x y) :
    moveTo (mapEventActivate defs spawn) p x y false (w.setMap m (steppedMap map player x y))
      = .ok ((), (World.stepped w p player m map x y).emit (told w p player m map x y)) := by
  have hstepped := h.stepped x y
  have hevents : mapEventActivate defs spawn x y m p (World.stepped w p player m map x y)
      = .ok ((), World.stepped w p player m map x y) :=
    mapEventActivate_run hstepped.sound hstepped.locks hstepped.player_eq hstepped.get_eq hquiet
  have htrigger : triggerEvents (mapEventActivate defs spawn) p x y false
      (World.stepped w p player m map x y) = .ok ((), World.stepped w p player m map x y) := by
    rw [triggerEvents, if_neg Bool.false_ne_true,
      bind_of_ok (derefPlayer_eq_ok.mpr ⟨hstepped.player_eq, rfl⟩), hstepped.map_eq,
      need_some_bind, hevents]
  have hannounce := announce_run hstepped.player_eq hstepped.map_eq hstepped.get_eq
    hstepped.tellable
  have hp : (w.setMap m (steppedMap map player x y)).players.get p = some player := h.player_eq
  rw [moveTo, bind_of_ok ((updatePlayer_eq_ok (u := ())).mpr ⟨player, hp, rfl⟩)]
  exact (bind_of_ok htrigger).trans hannounce

/-- The check of the distance. -/
theorem checks (h : Standing defs w p player m map) : moveValid p x y MoveArgs.zero.map w
    = .ok (movementCheckValid player.maxMove player.x player.y x y, w) :=
  bind_of_ok (derefPlayer_eq_ok.mpr ⟨h.player_eq, rfl⟩)

/-- **A move that is allowed** ends in the state `stepped`, and everybody on the map is told. -/
theorem moves_told (h : Standing defs w p player m map)
    (hin : mapCheckBounds map player.x player.y = true) (hquiet : NoPortal map x y)
    (hallowed : Allowed player map x y) (fuel : ℕ) : playerMove defs fuel p x y .zero w
      = .ok (true, (World.stepped w p player m map x y).emit (told w p player m map x y)) := by
  obtain ⟨hvalid, hbounds, hwalkable⟩ := hallowed
  have hmoveFrom : moveFrom (mapEventActivate defs (mapSpawnPlayer defs fuel)) player.map p x y
      .zero (w.setMap m (switchCoord map x y true))
        = .ok (true, (World.stepped w p player m map x y).emit (told w p player m map x y)) := by
    rw [moveFrom, bind_of_ok (h.enables hin), if_pos rfl]
    exact bind_of_ok (h.arrives hquiet)
  rw [playerMove, playerMoveWith, bind_of_ok (derefPlayer_eq_ok.mpr ⟨h.player_eq, rfl⟩)]
  refine (bind_of_ok (t := w) rfl).trans ?_
  rw [bind_of_ok h.checks, if_pos hvalid, moveWithin,
    bind_of_ok (derefPlayer_eq_ok.mpr ⟨h.player_eq, rfl⟩), h.map_eq, need_some_bind,
    bind_of_ok (derefMap_eq_ok.mpr ⟨h.get_eq, rfl⟩), if_pos hbounds,
    bind_of_ok (h.disables hbounds hwalkable)]
  exact h.map_eq ▸ hmoveFrom

theorem moves (h : Standing defs w p player m map)
    (hin : mapCheckBounds map player.x player.y = true) (hquiet : NoPortal map x y)
    (hallowed : Allowed player map x y) (fuel : ℕ) : ∃ l, playerMove defs fuel p x y .zero w
      = .ok (true, (World.stepped w p player m map x y).emit l) :=
  ⟨_, h.moves_told hin hquiet hallowed fuel⟩

/-- **A move that is not allowed** changes nothing. -/
theorem stays (h : Standing defs w p player m map) (hnot : ¬Allowed player map x y)
    (fuel : ℕ) : playerMove defs fuel p x y .zero w = .ok (false, w) := by
  rw [playerMove, playerMoveWith, bind_of_ok (derefPlayer_eq_ok.mpr ⟨h.player_eq, rfl⟩)]
  refine (bind_of_ok (t := w) rfl).trans ?_
  rw [bind_of_ok h.checks]
  split
  · rename_i hvalid
    rw [moveWithin, bind_of_ok (derefPlayer_eq_ok.mpr ⟨h.player_eq, rfl⟩), h.map_eq,
      need_some_bind, bind_of_ok (derefMap_eq_ok.mpr ⟨h.get_eq, rfl⟩)]
    split
    · rename_i hbounds
      have htaken : mapToggleCoord map x y true = some (false, map) := by
        rcases mapToggleCoord_spec h.shaped x y true with ⟨htoggle, -⟩ | ⟨htoggle, -⟩
        · rcases mapToggleCoord_eq_some htoggle with ⟨hfalse, -⟩ | ⟨-, -, -, hwalkable⟩
          · exact absurd hfalse (by simp)
          · exact absurd ⟨hvalid, hbounds, hwalkable rfl⟩ hnot
        · exact htoggle
      have hset : w.setMap m map = w := by rw [setMap, Heap.set_eq_self h.get_eq]
      rw [bind_of_ok (toggleCoord_run h.get_eq htaken), hset]
      rfl
    · rfl
  · rfl

end Standing

/-! ## The rule and the frame -/

/-- What has become of the player `p`, its map, everybody else and every other map when the
player has moved to the cell `(x, y)`. -/
structure PlainMoved (w w' : World) (p : ℕ) (player : Player) (m : ℕ) (map : Map) (x y : ℤ) :
    Prop where
  player_eq : w'.players.get p = some { player with x := x, y := y }
  players_eq : ∀ q, q ≠ p → w'.players.get q = w.players.get q
  maps_eq : ∀ n, n ≠ m → w'.maps.get n = w.maps.get n
  map_eq : ∃ map', w'.maps.get m = some map' ∧ map'.players = map.players ∧
    mapCoordIsWalkable map' player.x player.y = some true ∧
    mapCoordIsWalkable map' x y = some false ∧
    ∀ c : ℤ × ℤ, c ≠ (player.x, player.y) → c ≠ (x, y) →
      mapCoordIsWalkable map' c.1 c.2 = mapCoordIsWalkable map c.1 c.2

theorem plainMoved_stepped (h : Standing defs w p player m map)
    (hin : mapCheckBounds map player.x player.y = true)
    (hblocked : mapCoordIsWalkable map player.x player.y = some false)
    (hallowed : Allowed player map x y) (l : List (ℕ × Sent)) :
    PlainMoved w ((stepped w p player m map x y).emit l) p player m map x y := by
  obtain ⟨-, hbounds, hwalkable⟩ := hallowed
  obtain ⟨hx, -, hy, -⟩ := mem_cells.mp (show (x, y) ∈ cells map from hbounds)
  obtain ⟨hx₁, -, hy₁, -⟩ :=
    mem_cells.mp (show (player.x, player.y) ∈ cells map from hin)
  have hne : (player.x, player.y) ≠ (x, y) := by
    intro heq
    obtain ⟨hxx, hyy⟩ := Prod.mk.inj heq
    rw [hxx, hyy] at hblocked
    exact absurd (hblocked.symm.trans hwalkable) (by simp)
  have hold : mapCoordIsWalkable (switchCoord map x y true) player.x player.y = some false := by
    rw [mapCoordIsWalkable_switchCoord_of_ne hx hy hne, hblocked]
  refine ⟨Heap.get_set_self _ h.player_eq, fun q hq => Heap.get_set_of_ne _ hq,
    fun n hn => Heap.get_set_of_ne _ hn, _, Heap.get_set_self _ h.get_eq, rfl,
    mapCoordIsWalkable_switchCoord hx₁ hy₁ hold false, ?_, fun c hc hc' => ?_⟩
  · rw [steppedMap, mapCoordIsWalkable_switchCoord_of_ne hx₁ hy₁ hne.symm]
    exact mapCoordIsWalkable_switchCoord hx hy hwalkable true
  · rw [steppedMap, mapCoordIsWalkable_switchCoord_of_ne hx₁ hy₁ hc,
      mapCoordIsWalkable_switchCoord_of_ne hx hy hc']

/-- The checks let through what is on the map, free and near, and nothing else. -/
theorem allowed_iff (hin : mapCheckBounds map player.x player.y = true)
    (hwide : map.width + map.height < 2 ^ 31) :
    Allowed player map x y ↔ mapCheckBounds map x y = true ∧
      mapCoordIsWalkable map x y = some true ∧
      |x - player.x| + |y - player.y| ≤ player.maxMove := by
  have hvalid : mapCheckBounds map x y = true →
      (movementCheckValid player.maxMove player.x player.y x y = true ↔
        |x - player.x| + |y - player.y| ≤ player.maxMove) := by
    intro hbounds
    rw [movementCheckValid, decide_eq_true_iff, movementCountDistance_eq hwide hin hbounds]
  constructor
  · rintro ⟨hdist, hbounds, hwalkable⟩
    exact ⟨hbounds, hwalkable, (hvalid hbounds).mp hdist⟩
  · rintro ⟨hbounds, hwalkable, hdist⟩
    exact ⟨(hvalid hbounds).mpr hdist, hbounds, hwalkable⟩

/-- **A plain move, completely.**  The call returns, and it returns true if and only if the
cell is on the map, walkable and within the reach of the player.  Then the player stands on
it, the cell it came from is free again, and nothing else has changed. -/
theorem playerMove_plain_iff (h : Standing defs w p player m map)
    (hin : mapCheckBounds map player.x player.y = true)
    (hblocked : mapCoordIsWalkable map player.x player.y = some false)
    (hwide : map.width + map.height < 2 ^ 31) (hquiet : NoPortal map x y) (fuel : ℕ) :
    ∃ moved w', playerMove defs fuel p x y .zero w = .ok (moved, w') ∧
      (moved = true ↔ mapCheckBounds map x y = true ∧ mapCoordIsWalkable map x y = some true ∧
        |x - player.x| + |y - player.y| ≤ player.maxMove) ∧
      (moved = true → PlainMoved w w' p player m map x y) := by
  rw [← allowed_iff hin hwide]
  by_cases hallowed : Allowed player map x y
  · obtain ⟨l, hmove⟩ := h.moves hin hquiet hallowed fuel
    exact ⟨true, _, hmove, iff_of_true rfl hallowed,
      fun _ => plainMoved_stepped h hin hblocked hallowed l⟩
  · exact ⟨false, w, h.stays hallowed fuel, iff_of_false Bool.false_ne_true hallowed,
      fun hfalse => absurd hfalse Bool.false_ne_true⟩

/-! ## A player that steps aside -/

/-- One cell to the east and back: behind the first move the cell of the player is taken. -/
theorem playerMove_plain_iff_back : ∃ w player map w',
    Standing mapLoaders w 0 player 0 map ∧ player.x = 2 ∧ player.y = 1 ∧
      mapCoordIsWalkable map 2 1 = some false ∧
      playerMove mapLoaders 0 0 1 1 .zero w = .ok (true, w') ∧
      PlainMoved w w' 0 player 0 map 1 1 := by
  obtain ⟨player, m, map, hstanding⟩ := (inOrder_standing wellShaped_mapLoaders
    (rfl : mapLoaders.loaders[0]? = some mapDefTestTile) 1 1).standing
  obtain rfl := Option.some.inj hstanding.player_eq
  obtain rfl := Option.some.inj hstanding.map_eq
  obtain rfl := Option.some.inj hstanding.get_eq
  have hquiet : ∀ e ∈ mapDefTestTile.events, e.x = 1 → e.y = 1 → e.func ≠ .changeMap := by
    decide
  have h := hstanding.stepped 2 1
  obtain ⟨moved, w', hmove, hmoved, hframe⟩ := playerMove_plain_iff (x := 1) (y := 1) h
    (by decide) (by decide) (by decide) hquiet 0
  obtain rfl := hmoved.mpr ⟨by decide, by decide, by decide⟩
  exact ⟨_, _, _, w', h, rfl, rfl, by decide, hmove, hframe rfl⟩

end World
end MmoBackend
