import MmoBackend.World.Membership

/-!
# Journeys

A portal moves a player to another map, and the cell it arrives at may have portals of its
own, so one step of a client can lead across many maps.  Where it ends and which maps it
passes is decided by the map definitions alone: a spawn does not ask for free cells, so the
only thing that can stop it are the bounds of the new map and of the old one.

`spawnJourney` computes the journey of a spawn, `eventsJourney` that of the events of a
cell.  `Travelled.spawn` and `Travelled.walk` say that the code makes these journeys, and
that it loads no maps but the visited ones.
-/

namespace MmoBackend

open Authentication Communication Maps Player

namespace World

open Scene

/-! ## What a journey is -/

/-- The map and the cell of a player. -/
structure Place where
  map : ℕ
  x : ℤ
  y : ℤ
  deriving DecidableEq

/-- Where a player has come to, and the maps it was spawned on. -/
structure Journey where
  place : Place
  visited : List ℕ
  deriving DecidableEq

section Journey

variable (defs : MapDefs) (go : Journey → ℤ → ℤ → ℤ → ℤ → Option Journey)

/-- An event of the cell that changes the map takes the player along.  `go` is the journey
of a spawn. -/
def eventJourney (x y : ℤ) (j : Journey) (e : MapEvent) : Option Journey :=
  if e.x = x ∧ e.y = y ∧ e.func = .changeMap then
    e.staticArgs[0]?.bind fun id => e.staticArgs[1]?.bind fun x' => e.staticArgs[2]?.bind fun y' =>
      go j id x' y' y'
  else some j

/-- The journey that the events of a cell make. -/
def eventsJourney (x y : ℤ) (base : Map) (j : Journey) : Option Journey :=
  base.events.foldlM (eventJourney go x y) j

/-- From a place on the map `old` to a cell of the map `base`, which has the id `i`.  If one
of the two cells is not on its map, the player keeps its coordinates and no events run. -/
def enterJourney (base old : Map) (i : ℕ) (x y : ℤ) (suppress : Bool) (j : Journey) :
    Option Journey :=
  if mapCheckBounds base x y && mapCheckBounds old j.place.x j.place.y then
    if suppress then some { j with place := ⟨i, x, y⟩ }
    else eventsJourney go x y base { j with place := ⟨i, x, y⟩ }
  else some { j with place := { j.place with map := i } }

/-- The journey of a spawn, over those of the spawns inside it. -/
def spawnJourneyWith (j : Journey) (id x y suppress : ℤ) : Option Journey :=
  if id < 0 ∨ (defs.count : ℤ) < id then some j
  else defs.loaders[id.toNat]?.bind fun base => defs.loaders[j.place.map]?.bind fun old =>
    enterJourney go base old id.toNat x y (suppress % 2 = 1)
      { j with visited := id.toNat :: j.visited }

/-- The journey of a spawn, for at most `fuel` spawns inside one another. -/
def spawnJourney : ℕ → Journey → ℤ → ℤ → ℤ → ℤ → Option Journey
  | 0 => fun _ _ _ _ _ => none
  | fuel + 1 => spawnJourneyWith defs (spawnJourney fuel)

end Journey

/-! ## The number of rounds -/

section Rounds

variable {defs : MapDefs} {go go' : Journey → ℤ → ℤ → ℤ → ℤ → Option Journey} {x y : ℤ}
  {base : Map} {j j' : Journey}

/-- Whatever `go` computes, `go'` computes. -/
def Extends (go go' : Journey → ℤ → ℤ → ℤ → ℤ → Option Journey) : Prop :=
  ∀ j id x y suppress j', go j id x y suppress = some j' → go' j id x y suppress = some j'

theorem Extends.event (hgo : Extends go go') {e : MapEvent}
    (h : eventJourney go x y j e = some j') : eventJourney go' x y j e = some j' := by
  unfold eventJourney at h ⊢
  split at h
  · rename_i hcell
    rw [if_pos hcell]
    simp only [Option.bind_eq_some_iff] at h ⊢
    obtain ⟨id, hid, x', hx, y', hy, h⟩ := h
    exact ⟨id, hid, x', hx, y', hy, hgo j id x' y' y' j' h⟩
  · rename_i hcell
    rw [if_neg hcell]
    exact h

theorem Extends.events (hgo : Extends go go') (h : eventsJourney go x y base j = some j') :
    eventsJourney go' x y base j = some j' := by
  unfold eventsJourney at h ⊢
  generalize base.events = events at h ⊢
  induction events generalizing j with
  | nil => exact h
  | cons e events ih =>
    rw [List.foldlM_cons] at h ⊢
    obtain ⟨j₁, hj₁, h⟩ := Option.bind_eq_some_iff.mp h
    exact Option.bind_eq_some_iff.mpr ⟨j₁, hgo.event hj₁, ih h⟩

theorem Extends.spawn (hgo : Extends go go') :
    Extends (spawnJourneyWith defs go) (spawnJourneyWith defs go') := by
  intro j id x y suppress j' h
  unfold spawnJourneyWith at h ⊢
  split at h
  · rename_i hid
    rw [if_pos hid]
    exact h
  · rename_i hid
    rw [if_neg hid]
    simp only [Option.bind_eq_some_iff, enterJourney] at h ⊢
    obtain ⟨base, hbase, old, hold, h⟩ := h
    refine ⟨base, hbase, old, hold, ?_⟩
    split at h
    · rename_i hbounds
      rw [if_pos hbounds]
      split at h
      · rename_i hsuppress
        rw [if_pos hsuppress]
        exact h
      · rename_i hsuppress
        rw [if_neg hsuppress]
        exact hgo.events h
    · rename_i hbounds
      rw [if_neg hbounds]
      exact h

theorem extends_spawnJourney {n n' : ℕ} (hn : n ≤ n') :
    Extends (spawnJourney defs n) (spawnJourney defs n') := by
  induction n generalizing n' with
  | zero => exact fun _ _ _ _ _ _ h => absurd h.symm (Option.some_ne_none _)
  | succ n ih =>
    obtain ⟨n', rfl⟩ : ∃ k, n' = k + 1 := ⟨n' - 1, by omega⟩
    exact (ih (Nat.le_of_succ_le_succ hn)).spawn

/-- **The journey of a move** does not depend on how many rounds are allowed. -/
theorem eventsJourney_inj {n n' : ℕ} {j₁ j₂ : Journey}
    (h : eventsJourney (spawnJourney defs n) x y base j = some j₁)
    (h' : eventsJourney (spawnJourney defs n') x y base j = some j₂) : j₁ = j₂ := by
  have h₁ := Extends.events (extends_spawnJourney (Nat.le_max_left n n')) h
  have h₂ := Extends.events (extends_spawnJourney (Nat.le_max_right n n')) h'
  exact Option.some.inj (h₁.symm.trans h₂)

end Rounds

/-! ## A player on a journey -/

variable {defs : MapDefs} {w w' v v' : World} {p sid i m n : ℕ} {k : CString} {s₀ : Scene}
  {player : Player} {map base old : Map} {x y : ℤ} {j j' : Journey} {u : Unit}

/-- The player `p` is at a place. -/
def Placed (w : World) (p : ℕ) (o : Place) : Prop :=
  ∃ player m, w.players.get p = some player ∧ player.map = some m ∧ w.tiles o.map = some m ∧
    player.x = o.x ∧ player.y = o.y

/-- The player `p` has made the journey `j` since the state `w`: it is on its way, and the
visited maps were loaded, and no others. -/
structure Travelled (defs : MapDefs) (w : World) (s₀ : Scene) (p : ℕ) (k : CString) (sid : ℕ)
    (j : Journey) (v : World) : Prop where
  kept : Kept defs w v
  way : OnWay s₀ p k sid 0 v.scene
  placed : Placed v p j.place
  tiles : ∀ i, v.tiles i ≠ none ↔ w.tiles i ≠ none ∨ i ∈ j.visited

/-! ## Which maps are loaded -/

theorem Loads.tiles_ne_none (h : Loads defs w i m map w') :
    w'.tiles n ≠ none ↔ w.tiles n ≠ none ∨ n = i := by
  have htile := h.tile_eq
  cases h with
  | loaded =>
    refine ⟨Or.inl, ?_⟩
    rintro (hn | rfl)
    · exact hn
    · exact htile ▸ Option.some_ne_none m
  | created =>
    by_cases hni : n = i
    · subst hni
      exact iff_of_true (htile ▸ Option.some_ne_none m) (Or.inr rfl)
    · rw [or_iff_left hni, show (w.addTile i _).tiles n = w.tiles n from
        Function.update_of_ne hni _ _]

theorem Loads.tiles_eq (h : Loads defs w i m map w') (hi : w.tiles i = some n) :
    w'.tiles = w.tiles := by
  cases h with
  | loaded => rfl
  | created hnone => exact absurd (hi.symm.trans hnone) (Option.some_ne_none n)

/-- A map that is in memory is loaded. -/
theorem mapLoad_tiles {r : Option ℕ} (hw : Sound defs w) (hm : w.maps.get m = some map)
    (h : mapLoad defs map.id w = .ok (r, w')) : w'.tiles = w.tiles := by
  obtain ⟨i, hid, rfl, hloads⟩ := mapLoad_self hw hm h
  obtain ⟨j, hj, htile⟩ := hw.map m map hm
  obtain rfl : i = j := by omega
  exact hloads.tiles_eq htile

/-- A change of the map loads no other. -/
theorem changeMap_tiles {o : Option ℕ} (hw : Sound defs w)
    (h : changeMap defs o p (some n) w = .ok (u, w')) : w'.tiles = w.tiles := by
  simp only [changeMap, Exec.bind_eq_ok] at h
  obtain ⟨⟨⟩, v, hremove, hadd⟩ := h
  have hleft : Kept defs w v ∧ v.tiles = w.tiles := by
    cases o with
    | none =>
      obtain ⟨-, rfl⟩ := Exec.pure_eq_ok.mp hremove
      exact ⟨Kept.refl w, rfl⟩
    | some m =>
      obtain ⟨map, player, id, hmap, -, -, ⟨-, rfl⟩ | ⟨-, -, rfl⟩⟩ := mapRemovePlayer_eq_ok hremove
      · exact ⟨Kept.refl _, rfl⟩
      · exact ⟨((Kept.setPlayers hmap _).trans (Kept.setPlayer p _)).trans (Kept.tellAll _ _), rfl⟩
  obtain ⟨map, player, loaded, v', hmap, -, hload, player', -, rfl⟩ := mapAddPlayer_eq_ok hadd
  have hkept : Kept defs v ((v.setPlayer p { player with refs := player.refs + 1 }).setMap n
      { map with players := p :: map.players }) :=
    (Kept.setPlayer p _).trans (Kept.setPlayers (w := v.setPlayer p _) hmap _)
  have hget : ((v.setPlayer p { player with refs := player.refs + 1 }).setMap n
      { map with players := p :: map.players }).maps.get n
        = some { map with players := p :: map.players } := Heap.get_set_self _ hmap
  exact (mapLoad_tiles (hkept.sound (hleft.1.sound hw)) hget hload).trans hleft.2

theorem toggleCoord_tiles {disable b : Bool} (h : toggleCoord m x y disable w = .ok (b, w')) :
    w'.tiles = w.tiles := by
  obtain ⟨_, _, -, -, rfl⟩ := toggleCoord_eq_ok h
  rfl

/-- Enabling the old cell tells whether it is on the old map. -/
theorem enableOldCoord_eq_ok_true (hp : w.players.get p = some player)
    (h : enableOldCoord p (some m) w = .ok (true, w')) :
    w'.tiles = w.tiles ∧
      ∃ map, w.maps.get m = some map ∧ mapCheckBounds map player.x player.y = true := by
  simp only [enableOldCoord, Exec.bind_eq_ok, derefPlayer_eq_ok] at h
  obtain ⟨player', _, ⟨hp', rfl⟩, htoggle⟩ := h
  obtain rfl := Option.some.inj (hp.symm.trans hp')
  obtain ⟨map, hmap, hbounds, -, -⟩ := toggleCoord_eq_ok_true htoggle
  exact ⟨toggleCoord_tiles htoggle, map, hmap, hbounds⟩

/-! ## Steps of a journey -/

/-- A plain move that is not refused: the target is near and free, and the old cell is on
the map. -/
structure Goes (w : World) (p : ℕ) (x y : ℤ) (player : Player) (m : ℕ) (map : Map) : Prop where
  player_eq : w.players.get p = some player
  map_eq : player.map = some m
  get_eq : w.maps.get m = some map
  near : movementCheckValid player.maxMove player.x player.y x y = true
  bounds : mapCheckBounds map x y = true
  walkable : mapCoordIsWalkable map x y = some true
  on_map : mapCheckBounds map player.x player.y = true

theorem Goes.inj {player' : Player} {map' : Map} (h : Goes w p x y player m map)
    (hp : w.players.get p = some player') (hm : player'.map = some n)
    (hmap : w.maps.get n = some map') : player' = player ∧ map' = map := by
  obtain rfl := Option.some.inj (hp.symm.trans h.player_eq)
  obtain rfl := Option.some.inj (hm.symm.trans h.map_eq)
  exact ⟨rfl, Option.some.inj (hmap.symm.trans h.get_eq)⟩

namespace Travelled

theorem congr (h : Travelled defs w s₀ p k sid j v) (hkept : Kept defs v v')
    (hscene : v'.scene = v.scene) (htiles : v'.tiles = v.tiles) :
    Travelled defs w s₀ p k sid j v' where
  kept := h.kept.trans hkept
  way := hscene ▸ h.way
  placed := by
    obtain ⟨player, m, hp, hm, htile, hxy⟩ := h.placed
    exact ⟨player, m, (congrFun (congrArg Scene.player hscene) p).trans hp, hm, htiles ▸ htile, hxy⟩
  tiles := htiles ▸ h.tiles

theorem emit (h : Travelled defs w s₀ p k sid j v) (l : List (ℕ × Sent)) :
    Travelled defs w s₀ p k sid j (v.emit l) :=
  ⟨h.kept.trans (Kept.emit l), h.way.emit l, h.placed, h.tiles⟩

/-- A load. -/
theorem load (h : Travelled defs w s₀ p k sid j v) (hloads : Loads defs v i m map v') :
    Travelled defs w s₀ p k sid { j with visited := i :: j.visited } v' where
  kept := h.kept.trans hloads.kept
  way := hloads.scene_eq ▸ h.way
  placed := by
    obtain ⟨player, m, hp, hm, htile, hxy⟩ := h.placed
    exact ⟨player, m, hloads.players_eq ▸ hp, hm, hloads.kept.tiles _ _ htile, hxy⟩
  tiles n := by
    rw [hloads.tiles_ne_none, h.tiles n, List.mem_cons, or_assoc, or_comm (a := n = i)]

/-- The player stands on another cell. -/
theorem place (h : Travelled defs w s₀ p k sid j v) (hp : v.players.get p = some player) :
    Travelled defs w s₀ p k sid { j with place := ⟨j.place.map, x, y⟩ }
      (v.setPlayer p { player with x := x, y := y }) where
  kept := h.kept.trans (Kept.setPlayer p _)
  way := OnWay.place h.way hp
  placed := by
    obtain ⟨player', m, hp', hm, htile, -⟩ := h.placed
    obtain rfl := Option.some.inj (hp.symm.trans hp')
    exact ⟨_, m, Heap.get_set_self _ hp, hm, htile, rfl, rfl⟩
  tiles := h.tiles

/-- **The change of the map.** -/
theorem changeMap (hw : Sound defs w) (h : Travelled defs w s₀ p k sid j v)
    (htile : v.tiles i = some n) (hp : v.players.get p = some player)
    (hchange : World.changeMap defs player.map p (some n) v = .ok (u, v')) :
    Kept defs v v' ∧ Travelled defs w s₀ p k sid { j with place := { j.place with map := i } } v' ∧
      ∀ mover, v'.players.get p = some mover →
        mover.map = some n ∧ mover.x = player.x ∧ mover.y = player.y := by
  have hv := h.kept.sound hw
  obtain ⟨player', o, c, hlisted, -, hid, -⟩ := h.way.listed
  obtain rfl := Option.some.inj (hp.symm.trans hlisted.player_eq)
  obtain ⟨hkept, hscene⟩ := changeMap_scene hv hp hlisted.map_eq hid hlisted.refs_ite hchange
  have htiles := changeMap_tiles hv hchange
  have hget : v'.players.get p = some { player with refs := 2, map := some n } :=
    (congrFun (congrArg Scene.player hscene) p).trans (Function.update_self _ _ _)
  have hchange' : World.changeMap defs player.map p (MoveArgs.mk true true (some n)).map v
      = .ok (u, v') := hchange
  obtain ⟨-, hway, -⟩ := OnWay.changeMap hv h.way hp hchange'
  refine ⟨hkept, ⟨h.kept.trans hkept, hway, ?_, htiles ▸ h.tiles⟩, fun mover hmover => ?_⟩
  · obtain ⟨player', _, hp', -, -, hxy⟩ := h.placed
    obtain rfl := Option.some.inj (hp.symm.trans hp')
    exact ⟨_, n, hget, rfl, htiles ▸ htile, hxy⟩
  · obtain rfl := Option.some.inj (hget.symm.trans hmover)
    exact ⟨rfl, rfl, rfl⟩

/-! ## Events -/

section Events

variable {spawn : ℤ → ℕ → ℤ → ℤ → ℤ → Exec World ℤ}
  {go : Journey → ℤ → ℤ → ℤ → ℤ → Option Journey}

/-- The calls of `spawn` make the journeys `go`. -/
def Makes (defs : MapDefs) (w : World) (s₀ : Scene) (p : ℕ) (k : CString) (sid : ℕ)
    (spawn : ℤ → ℕ → ℤ → ℤ → ℤ → Exec World ℤ)
    (go : Journey → ℤ → ℤ → ℤ → ℤ → Option Journey) : Prop :=
  ∀ id x y suppress j v v' r, Travelled defs w s₀ p k sid j v →
    spawn id p x y suppress v = .ok (r, v') →
      Kept defs v v' ∧ ∃ j', go j id x y suppress = some j' ∧ Travelled defs w s₀ p k sid j' v'

/-- One event. -/
theorem event (hspawn : Makes defs w s₀ p k sid spawn go) {e : MapEvent}
    (h : Travelled defs w s₀ p k sid j v)
    (hevent : activateEvent spawn x y m p e v = .ok (u, v')) :
    Kept defs v v' ∧ ∃ j', eventJourney go x y j e = some j' ∧
      Travelled defs w s₀ p k sid j' v' := by
  rcases activateEvent_eq_ok hevent with ⟨hcell, hchange⟩ | ⟨hcell, rfl⟩
  · simp only [mapEventChangeMap, Exec.bind_eq_ok, Exec.need_eq_ok, Exec.pure_eq_ok] at hchange
    obtain ⟨id, _, ⟨hid, rfl⟩, x', _, ⟨hx, rfl⟩, y', _, ⟨hy, rfl⟩, suppress, _, ⟨hsuppress, rfl⟩,
      _, _, hcall, -, rfl⟩ := hchange
    obtain rfl := Option.some.inj (hy.symm.trans hsuppress)
    obtain ⟨hkept, j', hj', h'⟩ := hspawn id x' y' y' j v _ _ h hcall
    refine ⟨hkept, j', ?_, h'⟩
    rw [eventJourney, if_pos hcell, hid, hx, hy]
    exact hj'
  · exact ⟨Kept.refl _, j, if_neg hcell, h⟩

/-- The loop over the events. -/
theorem forEach (hspawn : Makes defs w s₀ p k sid spawn go) {events : List MapEvent}
    (h : Travelled defs w s₀ p k sid j v)
    (hloop : Exec.forEach events (activateEvent spawn x y m p) v = .ok (u, v')) :
    Kept defs v v' ∧ ∃ j', events.foldlM (eventJourney go x y) j = some j' ∧
      Travelled defs w s₀ p k sid j' v' := by
  induction events generalizing v j with
  | nil =>
    obtain ⟨-, rfl⟩ := Exec.pure_eq_ok.mp hloop
    exact ⟨Kept.refl _, j, rfl, h⟩
  | cons e events ih =>
    rw [Exec.forEach_cons] at hloop
    obtain ⟨_, v₁, hevent, hrest⟩ := Exec.bind_eq_ok.mp hloop
    obtain ⟨hkept, j₁, hj₁, h₁⟩ := h.event hspawn hevent
    obtain ⟨hkept', j', hj', h'⟩ := ih h₁ hrest
    refine ⟨hkept.trans hkept', j', ?_, h'⟩
    rw [List.foldlM_cons, hj₁]
    exact hj'

/-- **The events of the cell** where the player is. -/
theorem trigger (hw : Sound defs w) (hspawn : Makes defs w s₀ p k sid spawn go)
    (h : Travelled defs w s₀ p k sid j v) (hbase : defs.loaders[j.place.map]? = some base)
    {suppress : Bool}
    (htrigger : triggerEvents (mapEventActivate defs spawn) p x y suppress v = .ok (u, v')) :
    Kept defs v v' ∧ ∃ j', (if suppress then some j else eventsJourney go x y base j) = some j' ∧
      Travelled defs w s₀ p k sid j' v' := by
  have hv := h.kept.sound hw
  rcases triggerEvents_eq_ok htrigger with ⟨rfl, rfl⟩ | ⟨rfl, player, m, hp, hm, hactivate⟩
  · exact ⟨Kept.refl _, j, rfl, h⟩
  · obtain ⟨player', _, hp', hm', htile, -⟩ := h.placed
    obtain rfl := Option.some.inj (hp.symm.trans hp')
    obtain rfl := Option.some.inj (hm.symm.trans hm')
    obtain ⟨map, base', hmap, hbase', hframe, -⟩ := hv.tile _ m htile
    obtain rfl := Option.some.inj (hbase.symm.trans hbase')
    obtain ⟨i, v₁, v₂, hi, hloads, hloop, hfree⟩ := mapEventActivate_calls hv hmap hactivate
    obtain ⟨hkept, j', hj', h'⟩ :=
      (h.congr hloads.kept hloads.still.scene (hloads.tiles_eq hi)).forEach hspawn hloop
    obtain ⟨hkept', hstill, htiles⟩ := mapEventArgsFree_eq_ok hv hmap hloads hkept hfree
    rw [events_of_frame hframe] at hj'
    obtain ⟨player, _, hp₂, hm₂, htile₂, hxy₂⟩ := h'.placed
    refine ⟨hkept', j', hj', ⟨h.kept.trans hkept', hstill.scene ▸ h'.way, ?_, htiles ▸ h'.tiles⟩⟩
    exact ⟨player, _, (congrFun (congrArg Scene.player hstill.scene) p).trans hp₂, hm₂,
      htiles ▸ htile₂, hxy₂⟩

/-- The end of a move that has found its cell. -/
theorem moveTo (hw : Sound defs w) (hspawn : Makes defs w s₀ p k sid spawn go)
    (h : Travelled defs w s₀ p k sid j v) (hbase : defs.loaders[j.place.map]? = some base)
    (hp : v.players.get p = some player) {suppress : Bool}
    (hmove : World.moveTo (mapEventActivate defs spawn) p x y suppress v = .ok (u, v')) :
    Kept defs v v' ∧ ∃ j', (if suppress then some { j with place := ⟨j.place.map, x, y⟩ }
      else eventsJourney go x y base { j with place := ⟨j.place.map, x, y⟩ }) = some j' ∧
        Travelled defs w s₀ p k sid j' v' := by
  obtain ⟨v₁, htrigger, hannounce⟩ := moveTo_eq_ok hp hmove
  have hplaced := h.place (x := x) (y := y) hp
  obtain ⟨hkept, j', hj', h'⟩ := hplaced.trigger hw hspawn hbase htrigger
  obtain ⟨player', m', session', haboard⟩ := OnWay.aboard h'.way
  have hset : Kept defs v (v.setPlayer p { player with x := x, y := y }) := Kept.setPlayer p _
  rcases announce_eq_ok haboard.player_eq haboard.map_eq hannounce with ⟨-, rfl⟩ |
    ⟨map, id, -, -, rfl⟩
  · exact ⟨hset.trans hkept, j', hj', h'⟩
  · exact ⟨(hset.trans hkept).trans (Kept.tellAll _ _), j', hj', h'.emit _⟩

/-- **The arrival on a map**: the player is on the map, at its old coordinates, and if these
and the new ones are on the maps they belong to, the move goes on. -/
theorem arrives {activate : ℤ → ℤ → ℕ → ℕ → Exec World Unit} (hw : Sound defs w)
    (h : Travelled defs w s₀ p k sid j v) (htile : v.tiles i = some n)
    (hbase : defs.loaders[i]? = some base) (hold : defs.loaders[j.place.map]? = some old)
    {suppress r : Bool}
    (hmove : playerMoveWith defs activate p x y ⟨suppress, true, some n⟩ v = .ok (r, v')) :
    ∃ v₃, Kept defs v v₃ ∧
      Travelled defs w s₀ p k sid { j with place := { j.place with map := i } } v₃ ∧
      r = (mapCheckBounds base x y && mapCheckBounds old j.place.x j.place.y) ∧
      (r = false ∧ v' = v₃ ∨ r = true ∧ ∃ mover, v₃.players.get p = some mover ∧
        World.moveTo activate p x y suppress v₃ = .ok ((), v')) := by
  -- what is known once the player is on the map
  have honto : ∀ {v₁ player mover m map},
      OnTarget defs p x y ⟨suppress, true, some n⟩ v v₁ player mover m map →
      Kept defs v v₁ ∧
        Travelled defs w s₀ p k sid { j with place := { j.place with map := i } } v₁ ∧
        m = n ∧ mover.x = j.place.x ∧ mover.y = j.place.y ∧
        mapCheckBounds map x y = mapCheckBounds base x y := by
    intro v₁ player mover m map htarget
    obtain ⟨hkept, h₁, hmover⟩ := h.changeMap hw htile htarget.player_eq htarget.changed
    obtain ⟨hm, hx, hy⟩ := hmover mover htarget.mover_eq
    obtain rfl := Option.some.inj (htarget.mover_map.symm.trans hm)
    obtain ⟨player', _, hp', -, -, hx', hy'⟩ := h.placed
    obtain rfl := Option.some.inj (htarget.player_eq.symm.trans hp')
    obtain ⟨map', base', hmap', hbase', hframe, -⟩ :=
      (h₁.kept.sound hw).tile i m (hkept.tiles i m htile)
    obtain rfl := Option.some.inj (hbase.symm.trans hbase')
    obtain rfl := Option.some.inj (htarget.map_eq.symm.trans hmap')
    exact ⟨hkept, h₁, rfl, hx.trans hx', hy.trans hy', mapCheckBounds_of_frame hframe x y⟩
  -- the cell it was on, and the map of that cell
  have hleft : ∀ {v₂ : World} {oldMap : Map} {player : Player} {o : ℕ}, Kept defs v v₂ →
      v.players.get p = some player → player.map = some o → v₂.maps.get o = some oldMap →
      ∀ a b, mapCheckBounds oldMap a b = mapCheckBounds old a b := by
    intro v₂ oldMap player o hkept hp ho hget a b
    obtain ⟨player', _, hp', ho', htile', -⟩ := h.placed
    obtain rfl := Option.some.inj (hp.symm.trans hp')
    obtain rfl := Option.some.inj (ho.symm.trans ho')
    obtain ⟨oldMap', old', hget', hold', hframe, -⟩ :=
      (hkept.sound (h.kept.sound hw)).tile _ o (hkept.tiles _ o htile')
    obtain rfl := Option.some.inj (hold.symm.trans hold')
    obtain rfl := Option.some.inj (hget.symm.trans hget')
    exact mapCheckBounds_of_frame hframe a b
  cases playerMoveWith_eq_ok hmove with
  | tooFar _ hnone => exact absurd hnone (Option.some_ne_none n)
  | taken _ _ _ hoverlap => exact absurd hoverlap (by simp)
  | outOfBounds htarget hout =>
    obtain ⟨hkept, h₁, -, -, -, hbounds⟩ := honto htarget
    refine ⟨_, hkept, h₁, ?_, Or.inl ⟨rfl, rfl⟩⟩
    rw [← hbounds, hout, Bool.false_and]
  | stuck htarget _ htoggle _ ho hget hout =>
    obtain ⟨hkept, h₁, -, hx, hy, -⟩ := honto htarget
    obtain ⟨hkept', hscene, -⟩ := toggleCoord_scene defs htoggle
    have hall := hkept.trans hkept'
    rw [hleft hall htarget.player_eq ho hget, hx, hy] at hout
    refine ⟨_, hall, h₁.congr hkept' hscene (toggleCoord_tiles htoggle), ?_, Or.inl ⟨rfl, rfl⟩⟩
    rw [hout, Bool.and_false]
  | @moved v₁ v₂ v₃ _ player mover m map disabled htarget hin htoggle _ henable hrest =>
    obtain ⟨hkept, h₁, -, hx, hy, hbounds⟩ := honto htarget
    obtain ⟨hkept₂, hscene₂, hplayers₂⟩ := toggleCoord_scene defs htoggle
    obtain ⟨hkept₃, hscene₃, hplayers₃⟩ := enableOldCoord_scene defs henable
    have hp₂ : v₂.players.get p = some mover := hplayers₂ ▸ htarget.mover_eq
    obtain ⟨player', o, hp', ho, -⟩ := h.placed
    obtain rfl := Option.some.inj (htarget.player_eq.symm.trans hp')
    rw [ho] at henable
    obtain ⟨htiles₃, oldMap, hget, hon⟩ := enableOldCoord_eq_ok_true hp₂ henable
    rw [hleft (hkept.trans hkept₂) htarget.player_eq ho hget, hx, hy] at hon
    refine ⟨v₃, (hkept.trans hkept₂).trans hkept₃, ?_, ?_,
      Or.inr ⟨rfl, mover, hplayers₃ ▸ hp₂, hrest⟩⟩
    · exact (h₁.congr hkept₂ hscene₂ (toggleCoord_tiles htoggle)).congr hkept₃ hscene₃ htiles₃
    · rw [← hbounds, hin, hon, Bool.true_and]

/-- **A move onto a map.** -/
theorem enter (hw : Sound defs w) (hspawn : Makes defs w s₀ p k sid spawn go)
    (h : Travelled defs w s₀ p k sid j v) (htile : v.tiles i = some n)
    (hbase : defs.loaders[i]? = some base) (hold : defs.loaders[j.place.map]? = some old)
    {suppress r : Bool} (hmove : playerMoveWith defs (mapEventActivate defs spawn) p x y
      ⟨suppress, true, some n⟩ v = .ok (r, v')) :
    Kept defs v v' ∧ ∃ j', enterJourney go base old i x y suppress j = some j' ∧
      Travelled defs w s₀ p k sid j' v' := by
  obtain ⟨v₃, hkept, h₃, hr, ⟨rfl, rfl⟩ | ⟨rfl, mover, hp, hrest⟩⟩ :=
    h.arrives hw htile hbase hold hmove
  · refine ⟨hkept, _, ?_, h₃⟩
    rw [enterJourney, ← hr, if_neg (by simp)]
  · obtain ⟨hkept', j', hj', h'⟩ := h₃.moveTo hw hspawn hbase hp hrest
    refine ⟨hkept.trans hkept', j', ?_, h'⟩
    rw [enterJourney, ← hr, if_pos rfl]
    exact hj'

end Events

/-! ## Spawns and plain moves -/

/-- What a spawn does around the move it makes. -/
theorem sent {move : ℕ → ℤ → ℤ → MoveArgs → Exec World Bool} {id suppress r : ℤ}
    (hw : Sound defs w) (h : Travelled defs w s₀ p k sid j v)
    (hspawn : mapSpawnPlayerWith defs move id p x y suppress v = .ok (r, v')) :
    v' = v ∧ (id < 0 ∨ (defs.count : ℤ) < id) ∨
      ∃ (i n : ℕ) (base : Map) (v₂ : World) (moved : Bool) (v₃ : World),
        id = i ∧ i < defs.count ∧ defs.loaders[i]? = some base ∧ v₂.tiles i = some n ∧
        Kept defs v v₂ ∧ Travelled defs w s₀ p k sid { j with visited := i :: j.visited } v₂ ∧
        move p x y ⟨suppress % 2 = 1, true, some n⟩ v₂ = .ok (moved, v₃) ∧
        sendPositions n p v₃ = .ok ((), v') ∧ SpawnCalls defs id p x y suppress n v v₂ := by
  have hv := h.kept.sound hw
  obtain ⟨player, m, session, haboard⟩ := OnWay.aboard h.way
  rcases mapSpawnPlayerWith_calls hv haboard.player_eq haboard.session_eq haboard.get_eq hspawn with
    ⟨-, rfl, hbad⟩ | ⟨-, i, n, _, _, v₁, v₂, packet, moved, v₃, rfl, hi, hloads, hloads', -,
      hmove, hpositions, hcalls⟩
  · exact Or.inl ⟨rfl, hbad⟩
  · have h₂ := ((h.load hloads).congr hloads'.kept hloads'.scene_eq
      (hloads'.tiles_eq hloads.tile_eq)).emit [(session.fd, .packet packet)]
    have hkept : Kept defs v (v₂.write session.fd (.packet packet)) :=
      (hloads.kept.trans hloads'.kept).trans (Kept.write _ _)
    obtain ⟨_, base, -, hbase, -⟩ := (hkept.sound hv).tile i n hloads'.tile_eq
    exact Or.inr ⟨i, n, base, v₂.write session.fd (.packet packet), moved, v₃, rfl, hi, hbase,
      hloads'.tile_eq, hkept, h₂, hmove, hpositions, hcalls⟩

/-- **A spawn** makes its journey. -/
theorem spawn (hw : Sound defs w) (fuel : ℕ) :
    Makes defs w s₀ p k sid (mapSpawnPlayer defs fuel) (spawnJourney defs fuel) := by
  induction fuel with
  | zero =>
    intro id x y suppress j v v' r _ h
    rw [mapSpawnPlayer, Exec.stop_eq_ok] at h
    exact h.elim
  | succ fuel ih =>
    intro id x y suppress j v v' r h hspawn
    rw [mapSpawnPlayer_succ] at hspawn
    show Kept defs v v' ∧ ∃ j', spawnJourneyWith defs (spawnJourney defs fuel) j id x y suppress
      = some j' ∧ Travelled defs w s₀ p k sid j' v'
    rcases h.sent hw hspawn with ⟨rfl, hbad⟩ | ⟨i, n, base, v₂, moved, v₃, rfl, hi, hbase, htile,
      hkept, h₂, hmove, hpositions, -⟩
    · exact ⟨Kept.refl _, j, if_pos hbad, h⟩
    · obtain ⟨_, o, -, -, htile', -⟩ := h₂.placed
      obtain ⟨_, old, -, hold, -⟩ := (h₂.kept.sound hw).tile _ o htile'
      obtain ⟨hkept', j', hj', h₃⟩ := h₂.enter hw ih htile hbase hold hmove
      obtain ⟨player', m', session', haboard'⟩ := OnWay.aboard h₃.way
      simp only [sendPositions, Exec.bind_eq_ok, derefMap_eq_ok] at hpositions
      obtain ⟨map₃, _, ⟨-, rfl⟩, hpositions⟩ := hpositions
      rw [forEach_sendPosition haboard'.fdOf_eq hpositions]
      refine ⟨(hkept.trans hkept').trans (Kept.emit _), j', ?_, h₃.emit _⟩
      rw [spawnJourneyWith, if_neg (by omega), Int.toNat_natCast, hbase, Option.bind_some]
      rw [show defs.loaders[j.place.map]? = some old from hold, Option.bind_some]
      exact hj'

/-- **A plain move** is refused, or makes the journey of the events of its target. -/
theorem walk {fuel : ℕ} {r : Bool} (hw : Sound defs w) (h : Travelled defs w s₀ p k sid j v)
    (hbase : defs.loaders[j.place.map]? = some base)
    (hmove : playerMove defs fuel p x y .zero v = .ok (r, v')) :
    (¬∃ player m map, Goes v p x y player m map) ∧ Travelled defs w s₀ p k sid j v' ∨
      (∃ player m map, Goes v p x y player m map) ∧
        ∃ j', eventsJourney (spawnJourney defs fuel) x y base
          { j with place := ⟨j.place.map, x, y⟩ } = some j' ∧
            Travelled defs w s₀ p k sid j' v' := by
  cases playerMoveWith_eq_ok hmove with
  | tooFar hp _ hfar =>
    refine Or.inl ⟨?_, h⟩
    rintro ⟨player, m, map, hgoes⟩
    obtain rfl := Option.some.inj (hp.symm.trans hgoes.player_eq)
    exact absurd (hgoes.near.symm.trans hfar) (by simp)
  | outOfBounds htarget hout =>
    obtain ⟨rfl, rfl⟩ := htarget.plain rfl
    refine Or.inl ⟨?_, h⟩
    rintro ⟨player, m, map, hgoes⟩
    obtain ⟨rfl, rfl⟩ := hgoes.inj htarget.mover_eq htarget.mover_map htarget.map_eq
    exact absurd (hgoes.bounds.symm.trans hout) (by simp)
  | taken htarget _ htaken =>
    obtain ⟨rfl, rfl⟩ := htarget.plain rfl
    refine Or.inl ⟨?_, h⟩
    rintro ⟨player, m, map, hgoes⟩
    obtain ⟨rfl, rfl⟩ := hgoes.inj htarget.mover_eq htarget.mover_map htarget.map_eq
    exact absurd (hgoes.walkable.symm.trans htaken) (by simp)
  | stuck htarget _ htoggle _ hold hget hout =>
    obtain ⟨rfl, rfl⟩ := htarget.plain rfl
    obtain ⟨hkept, hscene, -⟩ := toggleCoord_scene defs htoggle
    refine Or.inl ⟨?_, h.congr hkept hscene (toggleCoord_tiles htoggle)⟩
    rintro ⟨player, m, map, hgoes⟩
    obtain ⟨rfl, rfl⟩ := hgoes.inj htarget.mover_eq htarget.mover_map htarget.map_eq
    obtain rfl := Option.some.inj (hold.symm.trans htarget.mover_map)
    obtain ⟨map', hmap', hframe⟩ := hkept.maps _ _ htarget.map_eq
    obtain rfl := Option.some.inj (hget.symm.trans hmap')
    rw [mapCheckBounds_of_frame hframe] at hout
    exact absurd (hgoes.on_map.symm.trans hout) (by simp)
  | @moved v₁ v₂ v₃ _ player mover m map disabled htarget hin htoggle hgo henable hrest =>
    obtain ⟨rfl, rfl⟩ := htarget.plain rfl
    obtain rfl : disabled = true := hgo.resolve_right Bool.false_ne_true
    obtain ⟨map', hmap', -, hwalkable, rfl⟩ := toggleCoord_eq_ok_true htoggle
    obtain rfl := Option.some.inj (htarget.map_eq.symm.trans hmap')
    obtain ⟨hkept₂, hscene₂, -⟩ := toggleCoord_scene defs htoggle
    obtain ⟨hkept₃, hscene₃, hplayers₃⟩ := enableOldCoord_scene defs henable
    rw [htarget.mover_map] at henable
    have hp₂ : (v₁.setMap m (switchCoord map x y true)).players.get p = some mover :=
      htarget.mover_eq
    obtain ⟨htiles₃, old, hget, hon⟩ := enableOldCoord_eq_ok_true hp₂ henable
    obtain rfl := Option.some.inj ((Heap.get_set_self _ hmap').symm.trans hget)
    have h₃ := (h.congr hkept₂ hscene₂ rfl).congr hkept₃ hscene₃ htiles₃
    obtain ⟨-, j', hj', h'⟩ :=
      h₃.moveTo hw (spawn hw fuel) hbase (hplayers₃ ▸ htarget.mover_eq) hrest
    exact Or.inr ⟨⟨mover, m, map, htarget.mover_eq, htarget.mover_map, hmap', htarget.valid rfl,
      hin, hwalkable rfl, hon⟩, j', hj', h'⟩

end Travelled

end World
end MmoBackend
