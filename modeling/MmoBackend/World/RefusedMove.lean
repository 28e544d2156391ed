import MmoBackend.World.Effects

/-!
# Moves that are refused

`player_move` returns `0` in four places, and a caller takes that as "nothing
happened".  The first check is made before anything is done, but only when no map is
given; with a map the player has been put on it before the first check.  The
fourth, the release of the old cell, comes after the new cell was disabled.

So there are two ways to be refused and leave something behind: any refusal of a
move to another map, and a refusal of a plain move at the fourth place.  The fourth
place is reached by a player whose own position is not on its map, which is where a
record from the database can put it.  `playerMove_refused_iff` says that there are no
others.
-/

namespace MmoBackend

open Maps Player

namespace World

variable {defs : MapDefs} {w w' w₁ : World} {p m : ℕ} {player : Player}

/-! ## What is compared -/

/-- Every map has its bits, list of players and references, and every player its map,
position and references. -/
def SameState (w w' : World) : Prop :=
  (∀ m, (w'.maps.get m).map (fun map => (map.collision, map.players, map.refs))
    = (w.maps.get m).map fun map => (map.collision, map.players, map.refs)) ∧
  ∀ p, (w'.players.get p).map (fun player => (player.map, player.x, player.y, player.refs))
    = (w.players.get p).map fun player => (player.map, player.x, player.y, player.refs)

/-- When a move is not refused too late.  A plain move must not find a target it can
take while the player itself is off its map.  A move to another map must not be
refused at all. -/
def NotRefusedLate (defs : MapDefs) (w : World) (p : ℕ) (x y : ℤ) (args : MoveArgs) : Prop :=
  ∀ player, w.players.get p = some player →
    match args.map with
    | none =>
      (movementCheckValid player.maxMove player.x player.y x y = true ∧
        ∃ m map, player.map = some m ∧ w.maps.get m = some map ∧
          mapCheckBounds map x y = true ∧ mapCoordIsWalkable map x y = some true) →
      OnItsMap w player
    | some m =>
      OnItsMap w player ∧ ∀ map target, w.maps.get m = some map →
        tileOf defs w map.id = some target → mapCheckBounds target x y = true ∧
          (args.overlap = true ∨ mapCoordIsWalkable target x y = some true)

theorem sameState_refl (w : World) : SameState w w := ⟨fun _ => rfl, fun _ => rfl⟩

/-! ## What does not depend on the lists of players -/

/-- The size and the bits of a map. -/
def ground (map : Map) : ℤ × ℤ × BitGrid.Grid := (map.width, map.height, map.collision)

theorem mapCheckBounds_congr {map map' : Map} (h : ground map' = ground map) (x y : ℤ) :
    mapCheckBounds map' x y = mapCheckBounds map x y := by
  have hw : map'.width = map.width := (Prod.mk.inj h).1
  have hh : map'.height = map.height := (Prod.mk.inj (Prod.mk.inj h).2).1
  rw [mapCheckBounds, mapCheckBounds, hw, hh]

theorem mapCoordIsWalkable_congr {map map' : Map} (h : ground map' = ground map) (x y : ℤ) :
    mapCoordIsWalkable map' x y = mapCoordIsWalkable map x y := by
  have hc : map'.collision = map.collision := (Prod.mk.inj (Prod.mk.inj h).2).2
  rw [mapCoordIsWalkable, mapCoordIsWalkable, segmentAt, segmentAt, hc]

/-- A map without its list of players. -/
def unlisted (map : Map) : Map := { map with players := [] }

theorem ground_of_unlisted {map map' : Map} (h : unlisted map' = unlisted map) :
    ground map' = ground map := by
  have hground := congrArg ground h
  exact hground

/-- Of the maps, only the lists of players have changed. -/
structure Relisted (w w' : World) : Prop where
  tiles : w'.tiles = w.tiles
  next : w'.maps.next = w.maps.next
  maps : ∀ k, (w'.maps.get k).map unlisted = (w.maps.get k).map unlisted

namespace Relisted

theorem refl (w : World) : Relisted w w := ⟨rfl, rfl, fun _ => rfl⟩

theorem trans {w w₁ w₂ : World} (h : Relisted w w₁) (h' : Relisted w₁ w₂) : Relisted w w₂ :=
  ⟨h'.tiles.trans h.tiles, h'.next.trans h.next, fun k => (h'.maps k).trans (h.maps k)⟩

/-- A list of players is written. -/
theorem setPlayers {w : World} {m : ℕ} {map : Map} (hmap : w.maps.get m = some map)
    (players : List ℕ) : Relisted w (w.setMap m { map with players := players }) :=
  ⟨rfl, rfl, Heap.map_get_set hmap rfl⟩

theorem get {w w' : World} (h : Relisted w w') {k : ℕ} {map : Map}
    (hk : w.maps.get k = some map) :
    ∃ map', w'.maps.get k = some map' ∧ unlisted map' = unlisted map :=
  Option.map_eq_some_iff.mp ((h.maps k).trans (by rw [hk, Option.map_some]))

theorem get_back {w w' : World} (h : Relisted w w') {k : ℕ} {map' : Map}
    (hk : w'.maps.get k = some map') :
    ∃ map, w.maps.get k = some map ∧ unlisted map = unlisted map' :=
  Option.map_eq_some_iff.mp ((h.maps k).symm.trans (by rw [hk, Option.map_some]))

theorem tileOf_back {w w' : World} (h : Relisted w w') {id : ℤ} {map' : Map}
    (hid : tileOf defs w' id = some map') :
    ∃ map, tileOf defs w id = some map ∧ unlisted map = unlisted map' := by
  rw [tileOf, h.tiles] at hid
  rw [tileOf]
  cases htile : w.tiles id.toNat with
  | some m =>
    rw [htile] at hid
    exact h.get_back hid
  | none =>
    rw [htile] at hid
    exact ⟨map', hid, rfl⟩

end Relisted

/-! ## The change of the map -/

/-- Leaving a map changes lists of players, and of the player only its references. -/
theorem mapRemovePlayer_relisted {old : Option ℕ} {u : Unit}
    (hp : w.players.get p = some player) (h : mapRemovePlayer defs old p w = .ok (u, w₁)) :
    Relisted w w₁ ∧ ∃ left, w₁.players.get p = some left ∧ left.x = player.x ∧
      left.y = player.y := by
  cases old with
  | none =>
    obtain ⟨-, rfl⟩ := Exec.pure_eq_ok.mp h
    exact ⟨Relisted.refl _, player, hp, rfl, rfl⟩
  | some old =>
    obtain ⟨map, player', id, hmap, hp', -, ⟨-, rfl⟩ | ⟨-, -, rfl⟩⟩ := mapRemovePlayer_eq_ok h
    · exact ⟨Relisted.refl _, player, hp, rfl, rfl⟩
    · obtain rfl := Option.some.inj (hp.symm.trans hp')
      have hlist := Relisted.setPlayers hmap (map.players.erase p)
      exact ⟨⟨hlist.tiles, hlist.next, hlist.maps⟩, _, Heap.get_set_self _ hp, rfl, rfl⟩

/-- **The change of the map** keeps the ground of every map and the position of the
player, and counts a reference to the map it loads. -/
theorem changeMap_eq_ok {u : Unit} (hp : w.players.get p = some player)
    (h : changeMap defs player.map p (some m) w = .ok (u, w₁)) :
    (∀ k map, w.maps.get k = some map →
      ∃ map₁, w₁.maps.get k = some map₁ ∧ ground map₁ = ground map) ∧
    ∃ mover, w₁.players.get p = some mover ∧ mover.x = player.x ∧ mover.y = player.y ∧
      ∀ k, mover.map = some k → ∃ named target map₁, w.maps.get m = some named ∧
        tileOf defs w named.id = some target ∧ w₁.maps.get k = some map₁ ∧
        ground map₁ = ground target ∧ ∀ map, w.maps.get k = some map → map.refs < map₁.refs := by
  simp only [changeMap, Exec.bind_eq_ok] at h
  obtain ⟨⟨⟩, wr, hremove, hadd⟩ := h
  obtain ⟨hrelisted, left, hleft, hx, hy⟩ := mapRemovePlayer_relisted hp hremove
  obtain ⟨listed, left', loaded, w₃, hlisted, hleft', hload, mover, hmover, rfl⟩ :=
    mapAddPlayer_eq_ok hadd
  obtain rfl := Option.some.inj (hleft.symm.trans hleft')
  obtain ⟨named, hnamed, hid⟩ := hrelisted.get_back hlisted
  replace hid : named.id = listed.id := by simpa [unlisted] using congrArg Map.id hid
  generalize hw₂ : (wr.setPlayer p { left with refs := left.refs + 1 }).setMap m
    { listed with players := p :: listed.players } = w₂ at hload
  have hrelisted₂ : Relisted w w₂ := by
    have hlist := Relisted.setPlayers hlisted (p :: listed.players)
    exact hrelisted.trans (hw₂ ▸ ⟨hlist.tiles, hlist.next, hlist.maps⟩)
  have hmover₂ : w₂.players.get p = some { left with refs := left.refs + 1 } := by
    rw [← hw₂]
    exact Heap.get_set_self _ hleft
  rcases mapLoad_eq_ok hload with ⟨-, rfl, rfl⟩ | ⟨i, k, tile, hi, -, rfl, hloads⟩
  · -- the map has no id the server knows: the player ends without a map
    refine ⟨fun k map hk => ?_, _, Heap.get_set_self _ hmover, ?_, ?_, fun k hk => ?_⟩
    · obtain ⟨map₁, hmap₁, heq⟩ := hrelisted₂.get hk
      exact ⟨map₁, hmap₁, ground_of_unlisted heq⟩
    · obtain rfl := Option.some.inj (hmover₂.symm.trans hmover)
      exact hx
    · obtain rfl := Option.some.inj (hmover₂.symm.trans hmover)
      exact hy
    · exact absurd hk.symm (Option.some_ne_none k)
  · rw [hloads.players_eq] at hmover
    obtain rfl := Option.some.inj (hmover₂.symm.trans hmover)
    refine ⟨fun j map hj => ?_, _, Heap.get_set_self _ (hloads.players_eq ▸ hmover), hx, hy,
      fun j hj => ?_⟩
    · obtain ⟨map₂, hmap₂, heq⟩ := hrelisted₂.get hj
      rcases hloads.get_of_get hmap₂ with ⟨rfl, rfl⟩ | ⟨-, hmap₃⟩
      · exact ⟨_, hloads.get_eq, (ground_of_unlisted heq :)⟩
      · exact ⟨map₂, hmap₃, ground_of_unlisted heq⟩
    · obtain rfl := Option.some.inj hj
      obtain ⟨target, htarget, heq⟩ := hrelisted₂.tileOf_back hloads.tileOf_eq
      refine ⟨named, target, _, hnamed, by rw [hid, hi]; exact htarget, hloads.get_eq,
        (ground_of_unlisted heq).symm, fun map hmap => ?_⟩
      obtain ⟨map₂, hmap₂, heq₂⟩ := hrelisted₂.get hmap
      rcases hloads.get_of_get hmap₂ with ⟨-, rfl⟩ | ⟨hne, -⟩
      · have hrefs : map₂.refs = map.refs := by simpa [unlisted] using congrArg Map.refs heq₂
        dsimp only
        omega
      · exact absurd rfl hne

/-! ## The five ends -/

section Ends

variable {activate : ℤ → ℤ → ℕ → ℕ → Exec World Unit} {x y : ℤ} {args : MoveArgs} {r : Bool}

/-- The old cell was released, so the player was on its map. -/
theorem onItsMap_of_enableOldCoord {mover : Player} {w₂ : World}
    (hmover : w₁.players.get p = some mover) (hx : mover.x = player.x) (hy : mover.y = player.y)
    (hmaps : ∀ k map, w.maps.get k = some map → ∃ map₁, w₁.maps.get k = some map₁ ∧
      ∀ x y, mapCheckBounds map₁ x y = mapCheckBounds map x y)
    (h : enableOldCoord p player.map w₁ = .ok (true, w₂)) : OnItsMap w player := by
  intro k map hk hmap
  rw [hk] at h
  simp only [enableOldCoord, Exec.bind_eq_ok, derefPlayer_eq_ok] at h
  obtain ⟨mover', _, ⟨hmover', rfl⟩, h⟩ := h
  obtain rfl := Option.some.inj (hmover.symm.trans hmover')
  obtain ⟨map₁, hmap₁, hbounds, -⟩ := toggleCoord_eq_ok_true h
  obtain ⟨map₁', hmap₁', hsame⟩ := hmaps k map hmap
  obtain rfl := Option.some.inj (hmap₁.symm.trans hmap₁')
  rw [← hsame, ← hx, ← hy]
  exact hbounds

/-- Disabling a free cell shows. -/
theorem not_sameState_switchCoord {map : Map} (hmap : w.maps.get m = some map)
    (hbounds : mapCheckBounds map x y = true) (hfree : mapCoordIsWalkable map x y = some true) :
    ¬SameState w (w.setMap m (switchCoord map x y true)) := by
  intro hsame
  have hm := hsame.1 m
  rw [maps_setMap, Heap.get_set_self _ hmap, hmap, Option.map_some, Option.map_some,
    Option.some.injEq, Prod.mk.injEq] at hm
  obtain ⟨hx, -, hy, -⟩ := mem_cells.mp (show (x, y) ∈ cells map from hbounds)
  have htaken := mapCoordIsWalkable_switchCoord hx hy hfree true
  have hground : ground (switchCoord map x y true) = ground map := by
    rw [ground, ground, hm.1]
    rfl
  rw [mapCoordIsWalkable_congr hground, hfree] at htaken
  exact absurd htaken (by simp)

/-- A plain move whose target cell is not free on the map is not refused late. -/
theorem OnTarget.notRefusedLate {k : ℕ} {map : Map}
    (h : OnTarget defs p x y args w w player player k map) (hargs : args.map = none)
    (hblocked : mapCheckBounds map x y = true → mapCoordIsWalkable map x y ≠ some true) :
    NotRefusedLate defs w p x y args := by
  intro player' hplayer
  rw [hargs]
  rintro ⟨-, j, map', hj, hmap, hbounds, hfree⟩
  obtain rfl := Option.some.inj (h.player_eq.symm.trans hplayer)
  obtain rfl := Option.some.inj (h.mover_map.symm.trans hj)
  obtain rfl := Option.some.inj (h.map_eq.symm.trans hmap)
  exact absurd hfree (hblocked hbounds)

/-- **Plain moves.**  Only a refusal at the old cell leaves something behind. -/
theorem MoveResult.plain_iff (hargs : args.map = none)
    (h : MoveResult defs activate p x y args w r w') :
    (r = false → SameState w w') ↔ NotRefusedLate defs w p x y args := by
  cases h with
  | tooFar hp _ hfar =>
    refine iff_of_true (fun _ => sameState_refl w) fun player hplayer => ?_
    rw [hargs]
    rintro ⟨hvalid, -⟩
    obtain rfl := Option.some.inj (hp.symm.trans hplayer)
    exact absurd hvalid (by simp [hfar])
  | outOfBounds htarget hout =>
    obtain ⟨rfl, rfl⟩ := htarget.plain hargs
    refine iff_of_true (fun _ => sameState_refl _) (htarget.notRefusedLate hargs fun hin => ?_)
    exact absurd hin (by simp [hout])
  | taken htarget _ htaken _ =>
    obtain ⟨rfl, rfl⟩ := htarget.plain hargs
    refine iff_of_true (fun _ => sameState_refl _) (htarget.notRefusedLate hargs fun _ => ?_)
    simp [htaken]
  | @stuck _ _ _ _ k old map oldMap disabled htarget hbounds htoggle _ hold holdMap hout =>
    obtain ⟨rfl, rfl⟩ := htarget.plain hargs
    obtain rfl := Option.some.inj (htarget.mover_map.symm.trans hold)
    obtain ⟨map₁, hmap₁, -, hsame⟩ := toggleCoord_get htoggle htarget.map_eq
    obtain rfl := Option.some.inj (holdMap.symm.trans hmap₁)
    rw [hsame] at hout
    cases disabled with
    | false =>
      obtain ⟨rfl, map', hmap', hwhy⟩ := toggleCoord_eq_ok_false htoggle
      obtain rfl := Option.some.inj (htarget.map_eq.symm.trans hmap')
      refine iff_of_true (fun _ => sameState_refl _) (htarget.notRefusedLate hargs fun _ => ?_)
      rcases hwhy with hwhy | ⟨-, htaken⟩
      · exact absurd hbounds (by simp [hwhy])
      · simp [htaken]
    | true =>
      obtain ⟨map', hmap', -, hfree, rfl⟩ := toggleCoord_eq_ok_true htoggle
      obtain rfl := Option.some.inj (htarget.map_eq.symm.trans hmap')
      refine iff_of_false
        (fun hsame => not_sameState_switchCoord htarget.map_eq hbounds (hfree rfl) (hsame rfl))
        fun hlate => ?_
      have honmap := hlate _ htarget.player_eq
      rw [hargs] at honmap
      have hin := honmap ⟨htarget.valid hargs, _, _, htarget.mover_map, htarget.map_eq, hbounds,
        hfree rfl⟩ _ _ htarget.mover_map htarget.map_eq
      exact absurd hin (by simp [hout])
  | moved htarget _ htoggle _ henable _ =>
    obtain ⟨rfl, rfl⟩ := htarget.plain hargs
    refine iff_of_true (fun hfalse => absurd hfalse (by simp)) fun player hplayer => ?_
    rw [hargs]
    rintro -
    obtain rfl := Option.some.inj (htarget.player_eq.symm.trans hplayer)
    refine onItsMap_of_enableOldCoord ?_ rfl rfl (fun k map hmap => ?_) henable
    · obtain ⟨_, _, _, _, rfl⟩ := toggleCoord_eq_ok htoggle
      exact htarget.player_eq
    · obtain ⟨map₁, hmap₁, -, hsame⟩ := toggleCoord_get htoggle hmap
      exact ⟨map₁, hmap₁, hsame⟩

/-- A map that has more references than before shows. -/
theorem not_sameState_of_refs {k : ℕ} {map₁ : Map} (hmap₁ : w₁.maps.get k = some map₁)
    (hrefs : ∀ map, w.maps.get k = some map → map.refs < map₁.refs) : ¬SameState w w₁ := by
  intro hsame
  have hk := hsame.1 k
  rw [hmap₁, Option.map_some] at hk
  obtain ⟨map, hmap, heq⟩ := Option.map_eq_some_iff.mp hk.symm
  have hlt := hrefs map hmap
  rw [Prod.mk.injEq, Prod.mk.injEq] at heq
  omega

/-- What is known once the player is on the map it was to be moved to. -/
theorem OnTarget.change {mover : Player} {k : ℕ} {map : Map}
    (h : OnTarget defs p x y args w w₁ player mover k map) (hargs : args.map = some m) :
    (∀ j map, w.maps.get j = some map → ∃ map₁, w₁.maps.get j = some map₁ ∧
      ground map₁ = ground map) ∧ mover.x = player.x ∧ mover.y = player.y ∧
    ∃ named target, w.maps.get m = some named ∧ tileOf defs w named.id = some target ∧
      ground map = ground target ∧ ∀ old, w.maps.get k = some old → old.refs < map.refs := by
  have hchanged := h.changed
  rw [hargs] at hchanged
  obtain ⟨hmaps, mover', hmover', hx, hy, hk⟩ := changeMap_eq_ok h.player_eq hchanged
  obtain rfl := Option.some.inj (h.mover_eq.symm.trans hmover')
  obtain ⟨named, target, map₁, hnamed, htile, hmap₁, hground, hrefs⟩ := hk k h.mover_map
  obtain rfl := Option.some.inj (h.map_eq.symm.trans hmap₁)
  exact ⟨hmaps, hx, hy, named, target, hnamed, htile, hground, hrefs⟩

/-- A refusal on that map shows, since the reference to it is kept. -/
theorem OnTarget.not_sameState {mover : Player} {k : ℕ} {map map₂ : Map} {w₂ : World}
    (h : OnTarget defs p x y args w w₁ player mover k map) (hargs : args.map = some m)
    (hmap₂ : w₂.maps.get k = some map₂) (hrefs₂ : map₂.refs = map.refs) : ¬SameState w w₂ := by
  obtain ⟨-, -, -, _, _, -, -, -, hrefs⟩ := h.change hargs
  exact not_sameState_of_refs hmap₂ fun old hold => hrefs₂ ▸ hrefs old hold

/-- The map a player leaves is in memory, since the player is taken off it. -/
theorem OnTarget.left {mover : Player} {j k : ℕ} {map : Map}
    (h : OnTarget defs p x y args w w₁ player mover k map) (hargs : args.map = some m)
    (hold : player.map = some j) : ∃ oldMap, w.maps.get j = some oldMap := by
  have hchanged := h.changed
  rw [hargs, hold] at hchanged
  simp only [changeMap, Exec.bind_eq_ok] at hchanged
  obtain ⟨⟨⟩, _, hremove, -⟩ := hchanged
  obtain ⟨oldMap, _, _, holdMap, -⟩ := mapRemovePlayer_eq_ok hremove
  exact ⟨oldMap, holdMap⟩

/-- **Moves to another map.**  No refusal leaves the state as it was. -/
theorem MoveResult.map_iff (hargs : args.map = some m)
    (h : MoveResult defs activate p x y args w r w') :
    (r = false → SameState w w') ↔ NotRefusedLate defs w p x y args := by
  cases h with
  | tooFar _ hnone => exact absurd (hargs.symm.trans hnone) (Option.some_ne_none m)
  | outOfBounds htarget hout =>
    obtain ⟨-, -, -, named, target, hnamed, htile, hground, -⟩ := htarget.change hargs
    refine iff_of_false (fun hsame => htarget.not_sameState hargs htarget.map_eq rfl (hsame rfl))
      fun hlate => ?_
    have hall := hlate _ htarget.player_eq
    rw [hargs] at hall
    have hin := (hall.2 named target hnamed htile).1
    rw [← mapCheckBounds_congr hground] at hin
    exact absurd hin (by simp [hout])
  | taken htarget _ htaken hoverlap =>
    obtain ⟨-, -, -, named, target, hnamed, htile, hground, -⟩ := htarget.change hargs
    refine iff_of_false (fun hsame => htarget.not_sameState hargs htarget.map_eq rfl (hsame rfl))
      fun hlate => ?_
    have hall := hlate _ htarget.player_eq
    rw [hargs] at hall
    rcases (hall.2 named target hnamed htile).2 with hyes | hfree
    · exact absurd hyes (by simp [hoverlap])
    · rw [← mapCoordIsWalkable_congr hground] at hfree
      exact absurd (htaken.symm.trans hfree) (by simp)
  | stuck htarget _ htoggle _ hold holdMap hout =>
    obtain ⟨hmaps, hx, hy, -⟩ := htarget.change hargs
    obtain ⟨map₂, hmap₂, hrefs₂, -⟩ := toggleCoord_get htoggle htarget.map_eq
    refine iff_of_false (fun hsame => htarget.not_sameState hargs hmap₂ hrefs₂ (hsame rfl))
      fun hlate => ?_
    have hall := hlate _ htarget.player_eq
    rw [hargs] at hall
    obtain ⟨oldMap₀, holdMap₀⟩ := htarget.left hargs hold
    obtain ⟨oldMap₁, holdMap₁, hground⟩ := hmaps _ _ holdMap₀
    obtain ⟨oldMap₂, holdMap₂, -, hsame⟩ := toggleCoord_get htoggle holdMap₁
    obtain rfl := Option.some.inj (holdMap.symm.trans holdMap₂)
    have hin := hall.1 _ _ hold holdMap₀
    rw [hsame, mapCheckBounds_congr hground, hx, hy] at hout
    exact absurd hin (by simp [hout])
  | moved htarget hbounds htoggle hgo henable _ =>
    obtain ⟨hmaps, hx, hy, named, target, hnamed, htile, hground, -⟩ := htarget.change hargs
    refine iff_of_true (fun hfalse => absurd hfalse (by simp)) fun player hplayer => ?_
    rw [hargs]
    obtain rfl := Option.some.inj (htarget.player_eq.symm.trans hplayer)
    refine ⟨onItsMap_of_enableOldCoord ?_ hx hy (fun k map hmap => ?_) henable,
      fun named' target' hnamed' htile' => ?_⟩
    · obtain ⟨_, _, _, _, rfl⟩ := toggleCoord_eq_ok htoggle
      exact htarget.mover_eq
    · obtain ⟨map₁, hmap₁, hground₁⟩ := hmaps k map hmap
      obtain ⟨map₂, hmap₂, -, hsame⟩ := toggleCoord_get htoggle hmap₁
      exact ⟨map₂, hmap₂, fun x y => (hsame x y).trans (mapCheckBounds_congr hground₁ x y)⟩
    · obtain rfl := Option.some.inj (hnamed.symm.trans hnamed')
      obtain rfl := Option.some.inj (htile.symm.trans htile')
      refine ⟨(mapCheckBounds_congr hground x y).symm.trans hbounds, ?_⟩
      rcases hgo with rfl | hoverlap
      · obtain ⟨map', hmap', -, hfree, -⟩ := toggleCoord_eq_ok_true htoggle
        obtain rfl := Option.some.inj (htarget.map_eq.symm.trans hmap')
        exact Or.inr ((mapCoordIsWalkable_congr hground x y).symm.trans (hfree rfl))
      · exact Or.inl hoverlap

end Ends

/-! ## Refused moves -/

/-- **A refused move changes nothing exactly when it is not refused late.**  For every
state, every player and every call that returns. -/
theorem playerMove_refused_iff {fuel : ℕ} {x y : ℤ} {args : MoveArgs} {r : Bool}
    (h : playerMove defs fuel p x y args w = .ok (r, w')) :
    (r = false → SameState w w') ↔ NotRefusedLate defs w p x y args := by
  cases hargs : args.map with
  | none => exact (playerMoveWith_eq_ok h).plain_iff hargs
  | some m => exact (playerMoveWith_eq_ok h).map_iff hargs

/-- A player without references to it but its own stands at a position of a map of
eight cells. -/
def onSmallMap (x : ℤ) : World :=
  { boot [] with
    maps := Heap.empty.alloc { mapCreate 0 8 1 with refs := 1 }
    tiles := Function.update (fun _ => none) 0 (some 0)
    players := Heap.empty.alloc ⟨x, 0, 0, 3, 1, some 0, none, none, some [65]⟩ }

/-- A move that is too long is refused and changes nothing. -/
theorem playerMove_refused_tooFar :
    (false = false → SameState (onSmallMap 0) (onSmallMap 0)) ↔
      NotRefusedLate mapLoaders (onSmallMap 0) 0 7 0 .zero :=
  playerMove_refused_iff
    (show playerMove mapLoaders 0 0 7 0 .zero (onSmallMap 0) = .ok (false, onSmallMap 0) from rfl)

/-- **A refused move that changes something.**  The player is next to its map, tries
to step onto it and is refused, and the cell is taken from then on. -/
theorem not_sameState_refused :
    ∃ w', playerMove mapLoaders 0 0 0 0 .zero (onSmallMap (-1)) = .ok (false, w') ∧
      ¬SameState (onSmallMap (-1)) w' := by
  refine ⟨_, rfl, fun hsame => ?_⟩
  exact absurd (hsame.1 0) (by decide)

end World
end MmoBackend
