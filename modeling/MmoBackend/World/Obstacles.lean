import MmoBackend.Library.Reservation
import MmoBackend.World.ClientsAgree
import MmoBackend.World.Membership

/-!
# No ghost obstacles

A move takes its new cell and gives the old one back.  Players may stand on one cell, and
then the first of them that leaves makes it walkable for everybody; but no cell is left
taken by nobody.  In the terms of `Reservation` the cells are `Covered`: a taken cell is a
wall of the map's definition or held by a player of its list.

In the middle of a request the player that moves is on a list it does not stand on yet.
So there `OpenFor` counts the cell the player stands on, wherever it is listed.
-/

namespace MmoBackend

open Authentication Communication Db Maps Player

namespace World

open Scene

/-! ## Cells of all maps -/

/-- The cells that are not walkable. -/
def obstacles (w : World) : Set (ℕ × ℤ × ℤ) :=
  {c | ∃ map, w.maps.get c.1 = some map ∧ c.2 ∈ blockedCells map}

/-- The cells that are not walkable by the definition of their map. -/
def walls (defs : MapDefs) (w : World) : Set (ℕ × ℤ × ℤ) :=
  {c | ∃ map base, w.maps.get c.1 = some map ∧ defs.loaders[map.id.toNat]? = some base ∧
    c.2 ∈ blockedCells base}

/-- The cells of the maps a player is listed on that it stands on. -/
def Scene.stands (s : Scene) (q : ℕ) : Set (ℕ × ℤ × ℤ) :=
  {c | q ∈ s.roster c.1 ∧ ∃ player, s.player q = some player ∧ c.2 = (player.x, player.y)}

/-- The cell of its map a player stands on. -/
def Scene.spot (s : Scene) (q : ℕ) : Set (ℕ × ℤ × ℤ) :=
  {c | ∃ player, s.player q = some player ∧ player.map = some c.1 ∧ c.2 = (player.x, player.y)}

/-- The cells between two requests. -/
def footing (w : World) : Reservation ℕ (ℕ × ℤ × ℤ) := ⟨obstacles w, w.scene.stands⟩

/-- The cells while the player `p` moves. -/
def footingFor (p : ℕ) (w : World) : Reservation ℕ (ℕ × ℤ × ℤ) :=
  ⟨obstacles w, Function.update w.scene.stands p (w.scene.spot p)⟩

/-- The rows of every map in memory are as wide as the map. -/
def Shapely (w : World) : Prop := ∀ m map, w.maps.get m = some map → WellShaped map

/-- While the player `p` moves, its position is on its map, and no cell is taken for
nothing. -/
structure OpenFor (defs : MapDefs) (p : ℕ) (w : World) : Prop where
  shapely : Shapely w
  covered : (footingFor p w).Covered (walls defs w)
  inside : ∃ player m map, w.players.get p = some player ∧ player.map = some m ∧
    w.maps.get m = some map ∧ mapCheckBounds map player.x player.y = true

variable {defs : MapDefs} {w w' v : World} {p sid c : ℕ} {k : CString} {s₀ : Scene} {x y : ℤ}
  {args : MoveArgs}

section Cells

variable {m : ℕ} {map map' : Map} {b : Bool}

theorem wellShaped_congr (hframe : frame map' = frame map)
    (hbits : map'.collision = map.collision) (h : WellShaped map) : WellShaped map' := by
  obtain ⟨-, hw, hh, -⟩ : _ ∧ map'.width = map.width ∧ map'.height = map.height ∧ _ := by
    simpa [frame] using hframe
  refine ⟨hw ▸ h.width_mod, ?_⟩
  rw [hw, hh, hbits]
  exact h.shaped

theorem blockedCells_congr (hframe : frame map' = frame map)
    (hbits : map'.collision = map.collision) : blockedCells map' = blockedCells map := by
  ext c
  have hwalkable : mapCoordIsWalkable map' c.1 c.2 = mapCoordIsWalkable map c.1 c.2 := by
    rw [mapCoordIsWalkable, mapCoordIsWalkable, segmentAt, segmentAt, hbits]
  simp only [blockedCells, cells, Set.mem_ofPred_eq, mapCheckBounds_of_frame hframe, hwalkable]

/-- Maps stay, and so do their walls. -/
theorem Steady.walls_subset (h : Steady defs w w') : walls defs w ⊆ walls defs w' := by
  rintro c ⟨map, base, hmap, hbase, hc⟩
  obtain ⟨map', hmap', hframe⟩ := h.maps c.1 map hmap
  exact ⟨map', base, hmap', by rw [id_of_frame hframe]; exact hbase, hc⟩

/-- What is taken when no bits change was taken before, or is a wall of a new map. -/
theorem SameBits.obstacles_subset (h : SameBits defs w w') :
    obstacles w' ⊆ walls defs w' ∪ obstacles w := by
  rintro c ⟨map', hmap', hc⟩
  obtain ⟨map, hmap | hbase, hframe, hbits⟩ := h c.1 map' hmap'
  · exact Or.inr ⟨map, hmap, blockedCells_congr hframe hbits ▸ hc⟩
  · obtain ⟨i, hi⟩ := List.mem_iff_getElem?.mp hbase
    have hid : map'.id.toNat = i := by
      rw [id_of_frame hframe, (defs.fresh i map hi).1, Int.toNat_natCast]
    exact Or.inl ⟨map', map, hmap', hid.symm ▸ hi, blockedCells_congr hframe hbits ▸ hc⟩

theorem SameBits.shapely (h : SameBits defs w w') (hdefs : defs.WellShaped) (hw : Shapely w) :
    Shapely w' := by
  intro m map' hmap'
  obtain ⟨map, hmap | hbase, hframe, hbits⟩ := h m map' hmap'
  · exact wellShaped_congr hframe hbits (hw m map hmap)
  · exact wellShaped_congr hframe hbits (hdefs map hbase)

/-- A cell is switched. -/
theorem obstacles_switchCoord (hw : Shapely w) (hm : w.maps.get m = some map)
    (hc : mapCheckBounds map x y = true) (disable : Bool) :
    obstacles (w.setMap m (switchCoord map x y disable)) ⊆
      if disable then insert (m, x, y) (obstacles w) else obstacles w \ {(m, x, y)} := by
  rintro ⟨k, c⟩ ⟨map', hmap', hblocked⟩
  have hmem : k = m ∧ c ∈ blockedCells (switchCoord map x y disable) ∨
      k ≠ m ∧ (k, c) ∈ obstacles w := by
    by_cases hkm : k = m
    · subst hkm
      obtain rfl := Option.some.inj ((Heap.get_set_self _ hm).symm.trans hmap')
      exact Or.inl ⟨rfl, hblocked⟩
    · exact Or.inr ⟨hkm, map', (Heap.get_set_of_ne _ hkm).symm.trans hmap', hblocked⟩
  rcases hmem with ⟨rfl, hc'⟩ | ⟨hkm, hc'⟩
  · rw [blockedCells_switchCoord (hw k map hm) hc] at hc'
    cases disable with
    | true =>
      rcases hc' with rfl | hc'
      · exact Or.inl rfl
      · exact Or.inr ⟨map, hm, hc'⟩
    | false =>
      refine ⟨⟨map, hm, hc'.1⟩, fun heq => hc'.2 ?_⟩
      exact (Prod.mk.inj heq).2
  · cases disable with
    | true => exact Or.inr hc'
    | false => exact ⟨hc', fun heq => hkm (Prod.mk.inj heq).1⟩

theorem Shapely.switchCoord (hw : Shapely w) (hm : w.maps.get m = some map) (disable : Bool) :
    Shapely (w.setMap m (Maps.switchCoord map x y disable)) := by
  intro k map' hk
  by_cases hkm : k = m
  · subst hkm
    obtain rfl := Option.some.inj ((Heap.get_set_self _ hm).symm.trans hk)
    exact wellShaped_switchCoord (hw k map hm) x y disable
  · exact hw k map' ((Heap.get_set_of_ne _ hkm).symm.trans hk)

/-- A cell is taken, or was taken already. -/
theorem obstacles_disable (hw : Shapely w) (h : toggleCoord m x y true w = .ok (b, w')) :
    Shapely w' ∧ obstacles w' ⊆ insert (m, x, y) (obstacles w) := by
  cases b with
  | false =>
    obtain ⟨rfl, -⟩ := toggleCoord_eq_ok_false h
    exact ⟨hw, Set.subset_insert _ _⟩
  | true =>
    obtain ⟨map, hm, hc, -, rfl⟩ := toggleCoord_eq_ok_true h
    exact ⟨hw.switchCoord hm true, obstacles_switchCoord hw hm hc true⟩

/-- The old cell is given back. -/
theorem obstacles_enable {player : Player} (hw : Shapely w) (hp : w.players.get p = some player)
    (h : enableOldCoord p (some m) w = .ok (true, w')) :
    Shapely w' ∧ obstacles w' ⊆ obstacles w \ {(m, player.x, player.y)} := by
  simp only [enableOldCoord, Exec.bind_eq_ok, derefPlayer_eq_ok] at h
  obtain ⟨player', _, ⟨hp', rfl⟩, h⟩ := h
  obtain rfl := Option.some.inj (hp.symm.trans hp')
  obtain ⟨map, hm, hc, -, rfl⟩ := toggleCoord_eq_ok_true h
  exact ⟨hw.switchCoord hm false, obstacles_switchCoord hw hm hc false⟩

end Cells

/-! ## A move -/

section Move

variable {u : Unit} {oldMap : Option ℕ}

/-- The bits do not change while a player changes its map. -/
theorem sameBits_changeMap (h : changeMap defs oldMap p args.map w = .ok (u, w')) :
    SameBits defs w w' := by
  cases hargs : args.map with
  | none =>
    rw [hargs] at h
    obtain ⟨-, rfl⟩ := Exec.pure_eq_ok.mp h
    exact SameBits.of_maps rfl
  | some n =>
    rw [hargs] at h
    simp only [changeMap, Exec.bind_eq_ok] at h
    obtain ⟨⟨⟩, w₁, hremove, hadd⟩ := h
    have hleft : SameBits defs w w₁ := by
      cases oldMap with
      | none =>
        obtain ⟨-, rfl⟩ := Exec.pure_eq_ok.mp hremove
        exact SameBits.of_maps rfl
      | some o =>
        obtain ⟨map, player, _, hmap, -, -, ⟨-, rfl⟩ | ⟨-, -, rfl⟩⟩ := mapRemovePlayer_eq_ok hremove
        · exact SameBits.of_maps rfl
        · have herased : SameBits defs w
              (w.setMap o { map with players := map.players.erase p }) := .setMap hmap rfl rfl
          exact herased.trans (SameBits.of_maps rfl)
    obtain ⟨map, player, loaded, w₂, hmap, -, hload, player', -, rfl⟩ := mapAddPlayer_eq_ok hadd
    have hadded : SameBits defs w₁ ((w₁.setPlayer p { player with refs := player.refs + 1 }).setMap
        n { map with players := p :: map.players }) :=
      SameBits.setMap (w := w₁.setPlayer p _) hmap rfl rfl
    have hloaded : ∀ v, mapLoad defs map.id v = .ok (loaded, w₂) → SameBits defs v w₂ := by
      intro v hv
      rcases mapLoad_eq_ok hv with ⟨-, -, rfl⟩ | ⟨_, _, _, -, -, -, hloads⟩
      · exact SameBits.of_maps rfl
      · exact hloads.still.bits
    exact ((hleft.trans hadded).trans (hloaded _ hload)).trans (SameBits.of_maps rfl)

/-- How the player and its map are when a move has got to its map. -/
theorem OnTarget.mover {player mover : Player} {m : ℕ} {map : Map} {w₁ : World}
    (hw : Sound defs w) (hway : OnWay s₀ p k sid c w.scene)
    (h : OnTarget defs p x y args w w₁ player mover m map) :
    mover.x = player.x ∧ mover.y = player.y ∧ ∀ n, args.map = some n → m = n := by
  cases hargs : args.map with
  | none =>
    obtain ⟨rfl, rfl⟩ := h.plain hargs
    exact ⟨rfl, rfl, fun n hn => absurd hn.symm (Option.some_ne_none n)⟩
  | some n =>
    have hchanged := h.changed
    rw [hargs] at hchanged
    obtain ⟨player', o, c', hlisted, -, hid, -⟩ := hway.listed
    obtain rfl := Option.some.inj (h.player_eq.symm.trans hlisted.player_eq)
    obtain ⟨-, hscene⟩ :=
      changeMap_scene hw h.player_eq hlisted.map_eq hid hlisted.refs_ite hchanged
    have hmover : w₁.scene.player p = some { player with refs := 2, map := some n } := by
      rw [hscene]
      exact Function.update_self _ _ _
    obtain rfl := Option.some.inj (h.mover_eq.symm.trans hmover)
    exact ⟨rfl, rfl, fun n' hn' => by
      rw [← Option.some.inj hn']
      exact (Option.some.inj h.mover_map).symm⟩

/-- The cells of the others do not change. -/
theorem stands_movesOnly {s s' : Scene} {q : ℕ} (h : MovesOnly p s s') (hq : q ≠ p) :
    s'.stands q = s.stands q := by
  ext c
  simp only [stands, Set.mem_ofPred_eq, h.mem_roster_iff hq, h.player q hq]

theorem held_footingFor_self (p : ℕ) (w : World) :
    (footingFor p w).held p = w.scene.spot p := Function.update_self _ _ _

theorem held_footingFor_of_ne {q : ℕ} (hq : q ≠ p) (w : World) :
    (footingFor p w).held q = w.scene.stands q := Function.update_of_ne hq _ _

/-- The player `p` takes the cell `d` and gives the cell `o` back, and in the end it stands
on `d`, where it stood on `o`. -/
theorem covered_of_move {d o : ℕ × ℤ × ℤ} (h : (footingFor p w).Covered (walls defs w))
    (hsteady : Steady defs w w') (hmoves : MovesOnly p w.scene w'.scene)
    (hspot : w.scene.spot p ⊆ {o}) (hspot' : d ∈ w'.scene.spot p)
    (hobstacles : obstacles w' ⊆ walls defs w' ∪ insert d (obstacles w) \ {o}) :
    (footingFor p w').Covered (walls defs w') := by
  refine ((h.acquire p d).release p o).mono hsteady.walls_subset hobstacles fun q => ?_
  by_cases hq : q = p
  · rw [hq, Reservation.held_release, if_pos rfl, Reservation.held_acquire, if_pos rfl,
      held_footingFor_self, held_footingFor_self]
    rintro e ⟨rfl | he, hne⟩
    · exact hspot'
    · exact absurd (hspot he) hne
  · rw [Reservation.held_release, if_neg hq, Reservation.held_acquire, if_neg hq,
      held_footingFor_of_ne hq, held_footingFor_of_ne hq, stands_movesOnly hmoves hq]

/-- **A shift** leaves no cell taken for nothing. -/
theorem OpenFor.shift (hdefs : defs.WellShaped) (hw : Sound defs w)
    (hway : OnWay s₀ p k sid c w.scene) (h : OpenFor defs p w)
    (hgoal : args.map = none ∨ args.overlap = true ∧ ∃ n map, args.map = some n ∧
      w.maps.get n = some map ∧ mapCheckBounds map x y = true)
    (hshift : Shift defs p x y args w v) : OpenFor defs p v := by
  obtain ⟨player, o, oldMap, hp, ho, hold, hinside⟩ := h.inside
  have hmoves := (OnWay.shift hw hway.here hshift).2.1.moves
  cases hshift with
  | tooFar => exact h
  | @refused _ _ _ _ _ htarget hwhy =>
    rcases hgoal with hnone | ⟨hoverlap, n, map, hn, hmap, hbounds⟩
    · obtain ⟨rfl, -⟩ := htarget.plain hnone
      exact h
    · -- the target is on the map, and it may be taken
      obtain ⟨hkept, -, -⟩ := OnWay.changeMap hw hway htarget.player_eq htarget.changed
      obtain rfl := (htarget.mover hw hway).2.2 n hn
      obtain ⟨map', hmap', hbounds'⟩ := hkept.toSteady.mapCheckBounds hmap hbounds
      obtain rfl := Option.some.inj (htarget.map_eq.symm.trans hmap')
      rcases hwhy with hout | hfalse
      · exact absurd (hbounds'.symm.trans hout) (by simp)
      · exact absurd (hoverlap.symm.trans hfalse) (by simp)
  | stuck htarget htoggle ho' hold' hout =>
    -- the player stands on its old map
    obtain ⟨hkept, -, -⟩ := OnWay.changeMap hw hway htarget.player_eq htarget.changed
    obtain ⟨hkept₂, -, -⟩ := toggleCoord_scene defs htoggle
    obtain rfl := Option.some.inj (hp.symm.trans htarget.player_eq)
    obtain rfl := Option.some.inj (ho.symm.trans ho')
    obtain ⟨hx, hy, -⟩ := htarget.mover hw hway
    obtain ⟨map', hmap', hbounds'⟩ := (hkept.trans hkept₂).toSteady.mapCheckBounds hold hinside
    obtain rfl := Option.some.inj (hold'.symm.trans hmap')
    rw [hx, hy] at hout
    exact absurd (hbounds'.symm.trans hout) (by simp)
  | @moved w₁ w₂ w₃ player' mover m map disabled htarget hbounds htoggle henable hp₃ =>
    obtain ⟨hkept, hway₁, -⟩ := OnWay.changeMap hw hway htarget.player_eq htarget.changed
    obtain ⟨hkept₂, hscene₂, hplayers₂⟩ := toggleCoord_scene defs htoggle
    obtain ⟨hkept₃, hscene₃, -⟩ := enableOldCoord_scene defs henable
    obtain rfl := Option.some.inj (hp.symm.trans htarget.player_eq)
    obtain ⟨hx, hy, -⟩ := htarget.mover hw hway
    have hkept₃' := (hkept.trans hkept₂).trans hkept₃
    have hall : Kept defs w (w₃.setPlayer p { mover with x := x, y := y }) :=
      hkept₃'.trans (Kept.setPlayer p _)
    have hbits := sameBits_changeMap htarget.changed
    have hp₂ : w₂.players.get p = some mover := hplayers₂ ▸ htarget.mover_eq
    rw [ho] at henable
    obtain ⟨hshapely₂, hobstacles₂⟩ := obstacles_disable (hbits.shapely hdefs h.shapely) htoggle
    obtain ⟨hshapely₃, hobstacles₃⟩ := obstacles_enable hshapely₂ hp₂ henable
    have hplaced : (w₃.setPlayer p { mover with x := x, y := y }).players.get p
        = some { mover with x := x, y := y } := Heap.get_set_self _ hp₃
    refine ⟨hshapely₃, ?_, ?_⟩
    · refine covered_of_move (d := (m, x, y)) (o := (o, player.x, player.y)) h.covered hall.toSteady
        hmoves ?_ ⟨_, hplaced, htarget.mover_map, rfl⟩ ?_
      · rintro ⟨k, e⟩ ⟨other, hother, hk, he⟩
        obtain rfl := Option.some.inj (hp.symm.trans hother)
        obtain rfl := Option.some.inj (ho.symm.trans hk)
        exact congrArg (Prod.mk o) he
      · intro e he
        obtain ⟨he, hne⟩ := hobstacles₃ he
        rw [hx, hy] at hne
        rcases hobstacles₂ he with rfl | he
        · exact Or.inr ⟨Set.mem_insert _ _, hne⟩
        · rcases hbits.obstacles_subset he with he | he
          · exact Or.inl (((hkept₂.trans hkept₃).trans
              (Kept.setPlayer p _)).toSteady.walls_subset he)
          · exact Or.inr ⟨Set.mem_insert_of_mem _ he, hne⟩
    · obtain ⟨map', hmap', hbounds'⟩ :=
        (hkept₂.trans hkept₃).toSteady.mapCheckBounds htarget.map_eq hbounds
      exact ⟨_, m, map', hplaced, htarget.mover_map, hmap', hbounds'⟩

end Move

/-! ## Moves and spawns -/

/-- A cell of a valid map. -/
def OnMap (defs : MapDefs) (i : ℕ) (x y : ℤ) : Prop :=
  ∃ base, defs.loaders[i]? = some base ∧ mapCheckBounds base x y = true

theorem OpenFor.still (hdefs : defs.WellShaped) (h : OpenFor defs p w) (hstill : Still defs w w') :
    OpenFor defs p w' := by
  refine ⟨hstill.bits.shapely hdefs h.shapely, ?_, ?_⟩
  · refine h.covered.mono hstill.walls_subset hstill.bits.obstacles_subset fun q => ?_
    rw [footingFor, footingFor, hstill.scene]
  · obtain ⟨player, m, map, hp, hm, hmap, hinside⟩ := h.inside
    obtain ⟨map', hmap', hinside'⟩ := hstill.mapCheckBounds hmap hinside
    exact ⟨player, m, map', (congrFun (congrArg Scene.player hstill.scene) p).trans hp, hm, hmap',
      hinside'⟩

theorem carried_openFor (hdefs : defs.WellShaped) :
    Carried defs p (OnMap defs) fun v => OnWay s₀ p k sid c v.scene ∧ OpenFor defs p v where
  still v v' h hstill := ⟨loose_onWay.still v v' h.1 hstill, h.2.still hdefs hstill⟩
  emit v l h := ⟨h.1.emit l, h.2.shapely, h.2.covered, h.2.inside⟩
  aboard v h := by
    obtain ⟨player, m, session, haboard⟩ := OnWay.aboard h.1
    exact ⟨player, k, m, sid, session, haboard⟩
  shift v v' i n x y suppress hv h htile hgoal hshift := by
    obtain ⟨hkept, hway, -⟩ := OnWay.shift hv h.1 hshift
    obtain ⟨map, base, hmap, hbase, hframe, -⟩ := hv.tile i n htile
    obtain ⟨base', hbase', hbounds⟩ := hgoal
    obtain rfl := Option.some.inj (hbase.symm.trans hbase')
    refine ⟨hkept, hway, h.2.shift hdefs hv h.1 (Or.inr ⟨rfl, n, map, rfl, hmap, ?_⟩) hshift⟩
    rw [mapCheckBounds_of_frame hframe]
    exact hbounds

/-- **A plain move.** -/
theorem OpenFor.move {fuel : ℕ} {r : Bool} (hdefs : defs.WellShaped)
    (hdest : Destinations defs (OnMap defs)) (hw : Sound defs w)
    (hway : OnWay s₀ p k sid c w.scene) (h : OpenFor defs p w)
    (hmove : playerMove defs fuel p x y .zero w = .ok (r, w')) :
    Kept defs w w' ∧ OnWay s₀ p k sid c w'.scene ∧ OpenFor defs p w' := by
  refine playerMove_rule (I := fun v => OnWay s₀ p k sid c v.scene ∧ OpenFor defs p v)
    (carried_openFor hdefs) hdest hw (fun v hv => ?_) hmove
  obtain ⟨hkept, hway', -⟩ := OnWay.shift hw hway hv
  exact ⟨hkept, hway', h.shift hdefs hw hway (Or.inl rfl) hv⟩

/-! ## Between two requests -/

/-- No cell is taken for nothing, and everybody who is listed on a map stands on it. -/
structure Grounded (defs : MapDefs) (w : World) : Prop where
  shapely : Shapely w
  records : ValidRecords defs w.playerdata
  covered : (footing w).Covered (walls defs w)
  inside : Inside w

section Requests

variable {player : Player} {m : ℕ}

/-- Somebody who is listed begins to move. -/
theorem Grounded.openFor (h : Grounded defs w) (hlisted : w.scene.Listed p player m 1) :
    OpenFor defs p w := by
  refine ⟨h.shapely, h.covered.mono subset_rfl Set.subset_union_right fun q => ?_, ?_⟩
  · by_cases hq : q = p
    · rw [hq, held_footingFor_self]
      rintro ⟨n, e⟩ ⟨hn, other, hother, he⟩
      obtain rfl := Option.some.inj (hlisted.player_eq.symm.trans hother)
      obtain rfl : n = m := by
        by_contra hne
        exact hlisted.elsewhere n hne hn
      exact ⟨player, hother, hlisted.map_eq, he⟩
    · rw [held_footingFor_of_ne hq]
      exact subset_rfl
  · obtain ⟨map, hmap, hinside⟩ :=
      h.inside m p player (hlisted.mem_iff.mpr rfl) hlisted.player_eq
    exact ⟨player, m, map, hlisted.player_eq, hlisted.map_eq, hmap, hinside⟩

/-- The player that moved is listed again. -/
theorem OpenFor.grounded (h : OpenFor defs p w') (hkept : Kept defs w w')
    (hmoves : MovesOnly p w.scene w'.scene) (hlisted : w'.scene.Listed p player m 1)
    (hrecords : ValidRecords defs w.playerdata) (hin : Inside w) : Grounded defs w' := by
  refine ⟨h.shapely, hkept.playerdata.symm ▸ hrecords,
    h.covered.mono subset_rfl Set.subset_union_right fun q => ?_, fun n q other hq hother => ?_⟩
  · by_cases hq : q = p
    · rw [hq, held_footingFor_self]
      rintro ⟨n, e⟩ ⟨other, hother, hn, he⟩
      obtain rfl := Option.some.inj (hlisted.player_eq.symm.trans hother)
      obtain rfl := Option.some.inj (hlisted.map_eq.symm.trans hn)
      exact ⟨hlisted.mem_iff.mpr rfl, player, hother, he⟩
    · rw [held_footingFor_of_ne hq]
      exact subset_rfl
  · by_cases hqp : q = p
    · subst hqp
      obtain ⟨player', m', map, hp, hm, hmap, hinside⟩ := h.inside
      obtain rfl := Option.some.inj (hlisted.player_eq.symm.trans hp)
      obtain rfl := Option.some.inj (hlisted.player_eq.symm.trans hother)
      obtain rfl := Option.some.inj (hlisted.map_eq.symm.trans hm)
      obtain rfl : n = m := by
        by_contra hne
        exact hlisted.elsewhere n hne hq
      exact ⟨map, hmap, hinside⟩
    · rw [hmoves.mem_roster_iff hqp] at hq
      rw [hmoves.player q hqp] at hother
      obtain ⟨map, hmap, hinside⟩ := hin n q other hq hother
      exact hkept.toSteady.mapCheckBounds hmap hinside

/-- Nothing happens to the maps and to who is listed. -/
theorem Grounded.congr (h : Grounded defs w) (hkept : Kept defs w w')
    (hbits : SameBits defs w w') (hdefs : defs.WellShaped)
    (hroster : w'.scene.roster = w.scene.roster)
    (hplayer : ∀ m, ∀ q ∈ w.scene.roster m, w'.scene.player q = w.scene.player q) :
    Grounded defs w' := by
  refine ⟨hbits.shapely hdefs h.shapely, hkept.playerdata.symm ▸ h.records, ?_,
    h.inside.congr hkept.toSteady hroster hplayer⟩
  refine h.covered.mono hkept.walls_subset hbits.obstacles_subset fun q => ?_
  rintro e ⟨hq, other, hother, he⟩
  exact ⟨by rw [hroster]; exact hq, other, (hplayer e.1 q hq).trans hother, he⟩

end Requests

section Login

variable {fuel s m : ℕ} {session : Session} {packet : Packet} {player : Player} {map : Map}
  {id : CString} {w₁ : World} {r : Option ServerPacket} {l : List (ℕ × Sent)}

/-- In front of the spawn of a login the new player stands on its map and is not listed. -/
theorem Grounded.boarding (hdefs : defs.WellShaped) (h : Grounded defs w) (hmember : Member defs w)
    (henters : Enters defs w s session id player m map w₁)
    (hinside : mapCheckBounds map player.x player.y = true) :
    OpenFor defs w.players.next w₁ ∧ Inside w₁ := by
  have hroster : w₁.scene.roster = w.scene.roster := by
    rw [henters.scene_eq]
    rfl
  have hplayer : ∀ q ≠ w.players.next, w₁.scene.player q = w.scene.player q := by
    intro q hq
    rw [henters.scene_eq]
    exact Function.update_of_ne hq _ _
  have hnew : w₁.scene.player w.players.next = some { player with session := some s } := by
    rw [henters.scene_eq]
    exact Function.update_self _ _ _
  have hlisted : ∀ m, ∀ q ∈ w.scene.roster m, q ≠ w.players.next := by
    intro m q hq heq
    subst heq
    exact hmember.membership.player_ne_none hq (Heap.get_next w.players)
  have hgrounded := h.congr henters.kept henters.bits hdefs hroster
    fun m q hq => hplayer q (hlisted m q hq)
  refine ⟨⟨hgrounded.shapely, ?_, _, m, map, hnew, henters.map_eq, henters.get_eq, hinside⟩,
    hgrounded.inside⟩
  refine hgrounded.covered.mono subset_rfl Set.subset_union_right fun q => ?_
  by_cases hq : q = w.players.next
  · rintro e ⟨he, -⟩
    rw [hroster] at he
    exact absurd hq (hlisted e.1 q he)
  · rw [held_footingFor_of_ne hq]
    exact subset_rfl

/-- **A login** takes no cell for nothing. -/
theorem Grounded.login (hdefs : defs.WellShaped) (hdest : Destinations defs (OnMap defs))
    (h : Grounded defs w) (hmember : Member defs w) (hs : w.sessions.get s = some session)
    (hstate : session.state = .disabled) (hends : LoginEnds defs fuel packet s session w r w') :
    Grounded defs w' := by
  cases hends with
  | unknown =>
    exact h.congr (Kept.setErrno _) (SameBits.of_maps rfl) hdefs rfl fun _ _ _ => rfl
  | noRecord =>
    exact h.congr (Kept.setSession s _) (SameBits.of_maps rfl) hdefs rfl fun _ _ _ => rfl
  | @spawned _ player m map v w₁ _ _ doc _ hdoc hget hreads htiles henters hspawn =>
    have hw₁ := henters.kept.sound hmember.sound
    obtain ⟨i, base, hid, htile, hbase, hbounds⟩ :=
      henters.onMap hmember.sound h.records hdoc hget hreads htiles
    obtain ⟨map', base', hmap', hbase', hframe, -⟩ := hw₁.tile i m htile
    obtain rfl := Option.some.inj (henters.get_eq.symm.trans hmap')
    obtain rfl := Option.some.inj (hbase.symm.trans hbase')
    obtain ⟨hopen, hin⟩ := h.boarding hdefs hmember henters
      (by rw [mapCheckBounds_of_frame hframe]; exact hbounds)
    obtain ⟨-, -, hway⟩ := hmember.boarding hs hstate henters
    obtain ⟨-, hmember', hway'⟩ := hmember.enters hs hstate henters hspawn
    rw [hid] at hspawn
    have hgoal : ∀ j : ℕ, (i : ℤ) = j → j < defs.count → OnMap defs j player.x player.y := by
      intro j hij _
      obtain rfl : i = j := by omega
      exact ⟨base, hbase, hbounds⟩
    obtain ⟨hkept, -, hopen'⟩ := mapSpawnPlayer_rule (carried_openFor hdefs) hdest fuel i player.x
      player.y 1 w₁ w' _ hw₁ ⟨hway, hopen⟩ hgoal hspawn
    obtain ⟨player', m', c', hlisted, hc, -⟩ := hway'.listed
    obtain rfl := Nat.le_antisymm hlisted.le_one hc
    exact hopen'.grounded hkept hway'.moves hlisted (henters.kept.playerdata.symm ▸ h.records) hin

/-- **One step of the server.** -/
theorem Grounded.step {a : Request} (hdefs : defs.WellShaped)
    (hdest : Destinations defs (OnMap defs)) (h : Grounded defs w) (hmember : Member defs w)
    (hstep : Step defs w a w') : Grounded defs w' := by
  have hemit : ∀ v l, Grounded defs v → Grounded defs (v.emit l) := fun v l hv =>
    hv.congr (Kept.emit l) (SameBits.of_maps rfl) hdefs rfl fun _ _ _ => rfl
  cases hstep.turn hmember.sound.cache with
  | connect =>
    exact h.congr (Kept.newSession _) (SameBits.of_maps rfl) hdefs rfl fun _ _ _ => rfl
  | token t =>
    exact h.congr (Kept.setTable t) (SameBits.of_maps rfl) hdefs rfl fun _ _ _ => rfl
  | badState l => exact hemit w l h
  | @login _ _ _ _ _ _ l l' hs hstate _ hends =>
    exact hemit _ l' ((hemit w l h).login hdefs hdest (hmember.emit l) hs hstate hends)
  | @move _ s q _ session _ _ _ v l l' hs hstate hq _ _ _ hmove =>
    have hl := hmember.emit l
    have hroams : (w.emit l).scene.RoamsWith s q := ⟨session, hs, hstate, hq⟩
    have hpresent := hl.membership.present hroams
    obtain ⟨k, hway⟩ := hpresent.onWay hs
    obtain ⟨player, m, _, hlisted, -⟩ := hpresent
    obtain ⟨hkept, hway', hopen⟩ := ((hemit w l h).openFor hlisted).move hdefs hdest hl.sound hway
      hmove
    obtain ⟨player', m', c', hlisted', hc, -⟩ := hway'.listed
    obtain rfl := Nat.le_antisymm hlisted'.le_one hc
    exact hemit _ l' (hopen.grounded hkept hway'.moves hlisted' h.records (hemit w l h).inside)
  | @inspect _ _ _ _ _ l l' _ _ _ hget =>
    rcases dbPlayerGetPlayer_reads (hmember.emit l).sound.cache hget with rfl | ⟨player, hreads⟩
    · exact hemit _ l' (hemit w l h)
    · refine hemit _ l' ((hemit w l h).congr hreads.kept hreads.bits hdefs ?_ fun m q hq => ?_)
      · rw [hreads.scene_eq]
        rfl
      · have hqp : q ≠ w.players.next := by
          rintro rfl
          exact (hmember.emit l).membership.player_ne_none hq (Heap.get_next w.players)
        rw [hreads.scene_eq]
        exact Function.update_of_ne hqp _ _

end Login

/-! ## Runs of the server -/

theorem grounded_boot {playerdata : List Document} (h : ValidRecords defs playerdata) :
    Grounded defs (boot playerdata) where
  shapely _ _ hm := absurd hm.symm (Option.some_ne_none _)
  records := h
  covered := by
    rintro c ⟨map, hmap, -⟩
    exact absurd hmap.symm (Option.some_ne_none _)
  inside _ _ _ hq := absurd hq List.not_mem_nil

/-- **No ghost obstacles.**  In every state of every run a cell of a map that is not walkable
is not walkable by the definition of the map, or a player of the list of the map stands on
it. -/
theorem blocked_explained {playerdata : List Document} {l : List (Request × World)}
    (hdefs : defs.WellShaped) (hrecords : ValidRecords defs playerdata)
    (hdest : Destinations defs (OnMap defs)) (h : Trace (Step defs) (boot playerdata) l w) :
    ∀ m map x y, w.maps.get m = some map → mapCheckBounds map x y = true →
      mapCoordIsWalkable map x y ≠ some true →
      (∃ base, defs.loaders[map.id.toNat]? = some base ∧
          mapCoordIsWalkable base x y = some false) ∨
        ∃ q ∈ map.players, ∃ player, w.players.get q = some player ∧ player.map = some m ∧
          player.x = x ∧ player.y = y := by
  obtain ⟨hmember, hgrounded⟩ : Member defs w ∧ Grounded defs w :=
    Trace.invariant (I := fun w => Member defs w ∧ Grounded defs w)
      (fun _ _ _ ht hstep => ⟨(ht.1.step hstep).1, ht.2.step hdefs hdest ht.1 hstep⟩)
      ⟨member_boot playerdata, grounded_boot hrecords⟩ h
  intro m map x y hm hc hblocked
  have hcell : (x, y) ∈ cells map := hc
  obtain ⟨b, hb⟩ := exists_bit (hgrounded.shapely m map hm) hcell
  obtain ⟨hx, -, hy, -⟩ := mem_cells.mp hcell
  have hwalkable := mapCoordIsWalkable_eq map hx hy
  rw [hb] at hwalkable
  obtain rfl : b = true := by
    by_contra hfalse
    rw [Bool.not_eq_true] at hfalse
    exact hblocked (by rw [hwalkable, hfalse]; rfl)
  rcases Reservation.covered_iff.mp hgrounded.covered (m, x, y) ⟨map, hm, hc, hwalkable⟩ with
    ⟨map', base, hm', hbase, hwall⟩ | ⟨q, hq, player, hp, heq⟩
  · obtain rfl := Option.some.inj (hm.symm.trans hm')
    exact Or.inl ⟨base, hbase, hwall.2⟩
  · -- who is listed there points there
    obtain ⟨sid, hroams⟩ := hmember.membership.listed m q hq
    obtain ⟨player', m', _, hlisted, -⟩ := hmember.membership.present hroams
    obtain rfl := Option.some.inj (hlisted.player_eq.symm.trans hp)
    obtain rfl : m = m' := by
      by_contra hne
      exact hlisted.elsewhere m hne hq
    rw [roster_eq hm] at hq
    exact Or.inr ⟨q, hq, player', hp, hlisted.map_eq, (Prod.mk.inj heq).1.symm,
      (Prod.mk.inj heq).2.symm⟩

theorem GoodPortals.destinations (h : GoodPortals defs) : Destinations defs (OnMap defs) := by
  intro base hbase e he hfunc i x y hi hx hy _
  obtain ⟨j, target, hij, htarget, hbounds, -⟩ := h base hbase e he hfunc i x y hi hx hy
  obtain rfl : i = j := by omega
  exact ⟨target, htarget, hbounds⟩

/-- The cell behind the portal is blocked by the player that came through. -/
theorem blocked_explained_throughPortal : ∃ l w map,
    Trace (Step mapLoaders) (boot [gateRecord, farRecord]) l w ∧ w.maps.get 1 = some map ∧
    mapCoordIsWalkable map 0 5 = some false ∧
    ∃ q ∈ map.players, ∃ player, w.players.get q = some player ∧ player.map = some 1 ∧
      player.x = 0 ∧ player.y = 5 := by
  obtain ⟨l, w, hrun, harrived⟩ := trace_distinctLogin
  obtain ⟨map, hmap, hid, -, hbounds, hblocked⟩ := harrived.map
  refine ⟨l, w, map, hrun.of_guarded, hmap, hblocked, ?_⟩
  rcases blocked_explained wellShaped_mapLoaders validRecords_gateRecord
    goodPortals_mapLoaders.destinations hrun.of_guarded 1 map 0 5 hmap hbounds
    (by rw [hblocked]; decide) with ⟨base, hbase, hwalkable⟩ | hplayer
  · rw [hid] at hbase
    obtain rfl := Option.some.inj hbase
    exact absurd hwalkable (by decide +kernel)
  · exact hplayer

end World
end MmoBackend
