import MmoBackend.World.Sound

/-!
# What a move does to the scene

A move within a map changes the position of one player and sends it to everybody on
the map.  A spawn takes the player off one map, puts it on another at a given cell,
and sends four kinds of packets: the new map to the player, the leaving of the player
to those it leaves behind, its position to those it finds, and their positions to it.
`arrive` is that, and `mapSpawnPlayer_scene` says that a spawn does exactly that to
the scene and keeps the registry in order.

The events of the target cell run in the middle.  As long as none of them changes the
map they do nothing to the scene.
-/

namespace MmoBackend

open Authentication Communication Maps Player

namespace World

/-! ## Scenes -/

namespace Scene

variable (s : Scene)

/-- A player is moved from the list of one map to the front of the list of another. -/
def relocate (p o n : ℕ) (player : Player) : Scene :=
  let left := s.setRoster o ((s.roster o).erase p)
  (left.setRoster n (p :: left.roster n)).setPlayer p { player with refs := 2, map := some n }

/-- What those hear who are left behind. -/
def leavings (p o : ℕ) (k : CString) : List (ℕ × Sent) :=
  if p ∈ s.roster o then s.copies ((s.roster o).erase p) (.leavingMap k) else []

/-- The packet with the position of a player. -/
def positionOf (q : ℕ) : Option ServerPacket :=
  (s.player q).bind fun other => packetTemplateUpdatePosition other.id other.x other.y

/-- The positions of the other players of a list, for one socket. -/
def positions (l : List ℕ) (p fd : ℕ) : List (ℕ × Sent) :=
  l.flatMap fun q => if q = p then [] else
    (s.positionOf q).toList.map fun packet => (fd, Sent.packet packet)

/-- A player stands on its new map. -/
def settle (p o n : ℕ) (player : Player) (x y : ℤ) : Scene :=
  (s.relocate p o n player).setPlayer p { player with refs := 2, map := some n, x := x, y := y }

/-- **A spawn.** -/
def arrive (p o n : ℕ) (player : Player) (k : CString) (fd : ℕ) (x y : ℤ)
    (packet : ServerPacket) : Scene :=
  let t := s.settle p o n player x y
  t.emit ((fd, .packet packet) :: s.leavings p o k ++
    t.copies (t.roster n) (.updatePosition k x y) ++ t.positions (t.roster n) p fd)

variable {s}

theorem setPlayer_emit (p : ℕ) (player : Player) (l : List (ℕ × Sent)) :
    (s.emit l).setPlayer p player = (s.setPlayer p player).emit l := rfl

theorem roster_emit (l : List (ℕ × Sent)) : (s.emit l).roster = s.roster := rfl

theorem copies_emit (l : List (ℕ × Sent)) (r : List ℕ) (packet : ServerPacket) :
    (s.emit l).copies r packet = s.copies r packet := rfl

theorem leavings_emit (l : List (ℕ × Sent)) (p o : ℕ) (k : CString) :
    (s.emit l).leavings p o k = s.leavings p o k := rfl

theorem positions_emit (l : List (ℕ × Sent)) (r : List ℕ) (p fd : ℕ) :
    (s.emit l).positions r p fd = s.positions r p fd := rfl

theorem settle_emit (l : List (ℕ × Sent)) (p o n : ℕ) (player : Player) (x y : ℤ) :
    (s.emit l).settle p o n player x y = (s.settle p o n player x y).emit l := rfl

theorem setRoster_emit (m : ℕ) (r : List ℕ) (l : List (ℕ × Sent)) :
    (s.emit l).setRoster m r = (s.setRoster m r).emit l := rfl

theorem setRoster_setPlayer (m p : ℕ) (r : List ℕ) (player : Player) :
    (s.setPlayer p player).setRoster m r = (s.setRoster m r).setPlayer p player := rfl

theorem fdOf_relocate {p o n : ℕ} {player : Player} (hp : s.player p = some player) :
    (s.relocate p o n player).fdOf = s.fdOf :=
  fdOf_setPlayer (s := (s.setRoster o _).setRoster n _) hp rfl

theorem fdOf_settle {p o n : ℕ} {player : Player} {x y : ℤ} (hp : s.player p = some player) :
    (s.settle p o n player x y).fdOf = s.fdOf := by
  have hget : (s.relocate p o n player).player p = some { player with refs := 2, map := some n } :=
    Function.update_self _ _ _
  rw [settle, fdOf_setPlayer hget, fdOf_relocate hp]
  rfl

/-- Leaving a map one is not listed on changes nothing. -/
theorem setRoster_erase_of_notMem {p o : ℕ} (h : p ∉ s.roster o) :
    s.setRoster o ((s.roster o).erase p) = s := by
  rw [List.erase_of_not_mem h, setRoster, Function.update_eq_self]

end Scene

/-! ## The change of the map -/

section Change

variable {defs : MapDefs} {w w' : World} {p o n : ℕ} {player : Player} {k : CString} {u : Unit}

/-- **`map_add_player`.** -/
theorem mapAddPlayer_scene (hw : Sound defs w) (hp : w.players.get p = some player)
    (h : mapAddPlayer defs n p w = .ok (u, w')) :
    Kept defs w w' ∧ w'.scene = (w.scene.setRoster n (p :: w.scene.roster n)).setPlayer p
      { player with refs := player.refs + 1, map := some n } := by
  obtain ⟨map, player₀, loaded, w₂, hmap, hp₀, hload, player₂, hp₂, rfl⟩ := mapAddPlayer_eq_ok h
  obtain rfl := Option.some.inj (hp.symm.trans hp₀)
  have hkept : Kept defs w ((w.setPlayer p { player with refs := player.refs + 1 }).setMap n
      { map with players := p :: map.players }) :=
    (Kept.setPlayer p _).trans (Kept.setPlayers (w := w.setPlayer p _) hmap _)
  have hget : ((w.setPlayer p { player with refs := player.refs + 1 }).setMap n
      { map with players := p :: map.players }).maps.get n
        = some { map with players := p :: map.players } := Heap.get_set_self _ hmap
  obtain ⟨i, -, rfl, hloads⟩ := mapLoad_self (hkept.sound hw) hget hload
  have hp₁ : w₂.players.get p = some { player with refs := player.refs + 1 } := by
    rw [hloads.players_eq]
    exact Heap.get_set_self _ hp
  obtain rfl := Option.some.inj (hp₁.symm.trans hp₂)
  refine ⟨(hkept.trans hloads.kept).trans (Kept.setPlayer p _), ?_⟩
  rw [scene_setPlayer hp₂, hloads.scene_eq, scene_setMap (w := w.setPlayer p _) hmap,
    scene_setPlayer hp,
    Scene.setRoster_setPlayer, Scene.setPlayer_setPlayer, roster_eq hmap]

/-- **The change of the map.**  The player has two references when it is listed and one
when it is not. -/
theorem changeMap_scene (hw : Sound defs w) (hp : w.players.get p = some player)
    (ho : player.map = some o) (hk : player.id = some k)
    (hrefs : player.refs = if p ∈ w.scene.roster o then 2 else 1)
    (h : changeMap defs player.map p (some n) w = .ok (u, w')) :
    Kept defs w w' ∧
      w'.scene = (w.scene.relocate p o n player).emit (w.scene.leavings p o k) := by
  simp only [changeMap, ho, Exec.bind_eq_ok] at h
  obtain ⟨⟨⟩, w₁, hremove, hadd⟩ := h
  -- the player leaves
  have hleft : Kept defs w w₁ ∧ ∃ left, w₁.players.get p = some left ∧
      left = { player with refs := 1 } ∧
      w₁.scene = ((w.scene.setRoster o ((w.scene.roster o).erase p)).setPlayer p left).emit
        (w.scene.leavings p o k) := by
    obtain ⟨map, player', id, hmap, hp', hid, hcases⟩ := mapRemovePlayer_eq_ok hremove
    obtain rfl := Option.some.inj (hp.symm.trans hp')
    obtain rfl := Option.some.inj (hk.symm.trans hid)
    have hroster := roster_eq hmap
    rcases hcases with ⟨hmem, rfl⟩ | ⟨hmem, -, rfl⟩
    · rw [← hroster] at hmem
      rw [if_neg hmem] at hrefs
      refine ⟨Kept.refl _, player, hp, by rw [← hrefs], ?_⟩
      rw [Scene.setRoster_erase_of_notMem hmem, Scene.leavings, if_neg hmem, Scene.emit_nil,
        Scene.setPlayer, show some player = w₁.scene.player p from hp.symm, Function.update_eq_self]
    · rw [← hroster] at hmem
      rw [if_pos hmem] at hrefs
      refine ⟨((Kept.setPlayers hmap _).trans (Kept.setPlayer p _)).trans (Kept.tellAll _ _),
        _, Heap.get_set_self _ hp, by rw [hrefs]; rfl, ?_⟩
      rw [scene_tellAll, scene_setPlayer (w := w.setMap o _) hp, scene_setMap hmap, hroster,
        Scene.leavings, if_pos hmem, hroster, Scene.tellAll]
      rw [Scene.copies_congr (s := w.scene)]
      exact Scene.fdOf_setPlayer (s := w.scene.setRoster o _) hp rfl
  obtain ⟨hkept, left, hp₁, rfl, hscene₁⟩ := hleft
  -- and enters
  obtain ⟨hkept', hscene'⟩ := mapAddPlayer_scene (hkept.sound hw) hp₁ hadd
  refine ⟨hkept.trans hkept', ?_⟩
  rw [hscene', hscene₁]
  simp only [Scene.setRoster_emit, Scene.setPlayer_emit, Scene.setRoster_setPlayer,
    Scene.setPlayer_setPlayer, Scene.relocate]
  rfl

variable (defs) in
/-- Switching a cell. -/
theorem toggleCoord_scene {m : ℕ} {x y : ℤ} {disable b : Bool}
    (h : toggleCoord m x y disable w = .ok (b, w')) :
    Kept defs w w' ∧ w'.scene = w.scene ∧ w'.players = w.players := by
  cases b with
  | false =>
    obtain ⟨rfl, -⟩ := toggleCoord_eq_ok_false h
    exact ⟨Kept.refl _, rfl, rfl⟩
  | true =>
    obtain ⟨map, hmap, -, -, rfl⟩ := toggleCoord_eq_ok_true h
    exact ⟨Kept.setMap hmap rfl (le_refl _), scene_setMap_of_players hmap rfl, rfl⟩

variable (defs) in
/-- Releasing the old cell. -/
theorem enableOldCoord_scene {oldMap : Option ℕ} {b : Bool}
    (h : enableOldCoord p oldMap w = .ok (b, w')) :
    Kept defs w w' ∧ w'.scene = w.scene ∧ w'.players = w.players := by
  cases oldMap with
  | none =>
    obtain ⟨-, rfl⟩ := Exec.pure_eq_ok.mp h
    exact ⟨Kept.refl _, rfl, rfl⟩
  | some m =>
    simp only [enableOldCoord, Exec.bind_eq_ok, derefPlayer_eq_ok] at h
    obtain ⟨_, _, ⟨-, rfl⟩, h⟩ := h
    exact toggleCoord_scene defs h

end Change

end World
end MmoBackend
