import MmoBackend.Library.Stops
import MmoBackend.World.Journey
import MmoBackend.World.Obstacles
import MmoBackend.World.PlayerCache
import MmoBackend.World.Progress

/-!
# Moves that meet no fault

The other files say what holds when a call has returned.  A move can also use a null
pointer, an array outside its bounds or a lock it already has, and then it does not return.
This file says that it does none of these, as long as everything it uses is there: the
player with its map and its session, everybody on the lists of the maps, the rows of the
maps and the ids the portals lead to.  `Sturdy` is that, and a move and a spawn keep it.

What is left is that a move may not come to an end.  So the statements are about `Proceeds`:
the call goes on for as long as the evaluation is not cut off.
-/

namespace MmoBackend

open Authentication Communication Db Exec Maps Player

namespace World

open Scene

/-! ## What has to be there -/

/-- A player with an id and a session, to which packets can be written. -/
def Scene.Connected (s : Scene) (q : ℕ) : Prop :=
  ∃ player k sid session, s.player q = some player ∧ player.id = some k ∧
    player.session = some sid ∧ s.session sid = some session

/-- Everybody on the lists is connected, but for the player `p` perhaps. -/
def Scene.Peopled (s : Scene) (p : ℕ) : Prop := ∀ m, ∀ q ∈ s.roster m, q ≠ p → s.Connected q

/-- Every event that changes the map has the arguments it reads, and `D` holds of them.  The
third one is read twice. -/
def Portals (defs : MapDefs) (D : ℤ → ℤ → ℤ → ℤ → Prop) : Prop :=
  ∀ base ∈ defs.loaders, ∀ e ∈ base.events, e.func = .changeMap → ∃ id x y : ℤ,
    e.staticArgs[0]? = some id ∧ e.staticArgs[1]? = some x ∧ e.staticArgs[2]? = some y ∧
      D id x y y

/-- No portal leads to the id that passes the check and has no map. -/
def ValidPortals (defs : MapDefs) : Prop := Portals defs fun id _ _ _ => id ≠ defs.count

/-- The player `p` is on its way and on a map that is in memory, and the rows of the maps are
as wide as the maps. -/
structure Afoot (s₀ : Scene) (p : ℕ) (k : CString) (sid : ℕ) (w : World) : Prop where
  way : OnWay s₀ p k sid 0 w.scene
  shapely : Shapely w
  housed : ∃ player m map, w.players.get p = some player ∧ player.map = some m ∧
    w.maps.get m = some map

/-- What the calls for the player `p` use is there, and no lock is taken. -/
structure Sturdy (defs : MapDefs) (s₀ : Scene) (p : ℕ) (k : CString) (sid : ℕ) (w : World) :
    Prop extends Afoot s₀ p k sid w where
  sound : Sound defs w
  locks : w.locks = []

variable {defs : MapDefs} {w w' v : World} {s₀ : Scene} {p q sid m n : ℕ} {k : CString}
  {player : Player} {map : Map} {x y : ℤ} {args : MoveArgs} {packet : ServerPacket}
  {E : Stop → Prop}

theorem Sound.tiled (h : Sound defs w) : Tiled w := by
  intro i m hi
  obtain ⟨map, base, hmap, hbase, hframe, -⟩ := h.tile i m hi
  exact ⟨map, hmap, (id_of_frame hframe).trans (defs.fresh i base hbase).1⟩

/-- The id of a map in memory is not the one without a map. -/
theorem Sound.id_ne_count (h : Sound defs w) (hm : w.maps.get m = some map) :
    map.id ≠ defs.count := by
  obtain ⟨i, hid, hi⟩ := h.map m map hm
  have hlt := h.lt_count hi
  omega

theorem Scene.Connected.congr {s s' : Scene} (h : s.Connected q) (hplayer : s'.player = s.player)
    (hsession : s'.session = s.session) : s'.Connected q := by
  unfold Connected
  rw [hplayer, hsession]
  exact h

/-- A player keeps its session and its id. -/
theorem Scene.Connected.setPlayer {s : Scene} {old : Player} (h : s.Connected q)
    (hp : s.player p = some old) (hid : player.id = old.id)
    (hsession : player.session = old.session) : (s.setPlayer p player).Connected q := by
  obtain ⟨other, k, sid, session, hq, hk, hsid, hs⟩ := h
  by_cases hqp : q = p
  · subst hqp
    obtain rfl := Option.some.inj (hp.symm.trans hq)
    exact ⟨player, k, sid, session, Function.update_self _ _ _, hid.trans hk,
      hsession.trans hsid, hs⟩
  · exact ⟨other, k, sid, session, (Function.update_of_ne hqp _ _).trans hq, hk, hsid, hs⟩

/-- Whoever moves, everybody on the lists stays connected. -/
theorem Scene.OnWay.connected {s : Scene} {c : ℕ} (h : OnWay s₀ p k sid c s)
    (hpeople : s₀.Peopled p) (hq : q ∈ s.roster m) : s.Connected q := by
  by_cases hqp : q = p
  · subst hqp
    obtain ⟨player, _, _, hlisted, -, hid, hsession⟩ := h.listed
    obtain ⟨session, hs⟩ := h.session
    exact ⟨player, k, sid, session, hlisted.player_eq, hid, hsession, hs⟩
  · obtain ⟨other, k', sid', session, hother, hrest⟩ :=
      hpeople m q ((h.moves.mem_roster_iff hqp).mp hq) hqp
    refine ⟨other, k', sid', session, (h.moves.player q hqp).trans hother, ?_⟩
    rw [h.moves.session]
    exact hrest

/-! ## Packets -/

theorem stopsBy_writeToPlayer (h : w.scene.Connected q) :
    StopsBy E (writeToPlayer packet q) w := by
  obtain ⟨player, k, sid, session, hq, -, hsid, hs⟩ := h
  refine stopsBy_bind_ok (derefPlayer_eq_ok.mpr ⟨hq, rfl⟩) (stopsBy_need_bind hsid ?_)
  exact stopsBy_bind_ok (derefSession_eq_ok.mpr ⟨hs, rfl⟩) (stopsBy_modify _)

theorem stopsBy_sendToPlayer (h : w.scene.Connected q) :
    StopsBy E (sendToPlayer packet q) w := by
  obtain ⟨player, k, sid, session, hq, -, hsid, hs⟩ := h
  refine stopsBy_bind_ok (derefPlayer_eq_ok.mpr ⟨hq, rfl⟩) ?_
  rw [hsid]
  exact stopsBy_bind_ok (derefSession_eq_ok.mpr ⟨hs, rfl⟩) (stopsBy_modify _)

/-- A loop that tells every player of a list something. -/
theorem stopsBy_forEach_tell {f : ℕ → Exec World Unit} {l : List ℕ}
    (hf : ∀ {q v}, v.scene.Connected q → StopsBy E (f q) v)
    (htell : ∀ {q v v'}, f q v = .ok ((), v') → ∃ l, v' = v.emit l)
    (h : ∀ q ∈ l, w.scene.Connected q) : StopsBy E (forEach l f) w := by
  refine stopsBy_forEach (I := fun v => v.scene.player = w.scene.player ∧
    v.scene.session = w.scene.session) (fun q hq v hv => ⟨?_, fun v' hv' => ?_⟩) ⟨rfl, rfl⟩
  · exact hf ((h q hq).congr hv.1 hv.2)
  · obtain ⟨l, rfl⟩ := htell hv'
    exact hv

theorem stopsBy_mapSendPacket {packet : Option ServerPacket} (hm : w.maps.get m = some map)
    (h : ∀ q ∈ map.players, w.scene.Connected q) :
    StopsBy E (mapSendPacket (some m) packet) w := by
  cases packet with
  | none => exact stopsBy_pure ()
  | some sent =>
    refine stopsBy_bind_ok (derefMap_eq_ok.mpr ⟨hm, rfl⟩) (stopsBy_forEach_tell
      stopsBy_sendToPlayer (fun hq => ⟨_, sendToPlayer_eq_ok hq⟩) h)

/-! ## The lists -/

theorem stopsBy_mapLoad {i : ℤ} (hw : Sound defs w) (hlocks : w.locks = [])
    (hi : i ≠ defs.count) : StopsBy E (mapLoad defs i) w := by
  obtain ⟨r, w', hload⟩ := mapLoad_returns hw.tiled hlocks hi
  exact stopsBy_of_ok hload

/-- The player is taken out of the list, and keeps references. -/
theorem unlinkPlayer_run (hlocks : w.locks = []) (hm : w.maps.get m = some map)
    (hmem : p ∈ map.players) (hp : w.players.get p = some player) (hrefs : 1 < player.refs) :
    unlinkPlayer defs m p w = .ok (true,
      (w.setMap m { map with players := map.players.erase p }).setPlayer p
        { player with refs := player.refs - 1 }) := by
  have hfree : playerFree defs p (w.setMap m { map with players := map.players.erase p })
      = .ok ((), _) := playerFreeWith_more _ hlocks hp (by omega)
  rw [unlinkPlayer, bind_of_ok (derefMap_eq_ok.mpr ⟨hm, rfl⟩), if_pos hmem,
    modify_bind, bind_of_ok hfree]
  rfl

theorem unlinkPlayer_run_of_notMem (hm : w.maps.get m = some map) (hmem : p ∉ map.players) :
    unlinkPlayer defs m p w = .ok (false, w) := by
  rw [unlinkPlayer, bind_of_ok (derefMap_eq_ok.mpr ⟨hm, rfl⟩), if_neg hmem]
  rfl

/-- **`map_remove_player`** of a player that keeps references. -/
theorem stopsBy_mapRemovePlayer (hlocks : w.locks = []) (hm : w.maps.get m = some map)
    (hp : w.players.get p = some player) (hid : player.id = some k)
    (hrefs : p ∈ map.players → 1 < player.refs)
    (h : ∀ q ∈ map.players, w.scene.Connected q) :
    StopsBy E (mapRemovePlayer defs (some m) p) w := by
  by_cases hmem : p ∈ map.players
  · refine stopsBy_bind_ok (unlinkPlayer_run hlocks hm hmem hp (hrefs hmem)) ?_
    have hp' : ((w.setMap m { map with players := map.players.erase p }).setPlayer p
        { player with refs := player.refs - 1 }).players.get p
          = some { player with refs := player.refs - 1 } := Heap.get_set_self _ hp
    have hm' : ((w.setMap m { map with players := map.players.erase p }).setPlayer p
        { player with refs := player.refs - 1 }).maps.get m
          = some { map with players := map.players.erase p } := Heap.get_set_self _ hm
    refine stopsBy_bind_ok (derefPlayer_eq_ok.mpr ⟨hp', rfl⟩) (stopsBy_need_bind hid ?_)
    refine stopsBy_ite (fun _ => ?_) fun hnot => absurd rfl hnot
    refine stopsBy_bind_ok (derefMap_eq_ok.mpr ⟨hm', rfl⟩) (stopsBy_forEach_tell
      stopsBy_writeToPlayer (fun hq => ⟨_, (writeToPlayer_eq_ok hq).2⟩) fun q hq => ?_)
    rw [scene_setPlayer (w := w.setMap m _) hp]
    have hconnected := h q (List.mem_of_mem_erase hq)
    exact (@Connected.congr q _ (w.setMap m _).scene hconnected rfl rfl).setPlayer hp rfl rfl
  · refine stopsBy_bind_ok (unlinkPlayer_run_of_notMem hm hmem) ?_
    refine stopsBy_bind_ok (derefPlayer_eq_ok.mpr ⟨hp, rfl⟩) (stopsBy_need_bind hid ?_)
    exact stopsBy_ite (fun htrue => absurd htrue (by simp)) fun _ => stopsBy_pure ()

theorem playerRef_run (hlocks : w.locks = []) (hp : w.players.get p = some player) :
    playerRef p w = .ok ((), w.setPlayer p { player with refs := player.refs + 1 }) := by
  simp only [playerRef, bind_eq_ok, lock_eq_ok, updatePlayer_eq_ok, unlock_eq_ok]
  refine ⟨(), _, ⟨by rw [hlocks]; exact List.not_mem_nil, rfl⟩, (), _, ⟨player, hp, rfl⟩, ?_⟩
  show World.setLocks ((Lock.player p :: w.locks).erase (.player p)) (w.setPlayer p _) = _
  rw [List.erase_cons_head]
  rfl

/-- **`map_add_player`.** -/
theorem stopsBy_mapAddPlayer (hw : Sound defs w) (hlocks : w.locks = [])
    (hm : w.maps.get m = some map) (hp : w.players.get p = some player) :
    StopsBy E (mapAddPlayer defs m p) w := by
  have hkept : Kept defs w ((w.setPlayer p { player with refs := player.refs + 1 }).setMap m
      { map with players := p :: map.players }) :=
    (Kept.setPlayer p _).trans (Kept.setPlayers (w := w.setPlayer p _) hm _)
  have hget : ((w.setPlayer p { player with refs := player.refs + 1 }).setMap m
      { map with players := p :: map.players }).maps.get m
        = some { map with players := p :: map.players } := Heap.get_set_self _ hm
  refine stopsBy_bind_ok (playerRef_run hlocks hp) ?_
  refine stopsBy_bind_ok ((updateMap_eq_ok (u := ())).mpr ⟨map, hm, rfl⟩) ?_
  refine stopsBy_bind_ok (derefMap_eq_ok.mpr ⟨hget, rfl⟩) ?_
  refine stopsBy_bind (stopsBy_mapLoad (hkept.sound hw) hlocks
    ((hkept.sound hw).id_ne_count hget)) ?_
  intro loaded w₂ hload
  obtain ⟨i, -, -, hloads⟩ := mapLoad_self (hkept.sound hw) hget hload
  have hp₂ : w₂.players.get p = some { player with refs := player.refs + 1 } := by
    rw [hloads.players_eq]
    exact Heap.get_set_self _ hp
  exact stopsBy_of_ok ((updatePlayer_eq_ok (u := ())).mpr ⟨_, hp₂, rfl⟩)

/-! ## Cells -/

/-- On a map whose rows are as wide as the map every cell can be switched. -/
theorem stopsBy_toggleCoord (hw : Shapely w) (hm : w.maps.get m = some map) (x y : ℤ)
    (disable : Bool) : StopsBy E (toggleCoord m x y disable) w := by
  refine stopsBy_bind_ok (derefMap_eq_ok.mpr ⟨hm, rfl⟩) ?_
  rcases mapToggleCoord_spec (hw m map hm) x y disable with ⟨htoggle, -⟩ | ⟨htoggle, -⟩
  · exact stopsBy_need_bind htoggle (stopsBy_bind_ok rfl (stopsBy_pure _))
  · exact stopsBy_need_bind htoggle (stopsBy_bind_ok rfl (stopsBy_pure _))

/-! ## What a move keeps -/

section Keep

variable {i : ℕ} {u : Unit}

namespace Afoot

theorem emit (h : Afoot s₀ p k sid w) (l : List (ℕ × Sent)) : Afoot s₀ p k sid (w.emit l) :=
  ⟨h.way.emit l, h.shapely, h.housed⟩

/-- The player and the maps may be written, if it stays on a map. -/
theorem still (hdefs : defs.WellShaped) (h : Afoot s₀ p k sid w) (hstill : Still defs w w') :
    Afoot s₀ p k sid w' := by
  refine ⟨loose_onWay.still w w' h.way hstill, hstill.bits.shapely hdefs h.shapely, ?_⟩
  obtain ⟨player, m, map, hp, hm, hmap⟩ := h.housed
  obtain ⟨map', hmap', -⟩ := hstill.maps m map hmap
  exact ⟨player, m, map', (congrFun (congrArg Scene.player hstill.scene) p).trans hp, hm, hmap'⟩

theorem changeMap (hdefs : defs.WellShaped) (hw : Sound defs w) (h : Afoot s₀ p k sid w)
    (hp : w.players.get p = some player)
    (hargs : ∀ n, args.map = some n → ∃ map, w.maps.get n = some map)
    (hchange : World.changeMap defs player.map p args.map w = .ok (u, w')) :
    Kept defs w w' ∧ Afoot s₀ p k sid w' ∧
      ∀ n, args.map = some n → (w'.players.get p).bind Player.map = some n := by
  obtain ⟨hkept, hway, -⟩ := OnWay.changeMap hw h.way hp hchange
  have hshapely := (sameBits_changeMap hchange).shapely hdefs h.shapely
  cases hn : args.map with
  | none =>
    rw [hn] at hchange
    obtain ⟨-, rfl⟩ := pure_eq_ok.mp hchange
    exact ⟨hkept, h, fun n hn => absurd hn.symm (Option.some_ne_none n)⟩
  | some n =>
    rw [hn] at hchange
    obtain ⟨player', o, c, hlisted, -, hid, -⟩ := h.way.listed
    obtain rfl := Option.some.inj (hp.symm.trans hlisted.player_eq)
    obtain ⟨-, hscene⟩ := changeMap_scene hw hp hlisted.map_eq hid hlisted.refs_ite hchange
    obtain ⟨map, hmap⟩ := hargs n hn
    obtain ⟨map', hmap', -⟩ := hkept.maps n map hmap
    have hmover : w'.players.get p = some { player with refs := 2, map := some n } :=
      (congrFun (congrArg Scene.player hscene) p).trans (Function.update_self _ _ _)
    refine ⟨hkept, ⟨hway, hshapely, _, n, map', hmover, rfl, hmap'⟩, fun n' hn' => ?_⟩
    rw [hmover, ← hn']
    rfl

/-- Nothing but bits is changed. -/
theorem bits (h : Afoot s₀ p k sid w) (hkept : Kept defs w w') (hscene : w'.scene = w.scene)
    (hshapely : Shapely w') : Afoot s₀ p k sid w' := by
  refine ⟨hscene ▸ h.way, hshapely, ?_⟩
  obtain ⟨player, m, map, hp, hm, hmap⟩ := h.housed
  obtain ⟨map', hmap', -⟩ := hkept.maps m map hmap
  exact ⟨player, m, map', (congrFun (congrArg Scene.player hscene) p).trans hp, hm, hmap'⟩

theorem toggleCoord (defs : MapDefs) {disable b : Bool} (h : Afoot s₀ p k sid w)
    (htoggle : World.toggleCoord m x y disable w = .ok (b, w')) : Afoot s₀ p k sid w' := by
  obtain ⟨hkept, hscene, -⟩ := toggleCoord_scene defs htoggle
  refine h.bits hkept hscene ?_
  cases b with
  | false =>
    obtain ⟨rfl, -⟩ := toggleCoord_eq_ok_false htoggle
    exact h.shapely
  | true =>
    obtain ⟨map, hm, -, -, rfl⟩ := toggleCoord_eq_ok_true htoggle
    exact h.shapely.switchCoord hm disable

theorem enableOldCoord (defs : MapDefs) {oldMap : Option ℕ} {b : Bool} (h : Afoot s₀ p k sid w)
    (henable : World.enableOldCoord p oldMap w = .ok (b, w')) : Afoot s₀ p k sid w' := by
  cases oldMap with
  | none =>
    obtain ⟨-, rfl⟩ := pure_eq_ok.mp henable
    exact h
  | some o =>
    simp only [World.enableOldCoord, bind_eq_ok, derefPlayer_eq_ok] at henable
    obtain ⟨_, _, ⟨-, rfl⟩, htoggle⟩ := henable
    exact h.toggleCoord defs htoggle

/-- The player stands somewhere else. -/
theorem place (h : Afoot s₀ p k sid w) (hp : w.players.get p = some player) :
    Afoot s₀ p k sid (w.setPlayer p { player with x := x, y := y }) := by
  obtain ⟨player', m, map, hp', hm, hmap⟩ := h.housed
  obtain rfl := Option.some.inj (hp.symm.trans hp')
  exact ⟨OnWay.place h.way hp, h.shapely, _, m, map, Heap.get_set_self _ hp, hm, hmap⟩

/-- **A shift.** -/
theorem shift (hdefs : defs.WellShaped) (hw : Sound defs w) (h : Afoot s₀ p k sid w)
    (hargs : ∀ n, args.map = some n → ∃ map, w.maps.get n = some map)
    (hshift : Shift defs p x y args w v) : Kept defs w v ∧ Afoot s₀ p k sid v := by
  cases hshift with
  | tooFar => exact ⟨Kept.refl _, h⟩
  | refused htarget =>
    obtain ⟨hkept, hafoot, -⟩ := h.changeMap hdefs hw htarget.player_eq hargs htarget.changed
    exact ⟨hkept, hafoot⟩
  | stuck htarget htoggle =>
    obtain ⟨hkept, hafoot, -⟩ := h.changeMap hdefs hw htarget.player_eq hargs htarget.changed
    exact ⟨hkept.trans (toggleCoord_scene defs htoggle).1, hafoot.toggleCoord defs htoggle⟩
  | moved htarget _ htoggle henable hp₃ =>
    obtain ⟨hkept, hafoot, -⟩ := h.changeMap hdefs hw htarget.player_eq hargs htarget.changed
    have hkept₂ := hkept.trans (toggleCoord_scene defs htoggle).1
    have hkept₃ := hkept₂.trans (enableOldCoord_scene defs henable).1
    exact ⟨hkept₃.trans (Kept.setPlayer p _),
      ((hafoot.toggleCoord defs htoggle).enableOldCoord defs henable).place hp₃⟩

end Afoot

theorem carried_afoot (hdefs : defs.WellShaped) :
    Carried defs p (fun _ _ _ => True) fun v => Afoot s₀ p k sid v where
  still _ _ h hstill := h.still hdefs hstill
  emit _ l h := h.emit l
  aboard v h := by
    obtain ⟨player, m, session, haboard⟩ := OnWay.aboard h.way
    exact ⟨player, k, m, sid, session, haboard⟩
  shift v v' i n x y suppress hv h htile _ hshift := by
    refine h.shift hdefs hv (fun m hm => ?_) hshift
    obtain rfl := Option.some.inj hm
    obtain ⟨map, _, hmap, -⟩ := hv.tile i n htile
    exact ⟨map, hmap⟩

namespace Sturdy

/-- A call that keeps the registry and gives its locks back. -/
theorem next (h : Sturdy defs s₀ p k sid w) (hkept : Kept defs w w')
    (hafoot : Afoot s₀ p k sid w') (hlocks : w'.locks = w.locks) :
    Sturdy defs s₀ p k sid w' := ⟨hafoot, hkept.sound h.sound, hlocks.trans h.locks⟩

theorem emit (h : Sturdy defs s₀ p k sid w) (l : List (ℕ × Sent)) :
    Sturdy defs s₀ p k sid (w.emit l) := h.next (Kept.emit l) (h.toAfoot.emit l) rfl

theorem loads (hdefs : defs.WellShaped) (h : Sturdy defs s₀ p k sid w)
    (hloads : Loads defs w i m map w') : Sturdy defs s₀ p k sid w' := by
  refine h.next hloads.kept (h.toAfoot.still hdefs hloads.still) ?_
  cases hloads <;> rfl

theorem changeMap (hdefs : defs.WellShaped) (h : Sturdy defs s₀ p k sid w)
    (hp : w.players.get p = some player)
    (hargs : ∀ n, args.map = some n → ∃ map, w.maps.get n = some map)
    (hchange : World.changeMap defs player.map p args.map w = .ok (u, w')) :
    Kept defs w w' ∧ Sturdy defs s₀ p k sid w' ∧
      ∀ n, args.map = some n → (w'.players.get p).bind Player.map = some n := by
  obtain ⟨hkept, hafoot, hmap⟩ := h.toAfoot.changeMap hdefs h.sound hp hargs hchange
  exact ⟨hkept, h.next hkept hafoot (within_changeMap _ _ _ _ _ _ hchange).locks_eq, hmap⟩

/-- **A spawn.** -/
theorem spawn {fuel : ℕ} {id suppress r : ℤ} (hdefs : defs.WellShaped)
    (h : Sturdy defs s₀ p k sid w)
    (hspawn : mapSpawnPlayer defs fuel id p x y suppress w = .ok (r, w')) :
    Kept defs w w' ∧ Sturdy defs s₀ p k sid w' := by
  obtain ⟨hkept, hafoot⟩ := mapSpawnPlayer_rule (carried_afoot hdefs) destinations_true fuel id x y
    suppress w w' r h.sound h.toAfoot (fun _ _ _ => trivial) hspawn
  exact ⟨hkept, h.next hkept hafoot (within_mapSpawnPlayer _ _ _ _ _ _ _ _ _ hspawn).locks_eq⟩

end Sturdy

end Keep

/-! ## Moves -/

section Moves

variable {u : Unit}

namespace Sturdy

/-- The player and its map. -/
theorem mover (h : Sturdy defs s₀ p k sid w) : ∃ player m map, w.players.get p = some player ∧
    player.id = some k ∧ player.session = some sid ∧ player.map = some m ∧
      w.maps.get m = some map := by
  obtain ⟨player, m, map, hp, hm, hmap⟩ := h.housed
  obtain ⟨player', _, _, hlisted, -, hid, hsession⟩ := h.way.listed
  obtain rfl := Option.some.inj (hp.symm.trans hlisted.player_eq)
  exact ⟨player, m, map, hp, hid, hsession, hm, hmap⟩

theorem stopsBy_changeMap (hpeople : s₀.Peopled p) (h : Sturdy defs s₀ p k sid w)
    (hp : w.players.get p = some player)
    (hargs : ∀ n, args.map = some n → ∃ map, w.maps.get n = some map) :
    StopsBy E (World.changeMap defs player.map p args.map) w := by
  cases hn : args.map with
  | none => exact stopsBy_pure ()
  | some n =>
    obtain ⟨player', m, map, hp', hid, -, hm, hmap⟩ := h.mover
    obtain rfl := Option.some.inj (hp.symm.trans hp')
    obtain ⟨player', _, c, hlisted, -⟩ := h.way.listed
    obtain rfl := Option.some.inj (hp.symm.trans hlisted.player_eq)
    obtain rfl := Option.some.inj (hm.symm.trans hlisted.map_eq)
    have hmem : p ∈ map.players → 1 < player.refs := by
      intro hmem
      rw [← roster_eq hmap] at hmem
      rw [hlisted.refs_eq, hlisted.mem_iff.mp hmem]
      norm_num
    have hall : ∀ q ∈ map.players, w.scene.Connected q := fun q hq =>
      h.way.connected hpeople (m := m) (by rw [roster_eq hmap]; exact hq)
    obtain ⟨target, htarget⟩ := hargs n hn
    rw [hm]
    refine stopsBy_bind (stopsBy_mapRemovePlayer h.locks hmap hp hid hmem hall) ?_
    intro u v hremove
    obtain ⟨map', player', _, hmap', hp₁, -, ⟨-, rfl⟩ | ⟨-, -, rfl⟩⟩ :=
      mapRemovePlayer_eq_ok hremove
    · exact stopsBy_mapAddPlayer h.sound h.locks htarget hp
    · have hkept : Kept defs w _ := ((Kept.setPlayers hmap' (map'.players.erase p)).trans
        (Kept.setPlayer p { player' with refs := player'.refs - 1 })).trans
          (Kept.tellAll (map'.players.erase p) (.leavingMap ‹CString›))
      obtain ⟨target', htarget', -⟩ := hkept.maps n target htarget
      exact stopsBy_mapAddPlayer (hkept.sound h.sound) h.locks htarget'
        (Heap.get_set_self _ hp₁)

/-- The rest of a move, from the assignment of the coordinates on. -/
theorem stopsBy_moveTo {activate : ℤ → ℤ → ℕ → ℕ → Exec World Unit} {suppress : Bool}
    (hpeople : s₀.Peopled p) (h : Sturdy defs s₀ p k sid w)
    (hp : w.players.get p = some player) (hm : player.map = some m)
    (hactivate : suppress = false → ∀ v, Kept defs w v → Sturdy defs s₀ p k sid v →
      StopsBy E (activate x y m p) v ∧
        ∀ v', activate x y m p v = .ok ((), v') → Sturdy defs s₀ p k sid v') :
    StopsBy E (moveTo activate p x y suppress) w := by
  have hkept : Kept defs w (w.setPlayer p { player with x := x, y := y }) := Kept.setPlayer p _
  have hplaced : Sturdy defs s₀ p k sid (w.setPlayer p { player with x := x, y := y }) :=
    h.next hkept (h.toAfoot.place hp) rfl
  have hp' := Heap.get_set_self { player with x := x, y := y } hp
  refine stopsBy_bind_ok ((updatePlayer_eq_ok (u := ())).mpr ⟨player, hp, rfl⟩) ?_
  refine stopsBy_bind (stopsBy_ite (fun _ => stopsBy_pure ()) fun hs => ?_) fun u v htrigger => ?_
  · refine stopsBy_bind_ok (derefPlayer_eq_ok.mpr ⟨hp', rfl⟩) (stopsBy_need_bind hm ?_)
    exact (hactivate (by simpa using hs) _ hkept hplaced).1
  · have hv : Sturdy defs s₀ p k sid v := by
      rcases triggerEvents_eq_ok htrigger with ⟨-, rfl⟩ | ⟨hs, player', m', hp'', hm', hrun⟩
      · exact hplaced
      · obtain rfl := Option.some.inj (hp'.symm.trans hp'')
        obtain rfl := Option.some.inj (hm.symm.trans hm')
        exact (hactivate hs _ hkept hplaced).2 v hrun
    obtain ⟨player', m', map', hp'', -, -, hm', hmap'⟩ := hv.mover
    refine stopsBy_bind_ok (derefPlayer_eq_ok.mpr ⟨hp'', rfl⟩) ?_
    rw [hm']
    exact stopsBy_mapSendPacket hmap' fun q hq =>
      hv.way.connected hpeople (m := m') (by rw [roster_eq hmap']; exact hq)

theorem stopsBy_enableOldCoord {oldMap : Option ℕ} (h : Sturdy defs s₀ p k sid w)
    (hold : ∀ o, oldMap = some o → ∃ map, w.maps.get o = some map) :
    StopsBy E (enableOldCoord p oldMap) w := by
  cases ho : oldMap with
  | none => exact stopsBy_pure true
  | some o =>
    obtain ⟨player, _, _, hp, -⟩ := h.mover
    obtain ⟨map, hmap⟩ := hold o ho
    exact stopsBy_bind_ok (derefPlayer_eq_ok.mpr ⟨hp, rfl⟩)
      (stopsBy_toggleCoord h.shapely hmap _ _ false)

/-- **`player_move`** stops for no reason but those of the events.  These are activated on a
cell of the map the player is moved to, if it is. -/
theorem stopsBy_playerMoveWith {activate : ℤ → ℤ → ℕ → ℕ → Exec World Unit}
    (hdefs : defs.WellShaped) (hpeople : s₀.Peopled p) (h : Sturdy defs s₀ p k sid w)
    (hargs : ∀ n, args.map = some n → ∃ map, w.maps.get n = some map)
    (hactivate : args.suppressEvents = false → ∀ m map v, (∀ n, args.map = some n → m = n) →
      Kept defs w v → Sturdy defs s₀ p k sid v → v.maps.get m = some map →
        mapCheckBounds map x y = true → StopsBy E (activate x y m p) v ∧
          ∀ v', activate x y m p v = .ok ((), v') → Sturdy defs s₀ p k sid v') :
    StopsBy E (playerMoveWith defs activate p x y args) w := by
  obtain ⟨player, o, old, hp, -, -, ho, hold⟩ := h.mover
  refine stopsBy_bind_ok (derefPlayer_eq_ok.mpr ⟨hp, rfl⟩) ?_
  refine stopsBy_bind (h.stopsBy_changeMap hpeople hp hargs) fun u w₁ hchange => ?_
  obtain ⟨hkept, h₁, htarget⟩ := h.changeMap hdefs hp hargs hchange
  obtain ⟨mover, m, map, hp₁, -, -, hm, hmap⟩ := h₁.mover
  have hvalid : ∃ valid, moveValid p x y args.map w₁ = .ok (valid, w₁) := by
    cases args.map with
    | none => exact ⟨_, bind_of_ok (derefPlayer_eq_ok.mpr ⟨hp₁, rfl⟩)⟩
    | some n => exact ⟨true, rfl⟩
  obtain ⟨valid, hvalid⟩ := hvalid
  refine stopsBy_bind_ok hvalid (stopsBy_ite (fun _ => ?_) fun _ => stopsBy_pure false)
  refine stopsBy_bind_ok (derefPlayer_eq_ok.mpr ⟨hp₁, rfl⟩) (stopsBy_need_bind hm ?_)
  refine stopsBy_bind_ok (derefMap_eq_ok.mpr ⟨hmap, rfl⟩) ?_
  refine stopsBy_ite (fun hbounds => ?_) fun _ => stopsBy_pure false
  refine stopsBy_bind (stopsBy_toggleCoord h₁.shapely hmap x y true) fun b w₂ htoggle => ?_
  obtain ⟨hkept₂, -, hplayers₂⟩ := toggleCoord_scene defs htoggle
  have h₂ := h₁.next hkept₂ (h₁.toAfoot.toggleCoord defs htoggle)
    (@within_toggleCoord defs m x y true _ _ _ htoggle).locks_eq
  refine stopsBy_ite (fun _ => ?_) fun _ => stopsBy_pure false
  have hold₂ : ∀ o', player.map = some o' → ∃ map, w₂.maps.get o' = some map := by
    intro o' ho'
    obtain rfl := Option.some.inj (ho.symm.trans ho')
    obtain ⟨old', hold', -⟩ := (hkept.trans hkept₂).maps o old hold
    exact ⟨old', hold'⟩
  refine stopsBy_bind (h₂.stopsBy_enableOldCoord hold₂) fun b w₃ henable => ?_
  obtain ⟨hkept₃, -, hplayers₃⟩ := enableOldCoord_scene defs henable
  have h₃ := h₂.next hkept₃ (h₂.toAfoot.enableOldCoord defs henable)
    (@within_enableOldCoord defs p _ _ _ _ henable).locks_eq
  refine stopsBy_ite (fun _ => ?_) fun _ => stopsBy_pure false
  have hp₃ : w₃.players.get p = some mover := by rw [hplayers₃, hplayers₂, hp₁]
  have hmoveTo : StopsBy E (World.moveTo activate p x y args.suppressEvents) w₃ :=
    h₃.stopsBy_moveTo hpeople hp₃ hm fun hs v hv hsturdy => ?_
  · exact stopsBy_bind hmoveTo fun _ _ _ => stopsBy_pure true
  · have hall := hkept₂.trans (hkept₃.trans hv)
    obtain ⟨map', hmap', hframe⟩ := hall.maps m map hmap
    refine hactivate hs m map' v (fun n hn => ?_) (hkept.trans hall) hsturdy hmap' ?_
    · have hmover := htarget n hn
      rw [hp₁, Option.bind_some, hm] at hmover
      exact Option.some.inj hmover
    · rw [mapCheckBounds_of_frame hframe]
      exact hbounds

end Sturdy

/-! ## Events -/

theorem mapUnload_run {i : ℕ} (hw : Sound defs w) (hlocks : w.locks = []) (hi : w.tiles i = some m)
    (hm : w.maps.get m = some map) (hrefs : 1 < map.refs) :
    mapUnload defs i w = .ok ((), w.setMap m { map with refs := map.refs - 1 }) := by
  have hlt := hw.lt_count hi
  have hloader : defs.loaders[i]? = some defs.loaders[i] := List.getElem?_eq_getElem hlt
  have hlock : lock (.map i) w = .ok ((), w.setLocks [.map i]) :=
    lock_eq_ok.mpr ⟨by rw [hlocks]; exact List.not_mem_nil, by rw [hlocks]⟩
  have hm' : (w.setLocks [.map i]).maps.get m = some map := hm
  rw [mapUnload, mapUnloadWith, if_neg (by omega), mapUnloadTile, Int.toNat_natCast, hloader,
    need_some_bind, get_bind, hi]
  dsimp only
  rw [bind_of_ok hlock]
  have hunref : unrefTile (playerFree defs) i m (w.setLocks [.map i])
      = .ok ((), (w.setLocks [.map i]).setMap m { map with refs := map.refs - 1 }) := by
    rw [unrefTile, bind_of_ok (derefMap_eq_ok.mpr ⟨hm', rfl⟩),
      modify_bind, if_neg (by omega)]
    rfl
  rw [bind_of_ok hunref]
  show Except.ok ((), World.setLocks ([Lock.map i].erase (.map i)) (w.setMap m _)) = _
  rw [List.erase_cons_head, setLocks_nil (w := w.setMap m _) hlocks]

section Events

variable {spawn : ℤ → ℕ → ℤ → ℤ → ℤ → Exec World ℤ} {D : ℤ → ℤ → ℤ → ℤ → Prop} {u : Unit}

/-- The spawns of the player `p` with the arguments `D` stop for no reason but those in `E`,
and keep what they need. -/
def SpawnsStop (E : Stop → Prop) (D : ℤ → ℤ → ℤ → ℤ → Prop) (defs : MapDefs) (s₀ : Scene) (p : ℕ)
    (k : CString) (sid : ℕ) (spawn : ℤ → ℕ → ℤ → ℤ → ℤ → Exec World ℤ) : Prop :=
  ∀ id x y suppress v, D id x y suppress → Sturdy defs s₀ p k sid v →
    StopsBy E (spawn id p x y suppress) v ∧ ∀ r v', spawn id p x y suppress v = .ok (r, v') →
      Kept defs v v' ∧ Sturdy defs s₀ p k sid v'

/-- Likewise for the change of the map of an event. -/
def EventStops (E : Stop → Prop) (defs : MapDefs) (s₀ : Scene) (p : ℕ) (k : CString) (sid : ℕ)
    (spawn : ℤ → ℕ → ℤ → ℤ → ℤ → Exec World ℤ) (e : MapEvent) (v : World) : Prop :=
  StopsBy E (mapEventChangeMap spawn p e) v ∧ ∀ v', mapEventChangeMap spawn p e v = .ok ((), v') →
    Kept defs v v' ∧ Sturdy defs s₀ p k sid v'

theorem stopsBy_mapEventChangeMap {e : MapEvent} {id : ℤ} (hid : e.staticArgs[0]? = some id)
    (hx : e.staticArgs[1]? = some x) (hy : e.staticArgs[2]? = some y)
    (hspawn : StopsBy E (spawn id p x y y) w) : StopsBy E (mapEventChangeMap spawn p e) w := by
  refine stopsBy_need_bind hid (stopsBy_need_bind hx (stopsBy_need_bind hy ?_))
  exact stopsBy_need_bind hy (stopsBy_bind hspawn fun _ _ _ => stopsBy_pure ())

theorem mapEventChangeMap_eq_ok {e : MapEvent} {id : ℤ} (hid : e.staticArgs[0]? = some id)
    (hx : e.staticArgs[1]? = some x) (hy : e.staticArgs[2]? = some y)
    (h : mapEventChangeMap spawn p e w = .ok (u, w')) : ∃ r, spawn id p x y y w = .ok (r, w') := by
  simp only [mapEventChangeMap, hid, hx, hy, need_some_bind, bind_eq_ok, pure_eq_ok] at h
  obtain ⟨r, _, hspawn, -, rfl⟩ := h
  exact ⟨r, hspawn⟩

/-- The events spawn the player with the arguments they have. -/
theorem SpawnsStop.event {e : MapEvent} {base : Map} (hportals : Portals defs D)
    (hspawn : SpawnsStop E D defs s₀ p k sid spawn) (hbase : base ∈ defs.loaders)
    (he : e ∈ base.events) (hfunc : e.func = .changeMap) (h : Sturdy defs s₀ p k sid w) :
    EventStops E defs s₀ p k sid spawn e w := by
  obtain ⟨id, x, y, hid, hx, hy, hD⟩ := hportals base hbase e he hfunc
  obtain ⟨hstops, hkeeps⟩ := hspawn id x y y w hD h
  refine ⟨stopsBy_mapEventChangeMap hid hx hy hstops, fun w' hchange => ?_⟩
  obtain ⟨r, hrun⟩ := mapEventChangeMap_eq_ok hid hx hy hchange
  exact hkeeps r w' hrun

namespace Sturdy

/-- One event. -/
theorem activateEvent {e : MapEvent} (h : Sturdy defs s₀ p k sid w)
    (hm : w.maps.get m = some map) (hevent : e.x = x → e.y = y → e.func = .changeMap →
      EventStops E defs s₀ p k sid spawn e w) :
    StopsBy E (World.activateEvent spawn x y m p e) w ∧
      ∀ w', World.activateEvent spawn x y m p e w = .ok ((), w') →
        Kept defs w w' ∧ Sturdy defs s₀ p k sid w' := by
  refine ⟨?_, fun w' hrun => ?_⟩
  · refine stopsBy_bind_ok (derefMap_eq_ok.mpr ⟨hm, rfl⟩) ?_
    refine stopsBy_ite (fun hcell => ?_) fun _ => stopsBy_pure ()
    obtain ⟨player, _, _, hp, -⟩ := h.mover
    unfold eventFunc
    cases hfunc : e.func with
    | changeMap => exact (hevent hcell.1 hcell.2 hfunc).1
    | _ => exact stopsBy_bind_ok (derefPlayer_eq_ok.mpr ⟨hp, rfl⟩) (stopsBy_pure ())
  · rcases activateEvent_eq_ok hrun with ⟨⟨hx, hy, hfunc⟩, hchange⟩ | ⟨-, rfl⟩
    · exact (hevent hx hy hfunc).2 w' hchange
    · exact ⟨Kept.refl _, h⟩

/-- **The events of a cell.** -/
theorem mapEventActivate (hdefs : defs.WellShaped) (h : Sturdy defs s₀ p k sid w)
    (hm : w.maps.get m = some map)
    (hevents : ∀ e ∈ map.events, e.x = x → e.y = y → e.func = .changeMap →
      ∀ v, Sturdy defs s₀ p k sid v → EventStops E defs s₀ p k sid spawn e v) :
    StopsBy E (World.mapEventActivate defs spawn x y m p) w ∧
      ∀ w', World.mapEventActivate defs spawn x y m p w = .ok ((), w') →
        Sturdy defs s₀ p k sid w' := by
  obtain ⟨i, hid, hi⟩ := h.sound.map m map hm
  have hone := h.sound.one_le_refs hm
  -- the loop starts with a reference more
  have hloop : ∀ {v}, Loads defs w i m map v →
      Sturdy defs s₀ p k sid v ∧
        ∀ e ∈ map.events, ∀ v₁, Kept defs v v₁ ∧ Sturdy defs s₀ p k sid v₁ →
          StopsBy E (World.activateEvent spawn x y m p e) v₁ ∧
            ∀ v₂, World.activateEvent spawn x y m p e v₁ = .ok ((), v₂) →
              Kept defs v v₂ ∧ Sturdy defs s₀ p k sid v₂ := by
    intro v hloads
    refine ⟨h.loads hdefs hloads, fun e he v₁ hv₁ => ?_⟩
    obtain ⟨map₁, hmap₁, -⟩ := hv₁.1.maps m _ hloads.get_eq
    obtain ⟨hstops, hkeeps⟩ := hv₁.2.activateEvent hmap₁ fun hx hy hfunc =>
      hevents e he hx hy hfunc v₁ hv₁.2
    exact ⟨hstops, fun v₂ hv₂ => ⟨hv₁.1.trans (hkeeps v₂ hv₂).1, (hkeeps v₂ hv₂).2⟩⟩
  refine ⟨?_, fun w' hrun => ?_⟩
  · refine stopsBy_bind_ok (derefMap_eq_ok.mpr ⟨hm, rfl⟩) ?_
    refine stopsBy_bind (stopsBy_mapLoad h.sound h.locks (h.sound.id_ne_count hm)) ?_
    intro loaded v hload
    obtain ⟨j, hj, rfl, hloads⟩ := mapLoad_self h.sound hm hload
    obtain rfl : i = j := by omega
    obtain ⟨hv, hrounds⟩ := hloop hloads
    refine stopsBy_bind (stopsBy_forEach hrounds ⟨Kept.refl v, hv⟩) fun u v₁ hrun => ?_
    obtain ⟨hkept, hv₁⟩ := forEach_invariant (I := fun v₁ => Kept defs v v₁ ∧
      Sturdy defs s₀ p k sid v₁) (fun e he v₁ v₂ hv₁ hbody => (hrounds e he v₁ hv₁).2 v₂ hbody)
      ⟨Kept.refl v, hv⟩ hrun
    obtain ⟨map₁, hmap₁, -⟩ := hkept.maps m _ hloads.get_eq
    have hrefs : map.refs + 1 ≤ map₁.refs := hkept.refs m _ map₁ hloads.get_eq hmap₁
    refine stopsBy_bind_ok (derefMap_eq_ok.mpr ⟨hmap₁, rfl⟩) ?_
    have htile := hkept.tiles i m hloads.tile_eq
    rw [hv₁.sound.id_of_tile htile hmap₁]
    exact stopsBy_of_ok (mapUnload_run hv₁.sound hv₁.locks htile hmap₁ (by omega))
  · obtain ⟨j, v, v₁, hj, hloads, hrun', hfree⟩ := mapEventActivate_calls h.sound hm hrun
    obtain rfl : i = j := by
      have hid' := h.sound.id_of_tile hj hm
      omega
    obtain ⟨hv, hrounds⟩ := hloop hloads
    obtain ⟨hkept, hv₁⟩ := forEach_invariant (I := fun v₁ => Kept defs v v₁ ∧
      Sturdy defs s₀ p k sid v₁) (fun e he v₁ v₂ hv₁ hbody => (hrounds e he v₁ hv₁).2 v₂ hbody)
      ⟨Kept.refl v, hv⟩ hrun'
    obtain ⟨hkept', hstill, -⟩ := mapEventArgsFree_eq_ok h.sound hm hloads hkept hfree
    have hwithin : Within (Writes defs) (mapEventArgsFree defs (some m)) :=
      within_bind (within_derefMap m) fun _ => within_mapUnload _
    exact ⟨hv₁.toAfoot.still hdefs hstill, hkept'.sound h.sound,
      (hwithin _ _ _ hfree).locks_eq.trans hv₁.locks⟩

/-- The events of a cell, over the spawns they call. -/
theorem mapEventActivate_portals (hdefs : defs.WellShaped) (hportals : Portals defs D)
    (hspawn : SpawnsStop E D defs s₀ p k sid spawn) (h : Sturdy defs s₀ p k sid w)
    (hm : w.maps.get m = some map) :
    StopsBy E (World.mapEventActivate defs spawn x y m p) w ∧
      ∀ w', World.mapEventActivate defs spawn x y m p w = .ok ((), w') →
        Sturdy defs s₀ p k sid w' := by
  obtain ⟨i, -, hi⟩ := h.sound.map m map hm
  obtain ⟨map', base, hmap', hbase, hframe, -⟩ := h.sound.tile i m hi
  obtain rfl := Option.some.inj (hm.symm.trans hmap')
  refine h.mapEventActivate hdefs hm fun e he _ _ hfunc v hv => ?_
  exact hspawn.event hportals (List.mem_of_getElem? hbase) (events_of_frame hframe ▸ he) hfunc hv

end Sturdy

end Events

/-! ## Spawns -/

section Spawns

/-- Building the map packet loads the map once more. -/
theorem stopsBy_mapSendMapPacket {session : Session} (h : Sturdy defs s₀ p k sid w)
    (hm : w.maps.get m = some map) (hs : w.sessions.get sid = some session) :
    StopsBy E (mapSendMapPacket defs (some m) (some sid)) w := by
  refine stopsBy_bind_ok (derefMap_eq_ok.mpr ⟨hm, rfl⟩) ?_
  refine stopsBy_bind (stopsBy_bind (stopsBy_mapLoad h.sound h.locks (h.sound.id_ne_count hm)) ?_)
    fun packet v htemplate => ?_
  · intro loaded v hload
    obtain ⟨i, -, rfl, hloads⟩ := mapLoad_self h.sound hm hload
    refine stopsBy_need_bind rfl ?_
    exact stopsBy_bind_ok (derefMap_eq_ok.mpr ⟨hloads.get_eq, rfl⟩) (stopsBy_pure _)
  · simp only [packetTemplateMap, bind_eq_ok, need_eq_ok, derefMap_eq_ok, pure_eq_ok] at htemplate
    obtain ⟨loaded, _, hload, _, _, ⟨-, rfl⟩, _, _, ⟨-, rfl⟩, -, rfl⟩ := htemplate
    obtain ⟨i, -, -, hloads⟩ := mapLoad_self h.sound hm hload
    have hs' := hloads.sessions_eq ▸ hs
    exact stopsBy_bind_ok (derefSession_eq_ok.mpr ⟨hs', rfl⟩) (stopsBy_modify _)

/-- The positions of those who are on the map. -/
theorem stopsBy_sendPositions (hpeople : s₀.Peopled p) (h : Sturdy defs s₀ p k sid w)
    (hm : w.maps.get m = some map) : StopsBy E (sendPositions m p) w := by
  obtain ⟨player, _, _, hp, hid, hsession, -⟩ := h.mover
  obtain ⟨session, hs⟩ := h.way.session
  refine stopsBy_bind_ok (derefMap_eq_ok.mpr ⟨hm, rfl⟩) ?_
  have hall : ∀ q ∈ map.players, w.scene.Connected q := fun q hq =>
    h.way.connected hpeople (m := m) (by rw [roster_eq hm]; exact hq)
  have hmover : w.scene.Connected p := ⟨player, k, sid, session, hp, hid, hsession, hs⟩
  refine stopsBy_forEach (I := fun v => v.scene.player = w.scene.player ∧
    v.scene.session = w.scene.session) (fun q hq v hv => ⟨?_, fun v' hrun => ?_⟩) ⟨rfl, rfl⟩
  · refine stopsBy_ite (fun _ => stopsBy_pure ()) fun _ => ?_
    obtain ⟨other, k', _, _, hother, hk', -⟩ := (hall q hq).congr hv.1 hv.2
    refine stopsBy_bind_ok (derefPlayer_eq_ok.mpr ⟨hother, rfl⟩) ?_
    refine stopsBy_need_bind (a := .updatePosition k' other.x other.y) ?_
      (stopsBy_writeToPlayer (hmover.congr hv.1 hv.2))
    rw [hk']
    rfl
  · rw [sendPosition, ite_eq_ok] at hrun
    rcases hrun with ⟨-, hrun⟩ | ⟨-, hrun⟩
    · obtain ⟨-, rfl⟩ := pure_eq_ok.mp hrun
      exact hv
    · simp only [bind_eq_ok, derefPlayer_eq_ok, need_eq_ok] at hrun
      obtain ⟨_, _, ⟨-, rfl⟩, _, _, ⟨-, rfl⟩, hwrite⟩ := hrun
      rw [(writeToPlayer_eq_ok hwrite).2]
      exact hv

/-- A move keeps what it needs. -/
theorem Sturdy.move {fuel : ℕ} {r : Bool} (hdefs : defs.WellShaped) (h : Sturdy defs s₀ p k sid w)
    (hargs : ∀ n, args.map = some n → ∃ map, w.maps.get n = some map)
    (hmove : playerMove defs fuel p x y args w = .ok (r, w')) :
    Kept defs w w' ∧ Sturdy defs s₀ p k sid w' := by
  obtain ⟨hkept, hafoot⟩ := playerMove_rule (carried_afoot hdefs) destinations_true h.sound
    (fun v hv => h.toAfoot.shift hdefs h.sound hargs hv) hmove
  exact ⟨hkept, h.next hkept hafoot (within_playerMove _ _ _ _ _ _ _ _ hmove).locks_eq⟩

/-- **A spawn**, over the move it makes. -/
theorem stopsBy_mapSpawnPlayerWith {move : ℕ → ℤ → ℤ → MoveArgs → Exec World Bool}
    {id suppress : ℤ} (hdefs : defs.WellShaped) (hpeople : s₀.Peopled p)
    (h : Sturdy defs s₀ p k sid w) (hid : id ≠ defs.count)
    (hmove : ∀ i n v, id = (i : ℕ) → Sturdy defs s₀ p k sid v → v.tiles i = some n →
      StopsBy E (move p x y ⟨suppress % 2 = 1, true, some n⟩) v ∧
        ∀ r v', move p x y ⟨suppress % 2 = 1, true, some n⟩ v = .ok (r, v') →
          Kept defs v v' ∧ Sturdy defs s₀ p k sid v') :
    StopsBy E (mapSpawnPlayerWith defs move id p x y suppress) w := by
  refine stopsBy_ite (fun _ => stopsBy_pure 0) fun hrange => ?_
  refine stopsBy_bind (stopsBy_mapLoad h.sound h.locks hid) fun loaded v hload => ?_
  obtain ⟨hbad, -⟩ | ⟨i, n, map, hi, -, rfl, hloads⟩ := mapLoad_eq_ok hload
  · exact absurd hbad (by omega)
  have hv := h.loads hdefs hloads
  obtain ⟨player, _, _, hp, -, hsession, -⟩ := hv.mover
  obtain ⟨session, hs⟩ := hv.way.session
  refine stopsBy_bind_ok (derefPlayer_eq_ok.mpr ⟨hp, rfl⟩) ?_
  rw [hsession]
  refine stopsBy_bind (stopsBy_mapSendMapPacket hv hloads.get_eq hs) fun u v₁ hsend => ?_
  obtain ⟨j, v₂, packet, -, hloads', -, rfl⟩ :=
    mapSendMapPacket_eq_ok hv.sound hloads.get_eq hs hsend
  have hv₁ : Sturdy defs s₀ p k sid (v₂.write session.fd (.packet packet)) :=
    (hv.loads hdefs hloads').emit _
  obtain ⟨hstops, hkeeps⟩ := hmove i n _ hi hv₁ (hloads'.kept.tiles i n hloads.tile_eq)
  refine stopsBy_bind hstops fun moved v₃ hrun => ?_
  obtain ⟨hkept, hv₃⟩ := hkeeps moved v₃ hrun
  obtain ⟨map₃, hmap₃, -⟩ := hkept.maps n _ hloads'.get_eq
  refine stopsBy_need_bind rfl (stopsBy_bind (stopsBy_sendPositions hpeople hv₃ hmap₃) ?_)
  exact fun _ _ _ => stopsBy_pure 1

/-- The map of `tiles[i]` is one a player can be moved to. -/
theorem Sturdy.tile (h : Sturdy defs s₀ p k sid w) (hn : w.tiles i = some n) :
    ∀ n', some n = some n' → ∃ map, w.maps.get n' = some map := by
  intro n' hn'
  obtain rfl := Option.some.inj hn'
  obtain ⟨map, _, hmap, -⟩ := h.sound.tile i n hn
  exact ⟨map, hmap⟩

/-- A spawn inside others, over the events of its target. -/
theorem stopsBy_mapSpawnPlayer {fuel : ℕ} {id suppress : ℤ} (hdefs : defs.WellShaped)
    (hpeople : s₀.Peopled p) (h : Sturdy defs s₀ p k sid w) (hid : id ≠ defs.count)
    (hactivate : suppress % 2 ≠ 1 → ∀ i m map v, id = (i : ℕ) → Sturdy defs s₀ p k sid v →
      v.tiles i = some m → v.maps.get m = some map → mapCheckBounds map x y = true →
        StopsBy E (mapEventActivate defs (mapSpawnPlayer defs fuel) x y m p) v ∧
          ∀ v', mapEventActivate defs (mapSpawnPlayer defs fuel) x y m p v = .ok ((), v') →
            Sturdy defs s₀ p k sid v') :
    StopsBy E (mapSpawnPlayer defs (fuel + 1) id p x y suppress) w := by
  refine stopsBy_mapSpawnPlayerWith hdefs hpeople h hid fun i n v hi hv hn => ?_
  have hargs := hv.tile hn
  refine ⟨hv.stopsBy_playerMoveWith hdefs hpeople hargs fun hs m map v' hm hkept hv' hmap hin => ?_,
    fun r v' => hv.move hdefs hargs⟩
  obtain rfl := hm n rfl
  exact hactivate (by simpa using hs) i m map v' hi hv' (hkept.tiles i m hn) hmap hin

variable (hdefs : defs.WellShaped) (hportals : ValidPortals defs) (hpeople : s₀.Peopled p)

include hdefs hportals hpeople

/-- **`map_spawn_player` meets no fault**, for any number of spawns inside one another. -/
theorem spawnsProceed (fuel : ℕ) : SpawnsStop (· = .fuel) (fun id _ _ _ => id ≠ defs.count) defs
    s₀ p k sid (mapSpawnPlayer defs fuel) := by
  induction fuel with
  | zero => exact fun id x y suppress w _ h => ⟨stopsBy_stop rfl, fun r w' => h.spawn hdefs⟩
  | succ fuel ih =>
    intro id x y suppress w hid h
    refine ⟨stopsBy_mapSpawnPlayer hdefs hpeople h hid fun _ i m map v _ hv _ hm _ => ?_,
      fun r w' => h.spawn hdefs⟩
    exact hv.mapEventActivate_portals hdefs hportals ih hm

/-- **`player_move` meets no fault.** -/
theorem Sturdy.proceeds_playerMove (h : Sturdy defs s₀ p k sid w) (fuel : ℕ) (x y : ℤ)
    (hargs : ∀ n, args.map = some n → ∃ map, w.maps.get n = some map) :
    Proceeds (playerMove defs fuel p x y args) w :=
  h.stopsBy_playerMoveWith hdefs hpeople hargs fun _ _ _ _ _ _ hv hm _ =>
    hv.mapEventActivate_portals hdefs hportals (spawnsProceed hdefs hportals hpeople fuel) hm

end Spawns

end Moves

end World
end MmoBackend
