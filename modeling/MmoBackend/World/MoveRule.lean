import MmoBackend.World.Spawn

/-!
# What moves preserve

`player_move` and `map_spawn_player` call each other through the events of a cell, so what
they preserve is proved by induction on the depth of the calls.  This file does the
induction once.

A move does four kinds of things: it counts references, `Still`; it writes to sockets; it
shifts the player, `Shift`; and it runs events, which are spawns again.  So what the first
three preserve, every move preserves, `playerMove_rule`, and every spawn,
`mapSpawnPlayer_rule`.
-/

namespace MmoBackend

open Authentication Communication Maps Player

namespace World

variable {defs : MapDefs} {w w' : World} {p : ℕ} {x y : ℤ} {args : MoveArgs} {u : Unit}

/-! ## The first half of a move -/

/-- How a move leaves the player before it runs events: it is refused somewhere, or the
player has its new coordinates. -/
inductive Shift (defs : MapDefs) (p : ℕ) (x y : ℤ) (args : MoveArgs) (w : World) : World → Prop
  | tooFar : args.map = none → Shift defs p x y args w w
  | refused {w₁ : World} {player mover : Player} {m : ℕ} {map : Map} :
      OnTarget defs p x y args w w₁ player mover m map →
      mapCheckBounds map x y = false ∨ args.overlap = false → Shift defs p x y args w w₁
  | stuck {w₁ w₂ : World} {player mover : Player} {m old : ℕ} {map oldMap : Map}
      {disabled : Bool} :
      OnTarget defs p x y args w w₁ player mover m map →
      toggleCoord m x y true w₁ = .ok (disabled, w₂) → player.map = some old →
      w₂.maps.get old = some oldMap → mapCheckBounds oldMap mover.x mover.y = false →
      Shift defs p x y args w w₂
  | moved {w₁ w₂ w₃ : World} {player mover : Player} {m : ℕ} {map : Map} {disabled : Bool} :
      OnTarget defs p x y args w w₁ player mover m map → mapCheckBounds map x y = true →
      toggleCoord m x y true w₁ = .ok (disabled, w₂) →
      enableOldCoord p player.map w₂ = .ok (true, w₃) → w₃.players.get p = some mover →
      Shift defs p x y args w (w₃.setPlayer p { mover with x := x, y := y })

/-- **A move** shifts the player, and if it is not refused it runs the events and announces
the player. -/
theorem playerMoveWith_shift {activate : ℤ → ℤ → ℕ → ℕ → Exec World Unit} {r : Bool}
    (h : playerMoveWith defs activate p x y args w = .ok (r, w')) :
    ∃ v, Shift defs p x y args w v ∧ (r = false ∧ w' = v ∨ r = true ∧ ∃ v',
      triggerEvents activate p x y args.suppressEvents v = .ok ((), v') ∧
        announce p v' = .ok ((), w')) := by
  cases playerMoveWith_eq_ok h with
  | tooFar _ hnone => exact ⟨_, .tooFar hnone, Or.inl ⟨rfl, rfl⟩⟩
  | outOfBounds htarget hout => exact ⟨_, .refused htarget (Or.inl hout), Or.inl ⟨rfl, rfl⟩⟩
  | taken htarget _ _ hoverlap => exact ⟨_, .refused htarget (Or.inr hoverlap), Or.inl ⟨rfl, rfl⟩⟩
  | stuck htarget _ htoggle _ hold hget hout =>
    exact ⟨_, .stuck htarget htoggle hold hget hout, Or.inl ⟨rfl, rfl⟩⟩
  | moved htarget hbounds htoggle _ henable hmove =>
    have hp := htarget.mover_eq
    rw [← (toggleCoord_scene defs htoggle).2.2, ← (enableOldCoord_scene defs henable).2.2] at hp
    obtain ⟨v', htrigger, hannounce⟩ := moveTo_eq_ok hp hmove
    exact ⟨_, .moved htarget hbounds htoggle henable hp, Or.inr ⟨rfl, v', htrigger, hannounce⟩⟩

/-! ## The rule -/

/-- A player that is somewhere and can be written to. -/
structure Aboard (w : World) (p : ℕ) (player : Player) (k : CString) (m sid : ℕ)
    (session : Session) : Prop where
  player_eq : w.players.get p = some player
  id_eq : player.id = some k
  map_eq : player.map = some m
  session_eq : player.session = some sid
  get_eq : w.sessions.get sid = some session

theorem Aboard.fdOf_eq {player : Player} {k : CString} {m sid : ℕ} {session : Session}
    (h : Aboard w p player k m sid session) : w.scene.fdOf p = some session.fd := by
  simp [Scene.fdOf, scene, h.player_eq, h.session_eq, h.get_eq]

/-- Where the events of the maps lead, if they lead anywhere. -/
def Destinations (defs : MapDefs) (D : ℕ → ℤ → ℤ → Prop) : Prop :=
  ∀ base ∈ defs.loaders, ∀ e ∈ base.events, e.func = .changeMap → ∀ (i : ℕ) (x y : ℤ),
    e.staticArgs[0]? = some (i : ℤ) → e.staticArgs[1]? = some x → e.staticArgs[2]? = some y →
      i < defs.count → D i x y

section Rule

variable {I : World → Prop} {D : ℕ → ℤ → ℤ → Prop}

/-- `I` does not depend on references and on what is written. -/
structure Loose (defs : MapDefs) (I : World → Prop) : Prop where
  still : ∀ v v', I v → Still defs v v' → I v'
  emit : ∀ v l, I v → I (v.emit l)

/-- What a spawn needs: besides, `I` says where the player is, and a shift onto a map keeps
it. -/
structure Carried (defs : MapDefs) (p : ℕ) (D : ℕ → ℤ → ℤ → Prop) (I : World → Prop) : Prop
    extends Loose defs I where
  aboard : ∀ v, I v → ∃ player k m sid session, Aboard v p player k m sid session
  shift : ∀ v v' i n x y suppress, Sound defs v → I v → v.tiles i = some n → D i x y →
    Shift defs p x y ⟨suppress, true, some n⟩ v v' → Kept defs v v' ∧ I v'

/-- Events, over the spawns they call. -/
theorem Carried.triggerEvents (hI : Carried defs p D I) (hdest : Destinations defs D)
    {spawn : ℤ → ℕ → ℤ → ℤ → ℤ → Exec World ℤ} {suppress : Bool}
    (hspawn : ∀ (id x y suppress : ℤ) v v' r, Sound defs v → I v →
      (∀ i : ℕ, id = i → i < defs.count → D i x y) →
      spawn id p x y suppress v = .ok (r, v') → Kept defs v v' ∧ I v')
    (hw : Sound defs w) (hinv : I w)
    (h : triggerEvents (mapEventActivate defs spawn) p x y suppress w = .ok (u, w')) :
    Kept defs w w' ∧ I w' := by
  rcases triggerEvents_eq_ok h with ⟨-, rfl⟩ | ⟨-, player, m, -, -, hactivate⟩
  · exact ⟨Kept.refl _, hinv⟩
  · obtain ⟨map, hmap⟩ : ∃ map, w.maps.get m = some map := by
      simp only [mapEventActivate, Exec.bind_eq_ok, derefMap_eq_ok] at hactivate
      obtain ⟨map, _, ⟨hmap, -⟩, -⟩ := hactivate
      exact ⟨map, hmap⟩
    obtain ⟨i, -, hi⟩ := hw.map m map hmap
    obtain ⟨map', base, hmap', hbase, hframe, -⟩ := hw.tile i m hi
    obtain rfl := Option.some.inj (hmap.symm.trans hmap')
    refine mapEventActivate_rule hI.still (fun e he _ _ hfunc v v' hv hinv' hevent => ?_) hw hmap
      hinv hactivate
    simp only [mapEventChangeMap, Exec.bind_eq_ok, Exec.need_eq_ok, Exec.pure_eq_ok] at hevent
    obtain ⟨id, _, ⟨hid, rfl⟩, x', _, ⟨hx, rfl⟩, y', _, ⟨hy, rfl⟩, _, _, ⟨-, rfl⟩, _, _, hcall, -,
      rfl⟩ := hevent
    refine hspawn id x' y' _ v _ _ hv hinv' (fun j hj hcount => ?_) hcall
    exact hdest base (List.mem_of_getElem? hbase) e (events_of_frame hframe ▸ he) hfunc j x' y'
      (hj ▸ hid) hx hy hcount

/-- The second half of a move, over the events it triggers. -/
theorem Carried.playerMoveWith (hI : Carried defs p D I)
    {activate : ℤ → ℤ → ℕ → ℕ → Exec World Unit} {r : Bool}
    (htriggers : ∀ v v', Sound defs v → I v →
      World.triggerEvents activate p x y args.suppressEvents v = .ok ((), v') →
      Kept defs v v' ∧ I v')
    (hw : Sound defs w) (hshift : ∀ v, Shift defs p x y args w v → Kept defs w v ∧ I v)
    (h : World.playerMoveWith defs activate p x y args w = .ok (r, w')) :
    Kept defs w w' ∧ I w' := by
  obtain ⟨v, hv, ⟨-, rfl⟩ | ⟨-, v', htrigger, hannounce⟩⟩ := playerMoveWith_shift h
  · exact hshift _ hv
  · obtain ⟨hkept, hinv⟩ := hshift v hv
    obtain ⟨hkept', hinv'⟩ := htriggers v v' (hkept.sound hw) hinv htrigger
    obtain ⟨player, k, m, sid, session, haboard⟩ := hI.aboard v' hinv'
    rcases announce_eq_ok haboard.player_eq haboard.map_eq hannounce with ⟨-, rfl⟩ |
      ⟨map, id, -, -, rfl⟩
    · exact ⟨hkept.trans hkept', hinv'⟩
    · exact ⟨(hkept.trans hkept').trans (Kept.tellAll _ _), hI.emit _ _ hinv'⟩

/-- One spawn.  It remains to show that the shift leads from `J` to `I`. -/
theorem Carried.spawn {J : World → Prop} (hI : Carried defs p D I) (hJ : Loose defs J)
    (hdest : Destinations defs D) {fuel m sid : ℕ} {player : Player} {k : CString}
    {session : Session} {id suppress r : ℤ}
    (hspawn : ∀ (id x y suppress : ℤ) v v' r, Sound defs v → I v →
      (∀ i : ℕ, id = i → i < defs.count → D i x y) →
      mapSpawnPlayer defs fuel id p x y suppress v = .ok (r, v') → Kept defs v v' ∧ I v')
    (hw : Sound defs w) (haboard : Aboard w p player k m sid session) (hinv : J w)
    (hshift : ∀ (i n : ℕ) v v', id = i → i < defs.count → Sound defs v → J v →
      v.tiles i = some n → Shift defs p x y ⟨suppress % 2 = 1, true, some n⟩ v v' →
      Kept defs v v' ∧ I v')
    (h : mapSpawnPlayer defs (fuel + 1) id p x y suppress w = .ok (r, w')) :
    r = 0 ∧ w' = w ∧ (id < 0 ∨ (defs.count : ℤ) < id) ∨ r = 1 ∧ Kept defs w w' ∧ I w' := by
  rcases mapSpawnPlayer_calls hw haboard.player_eq haboard.session_eq haboard.get_eq h with
    hbad | ⟨hr, i, n, _, _, v₁, v₂, packet, moved, v₃, hid, hi, hloads, hloads', -, hmove,
      hpositions⟩
  · exact Or.inl hbad
  · have hkept : Kept defs w (v₂.write session.fd (.packet packet)) :=
      (hloads.kept.trans hloads'.kept).trans (Kept.write _ _)
    have hinv₂ : J (v₂.write session.fd (.packet packet)) :=
      hJ.emit _ _ (hJ.still _ _ (hJ.still _ _ hinv hloads.still) hloads'.still)
    obtain ⟨hkept', hinv'⟩ := hI.playerMoveWith
      (fun _ _ hv hinv' => hI.triggerEvents hdest hspawn hv hinv') (hkept.sound hw)
      (fun u hu => hshift i n _ u hid hi (hkept.sound hw) hinv₂ hloads'.tile_eq hu) hmove
    obtain ⟨player', k', m', sid', session', haboard'⟩ := hI.aboard v₃ hinv'
    simp only [sendPositions, Exec.bind_eq_ok, derefMap_eq_ok] at hpositions
    obtain ⟨map₃, _, ⟨-, rfl⟩, hpositions⟩ := hpositions
    rw [forEach_sendPosition haboard'.fdOf_eq hpositions]
    exact Or.inr ⟨hr, (hkept.trans hkept').trans (Kept.emit _), hI.emit _ _ hinv'⟩

/-- **The rule for spawns.** -/
theorem mapSpawnPlayer_rule (hI : Carried defs p D I) (hdest : Destinations defs D) (fuel : ℕ) :
    ∀ (id x y suppress : ℤ) v v' r, Sound defs v → I v →
      (∀ i : ℕ, id = i → i < defs.count → D i x y) →
      mapSpawnPlayer defs fuel id p x y suppress v = .ok (r, v') → Kept defs v v' ∧ I v' := by
  induction fuel with
  | zero =>
    intro id x y suppress v v' r _ _ _ h
    rw [mapSpawnPlayer, Exec.stop_eq_ok] at h
    exact h.elim
  | succ fuel ih =>
    intro id x y suppress v v' r hv hinv hD h
    obtain ⟨player, k, m, sid, session, haboard⟩ := hI.aboard v hinv
    rcases hI.spawn hI.toLoose hdest ih hv haboard hinv (fun i n u u' hid hi hu hinv' htile =>
      hI.shift u u' i n x y _ hu hinv' htile (hD i hid hi)) h with ⟨-, rfl, -⟩ | ⟨-, hkept, hinv'⟩
    · exact ⟨Kept.refl _, hinv⟩
    · exact ⟨hkept, hinv'⟩

/-- **The rule for moves.**  It remains to show what the shift does. -/
theorem playerMove_rule (hI : Carried defs p D I) (hdest : Destinations defs D) {fuel : ℕ}
    {r : Bool} (hw : Sound defs w)
    (hshift : ∀ v, Shift defs p x y args w v → Kept defs w v ∧ I v)
    (h : playerMove defs fuel p x y args w = .ok (r, w')) : Kept defs w w' ∧ I w' :=
  hI.playerMoveWith
    (fun _ _ hv hinv => hI.triggerEvents hdest (mapSpawnPlayer_rule hI hdest fuel) hv hinv) hw
    hshift h

end Rule

end World
end MmoBackend
