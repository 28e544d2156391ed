import MmoBackend.World.Arrival
import MmoBackend.World.Records
import MmoBackend.World.Spawn

/-!
# Between two requests

`Settled` holds between two requests: the registry is in order, everybody who is listed
on a map is logged in there and stands on it, every session that roams has such a
player, and the clients agree with the scene.

A move goes through states where the clients do not agree, because the player stands
elsewhere already and has not been announced, and there the events of its new cell
run.  `Midway` holds there.  A spawn in the middle of a move ends with the clients in
agreement, a spawn after it too, and so does the announcement, which comes last and
finds the player wherever it has been moved to.
-/

namespace MmoBackend

open Authentication Communication Maps Player

namespace World

/-! ## Sessions -/

namespace Scene

variable {s s' s'' : Scene} {p m n o q sid : ℕ} {player : Player} {k : CString}
  {session : Session} {x y : ℤ}

/-- Whoever was listed is listed, with its id and its session. -/
structure Follows (s s' : Scene) : Prop where
  session : s'.session = s.session
  listed : ∀ m, ∀ q ∈ s.roster m, ∃ m', q ∈ s'.roster m'
  player : ∀ q player, s.player q = some player →
    ∃ player', s'.player q = some player' ∧ player'.id = player.id ∧
      player'.session = player.session

theorem Follows.trans (h : Follows s s') (h' : Follows s' s'') : Follows s s'' where
  session := h'.session.trans h.session
  listed m q hq := by
    obtain ⟨m', hq'⟩ := h.listed m q hq
    exact h'.listed m' q hq'
  player q player hp := by
    obtain ⟨player', hp', hid, hsession⟩ := h.player q player hp
    obtain ⟨player'', hp'', hid', hsession'⟩ := h'.player q player' hp'
    exact ⟨player'', hp'', hid'.trans hid, hsession'.trans hsession⟩

theorem Follows.place (hp : s.player p = some player) (x y : ℤ) :
    Follows s (s.place p player x y) := by
  refine ⟨rfl, fun m _ hq => ⟨m, hq⟩, fun q other hq => ?_⟩
  by_cases hqp : q = p
  · subst hqp
    obtain rfl := Option.some.inj (hp.symm.trans hq)
    exact ⟨_, player_place_self, rfl, rfl⟩
  · exact ⟨other, (player_place_of_ne hqp).trans hq, rfl, rfl⟩

theorem Follows.settle (hs : s.Orderly) (hp : s.player p = some player)
    (ho : player.map = some o) (n : ℕ) (x y : ℤ) : Follows s (s.settle p o n player x y) := by
  refine ⟨rfl, fun m q hq => ?_, fun q other hq => ?_⟩
  · by_cases hqp : q = p
    · exact ⟨n, (mem_roster_settle hs hp ho).mpr (Or.inl ⟨rfl, hqp⟩)⟩
    · exact ⟨m, (mem_roster_settle hs hp ho).mpr (Or.inr ⟨hqp, hq⟩)⟩
  · by_cases hqp : q = p
    · subst hqp
      obtain rfl := Option.some.inj (hp.symm.trans hq)
      exact ⟨_, player_settle_self, rfl, rfl⟩
    · exact ⟨other, (player_settle_of_ne hqp).trans hq, rfl, rfl⟩

theorem Follows.emit (h : Follows s s') (l : List (ℕ × Sent)) : Follows s (s'.emit l) :=
  ⟨h.session, h.listed, h.player⟩

/-- A disabled session has no player.  One that roams has a player that is listed and
has the session. -/
def Admits (s : Scene) (sid : ℕ) (session : Session) : Prop :=
  match session.state with
  | .disabled => session.player = none
  | .roaming => ∃ m p player, session.player = some p ∧ p ∈ s.roster m ∧
      s.player p = some player ∧ player.session = some sid

theorem Admits.follows (h : s.Admits sid session) (hfollows : Follows s s') :
    s'.Admits sid session := by
  unfold Admits at h ⊢
  split
  · rename_i hstate
    rw [hstate] at h
    exact h
  · rename_i hstate
    rw [hstate] at h
    obtain ⟨m, p, player, hback, hmem, hp, hsid⟩ := h
    obtain ⟨m', hmem'⟩ := hfollows.listed m p hmem
    obtain ⟨player', hp', -, hsid'⟩ := hfollows.player p player hp
    exact ⟨m', p, player', hback, hmem', hp', hsid'.trans hsid⟩

theorem Admits.apart (h : s.Admits sid session) (hapart : Apart s s') :
    s'.Admits sid session := by
  unfold Admits at h ⊢
  split
  · rename_i hstate
    rw [hstate] at h
    exact h
  · rename_i hstate
    rw [hstate] at h
    obtain ⟨m, p, player, hback, hmem, hp, hsid⟩ := h
    exact ⟨m, p, player, hback, hapart.roster ▸ hmem, (hapart.player m p hmem).trans hp, hsid⟩

end Scene

open Scene

/-! ## Positions -/

/-- Everybody who is listed on a map stands on it. -/
def Inside (w : World) : Prop :=
  ∀ m q player, q ∈ w.scene.roster m → w.scene.player q = some player →
    ∃ map, w.maps.get m = some map ∧ mapCheckBounds map player.x player.y = true

section Inside

variable {defs : MapDefs} {w w' : World} {p o n : ℕ} {player : Player} {x y : ℤ} {map : Map}

/-- Where a map was, there is one of the same size. -/
theorem Steady.mapCheckBounds (h : Steady defs w w') {m : ℕ} (hm : w.maps.get m = some map)
    (hbounds : mapCheckBounds map x y = true) :
    ∃ map', w'.maps.get m = some map' ∧ Maps.mapCheckBounds map' x y = true := by
  obtain ⟨map', hmap', hframe⟩ := h.maps m map hm
  exact ⟨map', hmap', by rw [mapCheckBounds_of_frame hframe, hbounds]⟩

theorem Inside.congr (hin : Inside w) (h : Steady defs w w')
    (hroster : w'.scene.roster = w.scene.roster)
    (hplayer : ∀ m, ∀ q ∈ w.scene.roster m, w'.scene.player q = w.scene.player q) :
    Inside w' := by
  intro m q player hq hp
  rw [hroster] at hq
  rw [hplayer m q hq] at hp
  obtain ⟨map, hmap, hbounds⟩ := hin m q player hq hp
  exact h.mapCheckBounds hmap hbounds

theorem Inside.place (hin : Inside w) (h : Steady defs w w')
    (hplayer : player.map = some o) (hs : w.scene.Orderly) (hp : w.scene.player p = some player)
    (hscene : w'.scene = w.scene.place p player x y) (hmap : w.maps.get o = some map)
    (hbounds : Maps.mapCheckBounds map x y = true) : Inside w' := by
  intro m q other hq hother
  have hq' : q ∈ w.scene.roster m := by
    rw [hscene] at hq
    exact hq
  rw [hscene] at hother
  by_cases hqp : q = p
  · subst hqp
    obtain rfl := Option.some.inj (player_place_self.symm.trans hother)
    obtain rfl := Option.some.inj ((hs.map_eq hq' hp).symm.trans hplayer)
    exact h.mapCheckBounds hmap hbounds
  · rw [player_place_of_ne hqp] at hother
    obtain ⟨map', hmap', hbounds'⟩ := hin m q other hq' hother
    exact h.mapCheckBounds hmap' hbounds'

theorem Inside.settle (hin : Inside w) (h : Steady defs w w') (hs : w.scene.Orderly)
    (hp : w.scene.player p = some player) (ho : player.map = some o) {l : List (ℕ × Sent)}
    (hscene : w'.scene = (w.scene.settle p o n player x y).emit l)
    (hmap : w'.maps.get n = some map) (hbounds : Maps.mapCheckBounds map x y = true) :
    Inside w' := by
  intro m q other hq hother
  rw [hscene] at hq hother
  rcases (mem_roster_settle (x := x) (y := y) hs hp ho).mp hq with ⟨rfl, rfl⟩ | ⟨hne, hq'⟩
  · obtain rfl := Option.some.inj (player_settle_self.symm.trans hother)
    exact ⟨map, hmap, hbounds⟩
  · have hold := (player_settle_of_ne hne).symm.trans hother
    obtain ⟨map', hmap', hbounds'⟩ := hin m q other hq' hold
    exact h.mapCheckBounds hmap' hbounds'

end Inside

/-! ## The invariants -/

/-- In the middle of a request of the player `p` with the id `k`, which started in the
scene `s`. -/
structure Midway (s : Scene) (p : ℕ) (k : CString) (w : World) : Prop where
  orderly : w.scene.Orderly
  inside : Inside w
  follows : Follows s w.scene
  listed : ∃ m, p ∈ w.scene.roster m
  id_eq : ∀ player, w.scene.player p = some player → player.id = some k
  synced : w.scene.SyncedBut p k

/-- Between two requests. -/
structure Settled (defs : MapDefs) (w : World) : Prop where
  sound : Sound defs w
  records : ValidRecords defs w.playerdata
  orderly : w.scene.Orderly
  inside : Inside w
  sessions : ∀ sid session, w.scene.session sid = some session → w.scene.Admits sid session
  synced : w.scene.Synced

/-- Every event that changes the map leads to a cell of a valid map, and there it either
runs no events or finds none that changes the map.  Whether it runs events is decided by
the `y` it leads to. -/
def GoodPortals (defs : MapDefs) : Prop :=
  ∀ base ∈ defs.loaders, ∀ e ∈ base.events, e.func = .changeMap → ∀ id x y : ℤ,
    e.staticArgs[0]? = some id → e.staticArgs[1]? = some x → e.staticArgs[2]? = some y →
    ∃ (i : ℕ) (target : Map), id = i ∧ defs.loaders[i]? = some target ∧
      mapCheckBounds target x y = true ∧ (y % 2 = 1 ∨ NoPortal target x y)

theorem settled_boot {defs : MapDefs} {playerdata : List Db.Document}
    (h : ValidRecords defs playerdata) : Settled defs (boot playerdata) where
  sound := sound_boot playerdata
  records := h
  orderly := ⟨fun _ => List.nodup_nil, fun _ _ hq => absurd hq List.not_mem_nil,
    fun _ _ _ _ _ _ _ hq => absurd hq List.not_mem_nil,
    fun _ _ _ _ ha => absurd ha.symm (Option.some_ne_none _)⟩
  inside _ _ _ hq := absurd hq List.not_mem_nil
  sessions _ _ hsid := absurd hsid.symm (Option.some_ne_none _)
  synced _ _ hq := absurd hq List.not_mem_nil

section Steps

variable {defs : MapDefs} {w w' : World} {s : Scene} {p o sid : ℕ} {player : Player}
  {k : CString} {session : Session} {x y : ℤ}

/-- Nobody on a map is touched. -/
theorem Settled.apart (hw : Settled defs w) (h : Steady defs w w') (hapart : Apart w.scene w'.scene)
    (hsessions : ∀ sid session, w'.scene.session sid = some session →
      w.scene.session sid = some session ∨ w'.scene.Admits sid session) : Settled defs w' where
  sound := h.sound hw.sound
  records := h.playerdata ▸ hw.records
  orderly := hw.orderly.apart hapart
  inside := hw.inside.congr h hapart.roster hapart.player
  sessions sid session hsid := by
    rcases hsessions sid session hsid with hold | hnew
    · exact (hw.sessions sid session hold).apart hapart
    · exact hnew
  synced := hw.synced.apart hw.orderly hapart

/-- Something is written that says nothing about players. -/
theorem Settled.emit (hw : Settled defs w) (h : Steady defs w w') {l : List (ℕ × Sent)}
    (hscene : w'.scene = w.scene.emit l) (hl : ∀ e ∈ l, messageOf e.2 = none) :
    Settled defs w' := by
  refine hw.apart h (hscene ▸ Apart.emit hl) fun sid session hsid => Or.inl ?_
  rw [hscene] at hsid
  exact hsid

/-- The scene does not change. -/
theorem Settled.congr (hw : Settled defs w) (h : Steady defs w w') (hscene : w'.scene = w.scene) :
    Settled defs w' := by
  refine hw.emit h (l := []) ?_ (fun e he => absurd he List.not_mem_nil)
  rw [hscene, Scene.emit_nil]

/-! ## Spawns -/

/-- **A spawn** ends with the clients in agreement. -/
theorem mapSpawnPlayer_settles {fuel i : ℕ} {base oldMap : Map} {suppress r : ℤ}
    (hw : Sound defs w) (hs : w.scene.Orderly) (hin : Inside w) (hsync : w.scene.SyncedBut p k)
    (hp : w.scene.LoggedIn p player k sid session) (ho : player.map = some o)
    (hrefs : player.refs = if p ∈ w.scene.roster o then 2 else 1)
    (hold : w.maps.get o = some oldMap) (hon : mapCheckBounds oldMap player.x player.y = true)
    (hk : ∀ m q c, q ∈ w.scene.roster m → w.scene.entryOf q = some (k, c) → q = p)
    (hbase : defs.loaders[i]? = some base) (hbounds : mapCheckBounds base x y = true)
    (hquiet : suppress % 2 = 1 ∨ NoPortal base x y)
    (h : mapSpawnPlayer defs fuel i p x y suppress w = .ok (r, w')) :
    r = 1 ∧ Kept defs w w' ∧ w'.scene.Orderly ∧ Inside w' ∧ Follows w.scene w'.scene ∧
      (∃ m, p ∈ w'.scene.roster m) ∧ w'.scene.Synced := by
  obtain ⟨hr, hkept, n, packet, htile, hpacket, hscene⟩ := mapSpawnPlayer_scene hw hp.player_eq ho
    hp.id_eq hp.session_eq hp.get_eq hrefs hold hon hbase hbounds hquiet h
  obtain ⟨map, base', hmap, hbase', hframe, -⟩ := (hkept.sound hw).tile i n htile
  obtain rfl := Option.some.inj (hbase.symm.trans hbase')
  have hmapbounds : mapCheckBounds map x y = true := by
    rw [mapCheckBounds_of_frame hframe, hbounds]
  have hlisted : p ∈ (w.scene.settle p o n player x y).roster n :=
    (mem_roster_settle hs hp.player_eq ho).mpr (Or.inl ⟨rfl, rfl⟩)
  refine ⟨hr, hkept, ?_, hin.settle hkept.toSteady hs hp.player_eq ho hscene hmap hmapbounds, ?_,
    ⟨n, ?_⟩, ?_⟩
  · rw [hscene]
    exact (hs.settle hp ho hk n x y).emit _
  · rw [hscene]
    exact (Follows.settle hs hp.player_eq ho n x y).emit _
  · rw [hscene]
    exact hlisted
  · rw [hscene]
    exact hsync.arrive hs hp ho hk hpacket

/-- The id of a listed player is its own. -/
theorem Orderly.eq_of_entryOf (hs : s.Orderly) {m : ℕ} (hm : p ∈ s.roster m)
    (hp : s.LoggedIn p player k sid session) :
    ∀ m q c, q ∈ s.roster m → s.entryOf q = some (k, c) → q = p :=
  fun m' q _ hq hentry => hs.ids m' m q p k _ _ hq hm hentry hp.entryOf_eq

/-- **An event that changes the map.** -/
theorem Midway.mapEventChangeMap {fuel : ℕ} {base : Map} {e : MapEvent} {u : Unit}
    (hportals : GoodPortals defs) (hbase : base ∈ defs.loaders) (he : e ∈ base.events)
    (hfunc : e.func = .changeMap) (hw : Sound defs w) (hmid : Midway s p k w)
    (h : World.mapEventChangeMap (mapSpawnPlayer defs fuel) p e w = .ok (u, w')) :
    Kept defs w w' ∧ Midway s p k w' := by
  simp only [World.mapEventChangeMap, Exec.bind_eq_ok, Exec.need_eq_ok, Exec.pure_eq_ok] at h
  obtain ⟨id, _, ⟨hid, rfl⟩, x, _, ⟨hx, rfl⟩, y, _, ⟨hy, rfl⟩, suppress, _, ⟨hsuppress, rfl⟩, r, w₁,
    hspawn, -, rfl⟩ := h
  obtain rfl := Option.some.inj (hy.symm.trans hsuppress)
  obtain ⟨i, target, rfl, htarget, hbounds, hquiet⟩ :=
    hportals base hbase e he hfunc id x y hid hx hy
  obtain ⟨m, hm⟩ := hmid.listed
  obtain ⟨player, k', sid, session, hp, hmap, hrefs⟩ := hmid.orderly.listed m p hm
  obtain rfl := Option.some.inj ((hmid.id_eq player hp.player_eq).symm.trans hp.id_eq)
  obtain ⟨oldMap, hold, hon⟩ := hmid.inside m p player hm hp.player_eq
  obtain ⟨-, hkept, horderly, hinside, hfollows, hlisted, hsync⟩ := mapSpawnPlayer_settles hw
    hmid.orderly hmid.inside hmid.synced hp hmap (by rw [if_pos hm, hrefs]) hold hon
    (Orderly.eq_of_entryOf hmid.orderly hm hp) htarget hbounds hquiet hspawn
  refine ⟨hkept, horderly, hinside, hmid.follows.trans hfollows, hlisted, fun player' hp' => ?_,
    hsync.but p k⟩
  obtain ⟨player'', hp'', hid', -⟩ := hfollows.player p player hp.player_eq
  obtain rfl := Option.some.inj (hp'.symm.trans hp'')
  exact hid'.trans hp.id_eq

/-! ## Moves -/

/-- The state of a move does not depend on bits and references. -/
theorem Midway.steady (hmid : Midway s p k w) (h : Steady defs w w') (hscene : w'.scene = w.scene) :
    Midway s p k w' where
  orderly := hscene ▸ hmid.orderly
  inside := hmid.inside.congr h (by rw [hscene]) fun _ _ _ => by rw [hscene]
  follows := hscene ▸ hmid.follows
  listed := hscene ▸ hmid.listed
  id_eq := hscene ▸ hmid.id_eq
  synced := hscene ▸ hmid.synced

/-- **The events of the new cell.** -/
theorem Midway.triggerEvents {fuel : ℕ} {suppress : Bool} {u : Unit} (hportals : GoodPortals defs)
    (hw : Sound defs w) (hmid : Midway s p k w)
    (h : World.triggerEvents (mapEventActivate defs (mapSpawnPlayer defs fuel)) p x y suppress w
      = .ok (u, w')) : Kept defs w w' ∧ Midway s p k w' := by
  rcases triggerEvents_eq_ok h with ⟨-, rfl⟩ | ⟨-, player, m, hp, hm, hactivate⟩
  · exact ⟨Kept.refl _, hmid⟩
  · obtain ⟨m', hm'⟩ := hmid.listed
    obtain rfl := Option.some.inj (hm.symm.trans (hmid.orderly.map_eq hm' hp))
    obtain ⟨map, hmap, -⟩ := hmid.inside m p player hm' hp
    obtain ⟨i, -, hi⟩ := hw.map m map hmap
    obtain ⟨map', base, hmap', hbase, hframe, -⟩ := hw.tile i m hi
    obtain rfl := Option.some.inj (hmap.symm.trans hmap')
    refine mapEventActivate_rule (I := Midway s p k)
      (fun v v' hv hstill => hv.steady hstill.toSteady hstill.scene)
      (fun e he _ _ hfunc v v' hv hmidv hevent => ?_) hw hmap hmid hactivate
    exact hmidv.mapEventChangeMap hportals (List.mem_of_getElem? hbase)
      (events_of_frame hframe ▸ he) hfunc hv hevent

/-- The player stands on a new cell of its map, and is not announced yet. -/
theorem Settled.midway {m : ℕ} {map : Map} (hw : Settled defs w) (hm : p ∈ w.scene.roster m)
    (hp : w.scene.player p = some player) (hk : player.id = some k) (h : Steady defs w w')
    (hscene : w'.scene = w.scene.place p player x y) (hmap : w.maps.get m = some map)
    (hbounds : mapCheckBounds map x y = true) : Midway w.scene p k w' where
  orderly := hscene ▸ hw.orderly.place hp x y
  inside := hw.inside.place h (hw.orderly.map_eq hm hp) hw.orderly hp hscene hmap hbounds
  follows := hscene ▸ Follows.place hp x y
  listed := ⟨m, hscene ▸ hm⟩
  id_eq other hother := by
    rw [hscene] at hother
    obtain rfl := Option.some.inj (player_place_self.symm.trans hother)
    exact hk
  synced := hscene ▸ (hw.synced.but p k).place hp hk x y

/-- **The announcement**, wherever the player has been moved to. -/
theorem Midway.announce {v : World} {u : Unit} (hw : Settled defs w) (h : Kept defs w v)
    (hmid : Midway w.scene p k v) (hannounce : World.announce p v = .ok (u, w')) :
    Settled defs w' := by
  obtain ⟨m, hm⟩ := hmid.listed
  obtain ⟨player, k', sid, session, hlogged, hmap, -⟩ := hmid.orderly.listed m p hm
  obtain rfl := Option.some.inj ((hmid.id_eq player hlogged.player_eq).symm.trans hlogged.id_eq)
  obtain ⟨hkept, hscene⟩ := announce_scene hlogged.player_eq hmap hlogged.id_eq hannounce
  have hall := h.trans hkept
  have hfollows : Follows w.scene w'.scene := by
    rw [hscene]
    exact hmid.follows.emit _
  refine ⟨hall.sound hw.sound, hall.playerdata ▸ hw.records, ?_, ?_, ?_, ?_⟩
  · rw [hscene]
    exact hmid.orderly.emit _
  · exact hmid.inside.congr hkept.toSteady (by rw [hscene]; rfl) fun _ _ _ => by rw [hscene]; rfl
  · intro sid' session' hsid'
    exact (hw.sessions sid' session' (hfollows.session ▸ hsid')).follows hfollows
  · rw [hscene]
    exact hmid.synced.tellAll hmid.orderly hlogged hm

/-- **A client's move** ends with the clients in agreement. -/
theorem playerMove_settles {fuel m : ℕ} {r : Bool} (hportals : GoodPortals defs)
    (hw : Settled defs w) (hm : p ∈ w.scene.roster m)
    (h : playerMove defs fuel p x y MoveArgs.zero w = .ok (r, w')) : Settled defs w' := by
  obtain ⟨player, k, sid, session, hlogged, hmap, -⟩ := hw.orderly.listed m p hm
  cases playerMoveWith_eq_ok h with
  | tooFar => exact hw
  | outOfBounds htarget =>
    obtain ⟨rfl, -⟩ := htarget.plain rfl
    exact hw
  | taken htarget =>
    obtain ⟨rfl, -⟩ := htarget.plain rfl
    exact hw
  | stuck htarget _ htoggle =>
    obtain ⟨rfl, -⟩ := htarget.plain rfl
    obtain ⟨hkept, hscene, -⟩ := toggleCoord_scene defs htoggle
    exact hw.congr hkept.toSteady hscene
  | @moved w₁ w₂ w₃ _ player' mover m' map _ htarget hbounds htoggle _ henable hmove =>
    obtain ⟨rfl, rfl⟩ := htarget.plain rfl
    obtain rfl := Option.some.inj (hlogged.player_eq.symm.trans htarget.player_eq)
    obtain rfl := Option.some.inj (hmap.symm.trans htarget.mover_map)
    obtain ⟨hkept₂, hscene₂, hplayers₂⟩ := toggleCoord_scene defs htoggle
    obtain ⟨hkept₃, hscene₃, hplayers₃⟩ := enableOldCoord_scene defs henable
    have hp₃ : w₃.players.get p = some player := by
      rw [hplayers₃, hplayers₂]
      exact hlogged.player_eq
    obtain ⟨w₄, htrigger, hannounce⟩ := moveTo_eq_ok hp₃ hmove
    have hkept : Kept defs w₁ (w₃.setPlayer p { player with x := x, y := y }) :=
      (hkept₂.trans hkept₃).trans (Kept.setPlayer p _)
    have hscene : (w₃.setPlayer p { player with x := x, y := y }).scene
        = w₁.scene.place p player x y := by
      rw [scene_setPlayer hp₃, hscene₃, hscene₂]
      rfl
    have hmid := hw.midway hm hlogged.player_eq hlogged.id_eq hkept.toSteady hscene
      htarget.map_eq hbounds
    obtain ⟨hkept₄, hmid₄⟩ := hmid.triggerEvents hportals (hkept.sound hw.sound) htrigger
    exact hmid₄.announce hw (hkept.trans hkept₄) hannounce

end Steps

end World
end MmoBackend
