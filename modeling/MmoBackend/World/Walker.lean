import MmoBackend.Library.Steps
import MmoBackend.Player.Distance
import MmoBackend.World.EmptyMaps
import MmoBackend.World.InspectPlayer

/-!
# Walking

What a client can do to the place of its player is written down here without maps in
memory, lists, bits and packets.  With one request the player stays, or it goes to a cell of
its map that is near enough and on from there as the portals of that cell lead: this is a
`Leg`, and it knows only the maps as the loaders make them.

`moves_of_requests` says that the server does nothing else.  Over any run, whoever else logs
in, moves and asks meanwhile, the player of a session makes one leg for each move request of
this session, and it is somewhere else for no other reason.  `stays_near` is what follows
for a client that wants to get far: until it has sent enough requests to walk to a portal,
it is within reach of the cell where it started.
-/

namespace MmoBackend

open Authentication Bytes Communication Db Maps Player

namespace World

open Scene

/-! ## The walker -/

/-- No distance on the map overflows. -/
def SmallMaps (defs : MapDefs) : Prop :=
  ∀ base ∈ defs.loaders, base.width + base.height < 2 ^ 31

/-- What one request does to the place of a player with the given `max_move`. -/
inductive Leg (defs : MapDefs) (maxMove : ℤ) (o : Place) : Place → Prop
  | stays : Leg defs maxMove o o
  | goes {base : Map} {x y : ℤ} {n : ℕ} {j : Journey} :
      defs.loaders[o.map]? = some base → mapCheckBounds base x y = true →
      manhattan o.x o.y x y ≤ maxMove →
      eventsJourney (spawnJourney defs n) x y base ⟨⟨o.map, x, y⟩, []⟩ = some j →
      Leg defs maxMove o j.place

variable {defs : MapDefs} {w w' v : World} {a : Request} {s q p sid c : ℕ} {k : CString}
  {player : Player} {o : Place} {s₀ : Scene} {x y : ℤ} {args : MoveArgs}

/-- On a map without distances that overflow, near enough is near enough. -/
theorem manhattan_le_of_valid {base : Map} {max x₁ y₁ x₂ y₂ : ℤ}
    (hsmall : base.width + base.height < 2 ^ 31) (h₁ : mapCheckBounds base x₁ y₁ = true)
    (h₂ : mapCheckBounds base x₂ y₂ = true)
    (hvalid : movementCheckValid max x₁ y₁ x₂ y₂ = true) : manhattan x₁ y₁ x₂ y₂ ≤ max := by
  simp only [mapCheckBounds, decide_eq_true_eq, Bool.and_eq_true] at h₁ h₂
  have hx : |x₂ - x₁| < base.width := abs_lt.mpr ⟨by omega, by omega⟩
  have hy : |y₂ - y₁| < base.height := abs_lt.mpr ⟨by omega, by omega⟩
  have hlt : manhattan x₁ y₁ x₂ y₂ < 2 ^ 31 := by
    rw [manhattan]
    omega
  rw [movementCheckValid, movementCountDistance_of_lt hlt] at hvalid
  exact of_decide_eq_true hvalid

/-! ## What a move does not write -/

/-- A property of players that does not depend on what a move writes. -/
structure Unmoved {β : Type} (f : Player → β) : Prop where
  place : ∀ (player : Player) (x y : ℤ), f { player with x := x, y := y } = f player
  board : ∀ (player : Player) (refs : ℤ) (m : Option ℕ),
    f { player with refs := refs, map := m } = f player

/-- The player `p` is on its way, and the property is `b`. -/
structure Keeping {β : Type} (f : Player → β) (s₀ : Scene) (p : ℕ) (k : CString) (sid c : ℕ)
    (b : β) (s : Scene) : Prop where
  way : OnWay s₀ p k sid c s
  value : ∃ player, s.player p = some player ∧ f player = b

section Keeping

variable {β : Type} {f : Player → β} {b : β}

/-- A change of the map. -/
theorem Keeping.changeMap {u : Unit} (hf : Unmoved f) (hw : Sound defs w)
    (h : Keeping f s₀ p k sid c b w.scene) (hp : w.players.get p = some player)
    (hchange : World.changeMap defs player.map p args.map w = .ok (u, w')) :
    Kept defs w w' ∧ Keeping f s₀ p k sid c b w'.scene := by
  obtain ⟨hkept, hway, -⟩ := OnWay.changeMap hw h.way hp hchange
  refine ⟨hkept, hway, ?_⟩
  obtain ⟨player', hp', hb⟩ := h.value
  obtain rfl := Option.some.inj (hp.symm.trans hp')
  cases hargs : args.map with
  | none =>
    rw [hargs] at hchange
    obtain ⟨-, rfl⟩ := Exec.pure_eq_ok.mp hchange
    exact ⟨player, hp, hb⟩
  | some m =>
    rw [hargs] at hchange
    obtain ⟨player', old, _, hlisted, -, hid, -⟩ := h.way.listed
    obtain rfl := Option.some.inj (hp.symm.trans hlisted.player_eq)
    obtain ⟨-, hscene⟩ := changeMap_scene hw hp hlisted.map_eq hid hlisted.refs_ite hchange
    rw [hscene]
    exact ⟨_, Function.update_self _ _ _, (hf.board player _ _).trans hb⟩

/-- New coordinates. -/
theorem Keeping.place (hf : Unmoved f) (h : Keeping f s₀ p k sid c b w.scene)
    (hp : w.players.get p = some player) :
    Keeping f s₀ p k sid c b (w.setPlayer p { player with x := x, y := y }).scene := by
  refine ⟨OnWay.place h.way hp, ?_⟩
  obtain ⟨player', hp', hb⟩ := h.value
  obtain rfl := Option.some.inj (hp.symm.trans hp')
  exact ⟨_, Heap.get_set_self _ hp, (hf.place player x y).trans hb⟩

/-- **A shift** keeps the property. -/
theorem Keeping.shift (hf : Unmoved f) (hw : Sound defs w)
    (h : Keeping f s₀ p k sid c b w.scene) (hshift : Shift defs p x y args w v) :
    Kept defs w v ∧ Keeping f s₀ p k sid c b v.scene := by
  cases hshift with
  | tooFar => exact ⟨Kept.refl _, h⟩
  | refused htarget => exact Keeping.changeMap hf hw h htarget.player_eq htarget.changed
  | stuck htarget htoggle =>
    obtain ⟨hkept, hkeeping⟩ := Keeping.changeMap hf hw h htarget.player_eq htarget.changed
    obtain ⟨hkept', hscene, -⟩ := toggleCoord_scene defs htoggle
    exact ⟨hkept.trans hkept', hscene ▸ hkeeping⟩
  | moved htarget _ htoggle henable hp₃ =>
    obtain ⟨hkept, hkeeping⟩ := Keeping.changeMap hf hw h htarget.player_eq htarget.changed
    obtain ⟨hkept₂, hscene₂, -⟩ := toggleCoord_scene defs htoggle
    obtain ⟨hkept₃, hscene₃, -⟩ := enableOldCoord_scene defs henable
    rw [← hscene₂, ← hscene₃] at hkeeping
    exact ⟨((hkept.trans hkept₂).trans hkept₃).trans (Kept.setPlayer p _),
      Keeping.place hf hkeeping hp₃⟩

theorem carried_keeping (hf : Unmoved f) :
    Carried defs p (fun _ _ _ => True) fun v => Keeping f s₀ p k sid c b v.scene where
  still _ _ h hstill := hstill.scene.symm ▸ h
  emit _ l h := ⟨h.way.emit l, h.value⟩
  aboard v h := by
    obtain ⟨player, m, session, haboard⟩ := OnWay.aboard h.way
    exact ⟨player, k, m, sid, session, haboard⟩
  shift _ _ _ _ _ _ _ hv h _ _ hshift := Keeping.shift hf hv h hshift

/-- **A move** keeps what it does not write. -/
theorem Keeping.move {fuel : ℕ} {r : Bool} (hf : Unmoved f) (hw : Sound defs w)
    (h : Keeping f s₀ p k sid c b w.scene)
    (hmove : playerMove defs fuel p x y args w = .ok (r, w')) :
    Keeping f s₀ p k sid c b w'.scene :=
  (playerMove_rule (I := fun v => Keeping f s₀ p k sid c b v.scene) (carried_keeping hf)
    destinations_true hw (fun _ hv => Keeping.shift hf hw h hv) hmove).2

end Keeping

/-! ## Requests -/

/-- A move request of the session `s`. -/
def isMove (s : ℕ) : Request → Bool
  | .packet s' packet => s' = s && packet.opcode = movePacket
  | _ => false

/-- How many move requests of a session a run has. -/
def moveRequests (s : ℕ) (l : List (Request × World)) : ℕ := l.countP fun e => isMove s e.1

/-- Who roams with a player goes on doing so. -/
theorem Member.roams_step (h : Member defs w) (hroams : w.scene.RoamsWith s q)
    (hstep : Step defs w a w') : w'.scene.RoamsWith s q := by
  obtain ⟨k, hholds⟩ := h.membership.holds hroams
  exact ((h.step hstep).2.holds hholds).1

/-- **Whatever is not a move request of its session** leaves a player alone. -/
theorem Member.untouched (h : Member defs w) (hroams : w.scene.RoamsWith s q)
    (hstep : Step defs w a w') (hnot : isMove s a = false) :
    Kept defs w w' ∧ w'.players.get q = w.players.get q := by
  have hpresent := h.membership.present hroams
  have hnext : q ≠ w.players.next := by
    obtain ⟨player, _, _, hlisted, -⟩ := hpresent
    exact Heap.ne_next (h := w.players) hlisted.player_eq
  cases hstep.turn h.sound.cache with
  | connect => exact ⟨Kept.newSession _, rfl⟩
  | token t => exact ⟨Kept.setTable t, rfl⟩
  | badState l => exact ⟨Kept.emit l, rfl⟩
  | @login fuel s' packet session r v l l' hs hstate _ hends =>
    have hl := h.emit l
    cases hends with
    | unknown => exact ⟨(Kept.emit l).trans ((Kept.setErrno _).trans (Kept.emit l')), rfl⟩
    | noRecord =>
      exact ⟨(Kept.emit l).trans ((Kept.setSession _ _).trans (Kept.emit l')), rfl⟩
    | @spawned id player m map v₁ w₁ _ n doc _ _ _ _ _ henters hspawn =>
      have hsound := henters.kept.sound hl.sound
      obtain ⟨i, hi, htile⟩ := hsound.map m map henters.get_eq
      obtain ⟨-, -, hway⟩ := hl.boarding hs hstate henters
      rw [hi] at hspawn
      obtain ⟨-, hkept, hway'⟩ := OnWay.spawn hsound hway (hsound.lt_count htile) hspawn
      refine ⟨((Kept.emit l).trans henters.kept).trans (hkept.trans (Kept.emit l')), ?_⟩
      have hq := hway'.moves.player q hnext
      rw [henters.scene_eq] at hq
      exact hq.trans (Function.update_of_ne hnext _ _)
  | @move fuel s' q' packet session x y moved v l l' hs hstate hq' hop _ _ hmove =>
    have hroams' : (w.emit l).scene.RoamsWith s' q' := ⟨session, hs, hstate, hq'⟩
    obtain ⟨k', hway'⟩ := ((h.emit l).membership.present hroams').onWay hs
    obtain ⟨hkept, hway⟩ := OnWay.move (h.emit l).sound hway' hmove
    refine ⟨((Kept.emit l).trans hkept).trans (Kept.emit l'), hway.moves.player q ?_⟩
    rintro rfl
    have hpresent' : (w.emit l).scene.Present s q := (h.emit l).membership.present hroams
    have hs' : s' = s := ((h.emit l).membership.present hroams').inj hpresent'
    simp [isMove, hs', hop] at hnot
  | @inspect s' packet session found v l l' _ _ _ hget =>
    rcases dbPlayerGetPlayer_reads (h.emit l).sound.cache hget with rfl | ⟨player, hreads⟩
    · exact ⟨(Kept.emit l).trans (Kept.emit l'), rfl⟩
    · refine ⟨((Kept.emit l).trans hreads.kept).trans (Kept.emit l'), ?_⟩
      have hq := congrFun (congrArg Scene.player hreads.scene_eq) q
      exact hq.trans (Function.update_of_ne hnext _ _)

/-! ## Legs -/

/-- The session `s` roams with the player `q`, whose place is `o` and whose range is `n`. -/
structure Walks (defs : MapDefs) (s q : ℕ) (n : ℤ) (w : World) (o : Place) : Prop where
  member : Member defs w
  roams : w.scene.RoamsWith s q
  placed : Placed w q o
  range : ∃ player, w.players.get q = some player ∧ player.maxMove = n

theorem isMove_iff {s : ℕ} : isMove s a = true ↔
    ∃ packet, a = .packet s packet ∧ packet.opcode = movePacket := by
  constructor
  · intro h
    match a with
    | .packet s' packet =>
      simp only [isMove, Bool.and_eq_true, decide_eq_true_eq] at h
      exact ⟨packet, by rw [h.1], h.2⟩
  · rintro ⟨packet, rfl, hop⟩
    simp [isMove, hop]

section Leg

variable {n : ℤ}

theorem Walks.emit (h : Walks defs s q n w o) (l : List (ℕ × Sent)) :
    Walks defs s q n (w.emit l) o := ⟨h.member.emit l, h.roams, h.placed, h.range⟩

/-- What is not a move request of the session. -/
theorem Walks.other (h : Walks defs s q n w o) (hstep : Step defs w a w')
    (hnot : isMove s a = false) : Walks defs s q n w' o := by
  obtain ⟨hkept, hq⟩ := h.member.untouched h.roams hstep hnot
  obtain ⟨player, m, hp, hm, htile, hplace⟩ := h.placed
  refine ⟨(h.member.step hstep).1, h.member.roams_step h.roams hstep, ?_, ?_⟩
  · exact ⟨player, m, hq.trans hp, hm, hkept.tiles _ _ htile, hplace⟩
  · rw [hq]
    exact h.range

/-- **A call of `player_move`** for the player takes it one leg further. -/
theorem Walks.playerMove (hsmall : SmallMaps defs) (h : Walks defs s q n w o) {fuel : ℕ}
    {moved : Bool} (hmove : World.playerMove defs fuel q x y .zero w = .ok (moved, v)) :
    ∃ o', Leg defs n o o' ∧ Walks defs s q n v o' := by
  obtain ⟨player, m, hp, hm, htile, hx, hy⟩ := h.placed
  obtain ⟨session, hs, -⟩ := id h.roams
  obtain ⟨map, base, hmap, hbase, hframe, -⟩ := h.member.sound.tile _ _ htile
  obtain ⟨k, htravelled⟩ := Travelled.start h.member h.roams hs hp hm htile
  rw [hx, hy] at htravelled
  obtain ⟨_, hrange, hn⟩ := h.range
  obtain rfl := Option.some.inj (hp.symm.trans hrange)
  have hmember := (h.member.move h.roams hmove).1
  have hroams : v.scene.RoamsWith s q := by
    obtain ⟨_, hholds⟩ := h.member.membership.holds h.roams
    exact (((h.member.move h.roams hmove).2 _ _ _).mpr hholds).1
  have hkeeping : Keeping Player.maxMove w.scene q k s 0 player.maxMove v.scene :=
    Keeping.move ⟨fun _ _ _ => rfl, fun _ _ _ => rfl⟩ h.member.sound
      ⟨htravelled.way, player, hp, rfl⟩ hmove
  have hwalks : ∀ o', Placed v q o' → Walks defs s q n v o' := fun o' hplaced => by
    obtain ⟨player', hp', hn'⟩ := hkeeping.value
    exact ⟨hmember, hroams, hplaced, player', hp', hn'.trans hn⟩
  rcases htravelled.walk h.member.sound hbase hmove with ⟨-, hstays⟩ |
    ⟨⟨player', m', map', hgoes⟩, j, hj, hgone⟩
  · exact ⟨o, .stays, hwalks o hstays.placed⟩
  · -- the map in memory has the bounds and the events of the map of the loader
    obtain ⟨rfl, rfl⟩ := hgoes.inj hp hm hmap
    have hin := hgoes.bounds
    have hon := hgoes.on_map
    rw [mapCheckBounds_of_frame hframe] at hin hon
    have hnear := manhattan_le_of_valid (hsmall base (List.mem_of_getElem? hbase)) hon hin
      hgoes.near
    rw [hx, hy, hn] at hnear
    exact ⟨j.place, .goes hbase hin hnear hj, hwalks j.place hgone.placed⟩

/-- **A move request** of the session. -/
theorem Walks.move (hsmall : SmallMaps defs) (h : Walks defs s q n w o)
    (hstep : Step defs w a w') (hmove : isMove s a = true) :
    ∃ o', Leg defs n o o' ∧ Walks defs s q n w' o' := by
  obtain ⟨packet, rfl, hop⟩ := isMove_iff.mp hmove
  cases hstep.turn h.member.sound.cache with
  | badState l => exact ⟨o, .stays, h.emit l⟩
  | login _ _ _ hop' => exact absurd (hop.symm.trans hop') (by decide)
  | inspect _ _ _ hop' => exact absurd (hop.symm.trans hop') (by decide)
  | @move fuel _ q' _ session x y moved v l l' hs hstate hq' _ _ _ hrun =>
    obtain ⟨session', hs', -, hq⟩ := h.roams
    obtain rfl := Option.some.inj (hs.symm.trans hs')
    obtain rfl := Option.some.inj (hq.symm.trans hq')
    obtain ⟨o', hleg, hwalks⟩ := (h.emit l).playerMove hsmall hrun
    exact ⟨o', hleg, hwalks.emit l'⟩

end Leg

/-! ## Runs -/

/-- A run takes the player one leg for each move request of its session. -/
theorem Walks.run {n : ℤ} {l : List (Request × World)} (hsmall : SmallMaps defs)
    (h : Walks defs s q n w o) (hrun : Trace (Step defs) w l w') :
    ∃ o', Steps (Leg defs n) o (moveRequests s l) o' ∧ Walks defs s q n w' o' := by
  have hmove : ∀ v a v' o, Walks defs s q n v o → Step defs v a v' → isMove s a = true →
      ∃ o', Leg defs n o o' ∧ Walks defs s q n v' o' := fun _ _ _ _ hv => hv.move hsmall
  have hother : ∀ v a v' o, Walks defs s q n v o → Step defs v a v' → isMove s a = false →
      Walks defs s q n v' o := fun _ _ _ _ hv => hv.other
  exact Trace.simulates hmove hother h hrun

/-- **Players move by requests of their sessions only.**  After any run, take a session that
roams and any run that goes on from there.  Then the player still has its range, and its
place has changed by one leg for each of the move requests of this session. -/
theorem moves_of_requests {playerdata : List Document} {l l' : List (Request × World)}
    (hsmall : SmallMaps defs) (h : Trace (Step defs) (boot playerdata) l w)
    (hroams : w.scene.RoamsWith s q) (hp : w.players.get q = some player) (ho : Placed w q o)
    (h' : Trace (Step defs) w l' w') :
    ∃ o' player', Steps (Leg defs player.maxMove) o (moveRequests s l') o' ∧ Placed w' q o' ∧
      w'.players.get q = some player' ∧ player'.maxMove = player.maxMove := by
  have hwalks : Walks defs s q player.maxMove w o :=
    ⟨member_run h, hroams, ho, player, hp, rfl⟩
  obtain ⟨o', hsteps, hwalks'⟩ := hwalks.run hsmall h'
  obtain ⟨player', hp', hn⟩ := hwalks'.range
  exact ⟨o', player', hsteps, hwalks'.placed, hp', hn⟩

theorem smallMaps_mapLoaders : SmallMaps mapLoaders := by
  show ∀ base ∈ mapLoaders.loaders, base.width + base.height < 2 ^ 31
  decide

/-- A player logs in and asks to move one cell. -/
theorem run_walkEast : ∃ w₁ w₂ w w' player,
    Trace (Step mapLoaders) (boot [namedRecord])
      [(.connect 3, w₁), (.token [49] [97] 0, w₂), (.packet 0 firstLogin, w)] w ∧
    Step mapLoaders w (.packet 0 stepEast) w' ∧ w.scene.RoamsWith 0 0 ∧
    w.players.get 0 = some player ∧ player.maxMove = 1 ∧ Placed w 0 ⟨0, 1, 1⟩ := by
  have hrun : Exec.value (do
      let s ← sessionCreate 3
      let inserted ← onTable (AwaitingTable.insert [49] [97] 0)
      eventLoop mapLoaders 1 0 (some firstLogin)
      let w ← Exec.get
      eventLoop mapLoaders 1 0 (some stepEast)
      pure (decide (s = 0 ∧ inserted = true ∧
        w.sessions.get 0 = some ⟨3, .roaming, some 0⟩ ∧ w.tiles 0 = some 0 ∧
        (w.players.get 0).map (fun player => (player.maxMove, player.map, player.x, player.y))
          = some (1, some 0, 1, 1)))) (boot [namedRecord]) = some true := by
    decide +kernel
  obtain ⟨_, hrun⟩ := Exec.value_eq_some.mp hrun
  simp only [Exec.bind_eq_ok, Exec.get_eq_ok, Exec.pure_eq_ok, decide_eq_true_iff] at hrun
  obtain ⟨s, w₁, hcreate, inserted, w₂, hinsert, _, w, hlogin, _, _, ⟨rfl, rfl⟩, _, w', hmove,
    ⟨rfl, rfl, hs, htile, hp⟩, -⟩ := hrun
  obtain ⟨player, hp, hlive⟩ := Option.map_eq_some_iff.mp hp
  obtain ⟨hrange, hmap, hx, hy⟩ := by simpa only [Prod.mk.injEq] using hlive
  have hlogged : Trace (Step mapLoaders) (boot [namedRecord])
      [(.connect 3, w₁), (.token [49] [97] 0, w₂), (.packet 0 firstLogin, w)] w :=
    ((Trace.nil.snoc (.connect (fun _ _ h => absurd h.symm (Option.some_ne_none _))
      hcreate)).snoc (.token hinsert)).snoc (.packet hlogin)
  exact ⟨w₁, w₂, w, w', player, hlogged, .packet hmove, ⟨_, hs, rfl, rfl⟩, hp, hrange,
    player, 0, hp, hmap, htile, hx, hy⟩

theorem moves_of_requests_walkEast : ∃ w w' o' player', ∃ l : List (Request × World),
    Trace (Step mapLoaders) w l w' ∧ Steps (Leg mapLoaders 1) ⟨0, 1, 1⟩ 1 o' ∧
      Placed w' 0 o' ∧ w'.players.get 0 = some player' ∧ player'.maxMove = 1 := by
  obtain ⟨_, _, w, w', player, hrun, hstep, hroams, hp, hrange, ho⟩ := run_walkEast
  have hone : Trace (Step mapLoaders) w [(.packet 0 stepEast, w')] w' := Trace.nil.snoc hstep
  obtain ⟨o', player', hsteps, hplaced, hp', hrange'⟩ :=
    moves_of_requests smallMaps_mapLoaders hrun hroams hp ho hone
  exact ⟨w, w', o', player', _, hone, hrange ▸ hsteps, hplaced, hp', hrange'.trans hrange⟩

/-! ## Before the first portal -/

theorem manhattan_triangle (x₁ y₁ x₂ y₂ x₃ y₃ : ℤ) :
    manhattan x₁ y₁ x₃ y₃ ≤ manhattan x₁ y₁ x₂ y₂ + manhattan x₂ y₂ x₃ y₃ := by
  have hx : |x₃ - x₁| ≤ |x₃ - x₂| + |x₂ - x₁| := abs_sub_le x₃ x₂ x₁
  have hy : |y₃ - y₁| ≤ |y₃ - y₂| + |y₂ - y₁| := abs_sub_le y₃ y₂ y₁
  simp only [manhattan]
  omega

/-- On a cell without portals a journey ends. -/
theorem eventsJourney_of_no_portal {go : Journey → ℤ → ℤ → ℤ → ℤ → Option Journey} {base : Map}
    {j : Journey} (h : ∀ e ∈ base.events, e.func = .changeMap → ¬(e.x = x ∧ e.y = y)) :
    eventsJourney go x y base j = some j := by
  unfold eventsJourney
  generalize base.events = events at h
  induction events with
  | nil => rfl
  | cons e events ih =>
    have hnone : eventJourney go x y j e = some j :=
      if_neg fun hcell => h e List.mem_cons_self hcell.2.2 ⟨hcell.1, hcell.2.1⟩
    rw [List.foldlM_cons, hnone]
    exact ih fun e' he' => h e' (List.mem_cons_of_mem e he')

/-- One leg from a place that is within `d` of `o`, where no portal is within `d + maxMove`. -/
theorem Leg.near {base : Map} {maxMove d d' : ℤ} {o' o'' : Place} (hleg : Leg defs maxMove o' o'')
    (hbase : defs.loaders[o.map]? = some base) (hmap : o'.map = o.map)
    (hnear : manhattan o.x o.y o'.x o'.y ≤ d) (hle : d ≤ d') (hadd : d + maxMove ≤ d')
    (hfar : ∀ e ∈ base.events, e.func = .changeMap → d' < manhattan o.x o.y e.x e.y) :
    o''.map = o.map ∧ manhattan o.x o.y o''.x o''.y ≤ d' := by
  cases hleg with
  | stays => exact ⟨hmap, hnear.trans hle⟩
  | @goes base' x y n j hbase' hin hstep hj =>
    obtain rfl := Option.some.inj (hbase.symm.trans (hmap ▸ hbase'))
    have hreach : manhattan o.x o.y x y ≤ d' := by
      have := manhattan_triangle o.x o.y o'.x o'.y x y
      omega
    have hnone : ∀ e ∈ base.events, e.func = .changeMap → ¬(e.x = x ∧ e.y = y) := by
      rintro e he hfunc ⟨rfl, rfl⟩
      exact absurd (hfar e he hfunc) (not_lt.mpr hreach)
    rw [eventsJourney_of_no_portal hnone] at hj
    obtain rfl := Option.some.inj hj
    exact ⟨hmap, hreach⟩

/-- **A player is no faster than its client.**  Take a session that roams after any run, and a
run that goes on from there.  If every portal of the map is farther away than the session's
move requests can carry its player, the player is still on this map, and not farther from the
cell it was on than that. -/
theorem stays_near {playerdata : List Document} {l l' : List (Request × World)} {base : Map}
    (hsmall : SmallMaps defs) (h : Trace (Step defs) (boot playerdata) l w)
    (hroams : w.scene.RoamsWith s q) (hp : w.players.get q = some player) (ho : Placed w q o)
    (hbase : defs.loaders[o.map]? = some base) (h' : Trace (Step defs) w l' w')
    (hfar : ∀ e ∈ base.events, e.func = .changeMap →
      ((moveRequests s l' * player.maxMove.toNat : ℕ) : ℤ) < manhattan o.x o.y e.x e.y) :
    ∃ o', Placed w' q o' ∧ o'.map = o.map ∧
      manhattan o.x o.y o'.x o'.y ≤ (moveRequests s l' * player.maxMove.toNat : ℕ) := by
  have hwalks : Walks defs s q player.maxMove w o := ⟨member_run h, hroams, ho, player, hp, rfl⟩
  obtain ⟨o', hsteps, hwalks'⟩ := hwalks.run hsmall h'
  -- after `k` legs the player is within `k` times its range
  have hreach : ∀ k b c, k < moveRequests s l' →
      (b.map = o.map ∧ manhattan o.x o.y b.x b.y ≤ (k * player.maxMove.toNat : ℕ)) →
      Leg defs player.maxMove b c →
      c.map = o.map ∧ manhattan o.x o.y c.x c.y ≤ ((k + 1) * player.maxMove.toNat : ℕ) := by
    rintro k b c hk ⟨hmap, hnear⟩ hleg
    have hone : player.maxMove ≤ player.maxMove.toNat := Int.self_le_toNat player.maxMove
    have hmul : (k + 1) * player.maxMove.toNat
        = k * player.maxMove.toNat + player.maxMove.toNat := Nat.succ_mul _ _
    have hall : (k + 1) * player.maxMove.toNat ≤ moveRequests s l' * player.maxMove.toNat :=
      Nat.mul_le_mul_right _ hk
    refine hleg.near hbase hmap hnear (by omega) (by omega) fun e he hfunc => ?_
    have := hfar e he hfunc
    omega
  have hstart : o.map = o.map ∧ manhattan o.x o.y o.x o.y ≤ (0 * player.maxMove.toNat : ℕ) := by
    simp [manhattan]
  exact ⟨o', hwalks'.placed, hsteps.invariant
    (I := fun k b => b.map = o.map ∧
      manhattan o.x o.y b.x b.y ≤ (k * player.maxMove.toNat : ℕ)) hstart hreach⟩

theorem stays_near_walkEast : ∃ w w' o', ∃ l : List (Request × World),
    Trace (Step mapLoaders) w l w' ∧ Placed w 0 ⟨0, 1, 1⟩ ∧ Placed w' 0 o' ∧ o'.map = 0 ∧
      manhattan 1 1 o'.x o'.y ≤ 1 := by
  obtain ⟨_, _, w, w', player, hrun, hstep, hroams, hp, hrange, ho⟩ := run_walkEast
  have hone : Trace (Step mapLoaders) w [(.packet 0 stepEast, w')] w' := Trace.nil.snoc hstep
  have hcount : moveRequests 0 [(.packet 0 stepEast, w')] * player.maxMove.toNat = 1 := by
    rw [hrange]
    rfl
  obtain ⟨o', hplaced, hmap, hnear⟩ := stays_near smallMaps_mapLoaders hrun hroams hp ho
    (rfl : mapLoaders.loaders[0]? = some mapDefTestTile) hone (by rw [hcount]; decide)
  rw [hcount] at hnear
  exact ⟨w, w', o', _, hone, ho, hplaced, hmap, hnear⟩

end World
end MmoBackend
