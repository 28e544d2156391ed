import MmoBackend.World.Membership
import MmoBackend.World.Progress

/-!
# Inspecting a player

`db_player_get_player` looks into the player cache before it looks into the database, so that
a player that is logged in is found as it is.  But the call that puts a player into the cache
is commented out, and a login does not put its player there either.  So an inspect request
always reads the record, and `inspect_eq_ok_iff` says what it answers.

The record has been read before, by the login.  The name of a player never changes, so
the answer has the right name if it has one.  The coordinates change with every move, and no
move writes the record.  So `inspect_live_iff` says for any run of the server that the
answer shows a player that is logged in exactly if it stands on the coordinates of its
record.
-/

namespace MmoBackend

open Authentication Communication Db Exec Maps Player

namespace World

open Scene

variable {defs : MapDefs} {w w' v : World} {doc : Document} {g : Progress}
  {playerdata : List Document}

/-! ## The answer -/

/-- A player has a name if its record has one. -/
theorem named_iff (h : recordProgress defs doc = some g) :
    (∃ name, g.name = some name) ↔ ∃ name, doc.fields.lookup "name" = some (.utf8 name) := by
  rw [(recordProgress_eq_some h).name]
  cases doc.fields.lookup "name" with
  | none => simp
  | some value => cases value <;> simp [bsonGetString]

/-- **What an inspect request shows** is the record. -/
theorem inspect_eq_ok_iff {packet : Packet} {name : CString} {x y : ℤ}
    (hw : Unsaved playerdata w) :
    (∃ w', packetHandleInspectPlayer defs packet w
      = .ok (some (.player packet.id name x y), w')) ↔
    ∃ doc g, findById (inspectedId packet) playerdata = some doc ∧
      recordProgress defs doc = some g ∧ g.name = some name ∧ g.x = x ∧ g.y = y := by
  constructor
  · rintro ⟨w', h⟩
    simp only [packetHandleInspectPlayer, bind_eq_ok] at h
    obtain ⟨found, v, hget, hreply⟩ := h
    cases found with
    | none => exact absurd (Option.some.inj (pure_eq_ok.mp hreply).1) (by simp)
    | some q =>
      simp only [inspectReply, bind_eq_ok, derefPlayer_eq_ok, need_eq_ok, pure_eq_ok,
        Option.some.injEq, ServerPacket.player.injEq] at hreply
      obtain ⟨player, _, ⟨hq, rfl⟩, name', _, ⟨hname, rfl⟩, ⟨-, rfl, rfl, rfl⟩, rfl⟩ := hreply
      obtain ⟨doc, g, hdoc, hrecord, hprogress⟩ := dbPlayerGetPlayer_progress hw hget
      obtain ⟨player', mapId, hq', -, rfl⟩ := progress_eq_some.mp hprogress
      obtain rfl := Option.some.inj (hq.symm.trans hq')
      exact ⟨doc, _, hdoc, hrecord, hname, rfl, rfl⟩
  · rintro ⟨doc, g, hdoc, hrecord, hname, rfl, rfl⟩
    obtain ⟨q, w', hget, hprogress⟩ := dbPlayerGetPlayer_returns hw hdoc hrecord
    obtain ⟨player, mapId, hq, -, rfl⟩ := progress_eq_some.mp hprogress
    refine ⟨w', (bind_of_ok hget).trans ?_⟩
    simp only [inspectReply, bind_eq_ok, derefPlayer_eq_ok, need_eq_ok, pure_eq_ok]
    exact ⟨player, w', ⟨hq, rfl⟩, name, w', ⟨hname, rfl⟩, rfl, rfl⟩

/-! ## Names -/

/-- The player `p` is on its way and has the name `name`. -/
structure Called (s₀ : Scene) (p : ℕ) (k : CString) (sid c : ℕ) (name : Option CString)
    (s : Scene) : Prop where
  way : OnWay s₀ p k sid c s
  name_eq : ∃ player, s.player p = some player ∧ player.name = name

section Names

variable {s₀ : Scene} {p sid c : ℕ} {k : CString} {name : Option CString} {player : Player}
  {x y : ℤ} {args : MoveArgs}

theorem Called.emit {s : Scene} (h : Called s₀ p k sid c name s) (l : List (ℕ × Sent)) :
    Called s₀ p k sid c name (s.emit l) := ⟨h.way.emit l, h.name_eq⟩

/-- A change of the map. -/
theorem Called.changeMap {u : Unit} (hw : Sound defs w) (h : Called s₀ p k sid c name w.scene)
    (hp : w.players.get p = some player)
    (hchange : World.changeMap defs player.map p args.map w = .ok (u, w')) :
    Kept defs w w' ∧ Called s₀ p k sid c name w'.scene := by
  obtain ⟨hkept, hway, -⟩ := OnWay.changeMap hw h.way hp hchange
  refine ⟨hkept, hway, ?_⟩
  obtain ⟨player', hp', hname⟩ := h.name_eq
  obtain rfl := Option.some.inj (hp.symm.trans hp')
  cases hargs : args.map with
  | none =>
    rw [hargs] at hchange
    obtain ⟨-, rfl⟩ := pure_eq_ok.mp hchange
    exact ⟨player, hp, hname⟩
  | some n =>
    rw [hargs] at hchange
    obtain ⟨player', o, c', hlisted, -, hid, -⟩ := h.way.listed
    obtain rfl := Option.some.inj (hp.symm.trans hlisted.player_eq)
    obtain ⟨-, hscene⟩ := changeMap_scene hw hp hlisted.map_eq hid hlisted.refs_ite hchange
    rw [hscene]
    exact ⟨_, Function.update_self _ _ _, hname⟩

/-- New coordinates. -/
theorem Called.place (h : Called s₀ p k sid c name w.scene) (hp : w.players.get p = some player) :
    Called s₀ p k sid c name (w.setPlayer p { player with x := x, y := y }).scene := by
  refine ⟨OnWay.place h.way hp, ?_⟩
  obtain ⟨player', hp', hname⟩ := h.name_eq
  obtain rfl := Option.some.inj (hp.symm.trans hp')
  exact ⟨_, Heap.get_set_self _ hp, hname⟩

/-- **A shift** keeps the name. -/
theorem Called.shift (hw : Sound defs w) (h : Called s₀ p k sid c name w.scene)
    (hshift : Shift defs p x y args w v) :
    Kept defs w v ∧ Called s₀ p k sid c name v.scene := by
  cases hshift with
  | tooFar => exact ⟨Kept.refl _, h⟩
  | refused htarget => exact Called.changeMap hw h htarget.player_eq htarget.changed
  | stuck htarget htoggle =>
    obtain ⟨hkept, hcalled⟩ := Called.changeMap hw h htarget.player_eq htarget.changed
    obtain ⟨hkept', hscene, -⟩ := toggleCoord_scene defs htoggle
    exact ⟨hkept.trans hkept', hscene ▸ hcalled⟩
  | moved htarget _ htoggle henable hp₃ =>
    obtain ⟨hkept, hcalled⟩ := Called.changeMap hw h htarget.player_eq htarget.changed
    obtain ⟨hkept₂, hscene₂, -⟩ := toggleCoord_scene defs htoggle
    obtain ⟨hkept₃, hscene₃, -⟩ := enableOldCoord_scene defs henable
    rw [← hscene₂, ← hscene₃] at hcalled
    exact ⟨((hkept.trans hkept₂).trans hkept₃).trans (Kept.setPlayer p _),
      Called.place hcalled hp₃⟩

theorem carried_called :
    Carried defs p (fun _ _ _ => True) fun v => Called s₀ p k sid c name v.scene where
  still _ _ h hstill := hstill.scene.symm ▸ h
  emit _ l h := h.emit l
  aboard v h := by
    obtain ⟨player, m, session, haboard⟩ := OnWay.aboard h.way
    exact ⟨player, k, m, sid, session, haboard⟩
  shift _ _ _ _ _ _ _ hv h _ _ hshift := Called.shift hv h hshift

/-- A player keeps its name when it moves. -/
theorem Called.move {fuel : ℕ} {r : Bool} (hw : Sound defs w)
    (h : Called s₀ p k sid c name w.scene)
    (hmove : playerMove defs fuel p x y args w = .ok (r, w')) :
    Called s₀ p k sid c name w'.scene :=
  (playerMove_rule (I := fun v => Called s₀ p k sid c name v.scene) carried_called
    destinations_true hw (fun _ hv => Called.shift hw h hv) hmove).2

theorem Called.spawn {fuel : ℕ} {id suppress r : ℤ} (hw : Sound defs w)
    (h : Called s₀ p k sid c name w.scene)
    (hspawn : mapSpawnPlayer defs fuel id p x y suppress w = .ok (r, w')) :
    Called s₀ p k sid c name w'.scene :=
  (mapSpawnPlayer_rule (I := fun v => Called s₀ p k sid c name v.scene) carried_called
    destinations_true fuel id x y suppress w w' r hw h (fun _ _ _ => trivial) hspawn).2

end Names

/-! ## Players and their records -/

/-- The player has the id and the name of a record. -/
def FromRecord (defs : MapDefs) (playerdata : List Document) (player : Player) : Prop :=
  ∃ id doc g, player.id = some id ∧ findById id playerdata = some doc ∧
    recordProgress defs doc = some g ∧ player.name = g.name

theorem FromRecord.congr {player player' : Player} (h : FromRecord defs playerdata player)
    (hid : player'.id = player.id) (hname : player'.name = player.name) :
    FromRecord defs playerdata player' := by
  obtain ⟨id, doc, g, hid', hdoc, hrecord, hname'⟩ := h
  exact ⟨id, doc, g, hid.trans hid', hdoc, hrecord, hname.trans hname'⟩

/-- All players come from records, which are in the database. -/
structure Recorded (defs : MapDefs) (playerdata : List Document) (w : World) : Prop where
  member : Member defs w
  unsaved : Unsaved playerdata w
  fromRecord : ∀ q player, w.players.get q = some player → FromRecord defs playerdata player

theorem recorded_boot (playerdata : List Document) :
    Recorded defs playerdata (boot playerdata) :=
  ⟨member_boot playerdata, unsaved_boot playerdata,
    fun _ _ hq => absurd hq.symm (Option.some_ne_none _)⟩

/-- A player that is read comes from a record. -/
theorem dbPlayerGetPlayer_fromRecord {id : CString} {q : ℕ} {player : Player}
    (hw : Unsaved playerdata w) (hreads : Reads defs w q player w')
    (hget : dbPlayerGetPlayer defs id w = .ok (some q, w')) (hid : player.id = some id) :
    FromRecord defs playerdata player := by
  obtain ⟨doc, g, hdoc, hrecord, hprogress⟩ := dbPlayerGetPlayer_progress hw hget
  obtain ⟨player', mapId, hq, -, rfl⟩ := progress_eq_some.mp hprogress
  obtain rfl := Option.some.inj (hreads.get_eq.symm.trans hq)
  exact ⟨id, doc, _, hid, hdoc, hrecord, rfl⟩

section Step

variable {fuel s q : ℕ} {packet : Packet} {session : Session} {r : Option ServerPacket}

/-- Players that are as before, and one that comes from a record. -/
theorem fromRecord_of_ne (s₁ : Scene) (h : Recorded defs playerdata w)
    (hothers : ∀ q' ≠ q, s₁.player q' = w.players.get q')
    (hq : ∀ player, s₁.player q = some player → FromRecord defs playerdata player) :
    ∀ q' player, s₁.player q' = some player → FromRecord defs playerdata player := by
  intro q' player hq'
  by_cases hqq' : q' = q
  · exact hq player (hqq' ▸ hq')
  · exact h.fromRecord q' player ((hothers q' hqq').symm.trans hq')

/-- A login. -/
theorem Recorded.login (h : Recorded defs playerdata w) (hs : w.sessions.get s = some session)
    (hstate : session.state = .disabled)
    (hends : LoginEnds defs fuel packet s session w r v) :
    ∀ q player, v.players.get q = some player → FromRecord defs playerdata player := by
  cases hends with
  | unknown => exact h.fromRecord
  | noRecord => exact h.fromRecord
  | @spawned id player m map v₁ w₁ _ n doc _ _ hget hreads _ henters hspawn =>
    obtain ⟨-, -, hway⟩ := h.member.boarding hs hstate henters
    have hfrom := dbPlayerGetPlayer_fromRecord h.unsaved hreads hget henters.id_eq
    have hstart : w₁.scene.player w.players.next = some { player with session := some s } := by
      rw [henters.scene_eq]
      exact Function.update_self _ _ _
    have hcalled : Called w₁.scene w.players.next id s 0 player.name w₁.scene :=
      ⟨hway, _, hstart, rfl⟩
    obtain ⟨hway', player', hp', hname⟩ := hcalled.spawn (henters.kept.sound h.member.sound) hspawn
    refine fromRecord_of_ne v.scene (q := w.players.next) h (fun q' hq' => ?_)
      fun new hnew => ?_
    · rw [hway'.moves.player q' hq', henters.scene_eq]
      exact Function.update_of_ne hq' _ _
    · obtain ⟨other, _, _, hlisted, -, hid, -⟩ := hway'.listed
      obtain rfl := Option.some.inj (hp'.symm.trans hnew)
      obtain rfl := Option.some.inj (hp'.symm.trans hlisted.player_eq)
      exact hfrom.congr (hid.trans henters.id_eq.symm) hname

/-- A move. -/
theorem Recorded.move {x y : ℤ} {args : MoveArgs} {moved : Bool} (h : Recorded defs playerdata w)
    (hroams : w.scene.RoamsWith s q)
    (hmove : playerMove defs fuel q x y args w = .ok (moved, w')) :
    ∀ q player, w'.players.get q = some player → FromRecord defs playerdata player := by
  obtain ⟨session, hs, -⟩ := id hroams
  obtain ⟨k, hway⟩ := (h.member.membership.present hroams).onWay hs
  obtain ⟨player, _, _, hlisted, -, hid, -⟩ := hway.listed
  have hcalled : Called w.scene q k s 1 player.name w.scene :=
    ⟨hway, player, hlisted.player_eq, rfl⟩
  obtain ⟨hway', player', hp', hname⟩ := hcalled.move h.member.sound hmove
  refine fromRecord_of_ne w'.scene (q := q) h hway'.moves.player fun new hnew => ?_
  obtain ⟨other, _, _, hlisted', -, hid', -⟩ := hway'.listed
  obtain rfl := Option.some.inj (hp'.symm.trans hnew)
  obtain rfl := Option.some.inj (hp'.symm.trans hlisted'.player_eq)
  exact (h.fromRecord q player hlisted.player_eq).congr (hid'.trans hid.symm) hname

/-- An inspect request. -/
theorem Recorded.inspect {id : CString} {found : Option ℕ} (h : Recorded defs playerdata w)
    (hget : dbPlayerGetPlayer defs id w = .ok (found, w')) :
    ∀ q player, w'.players.get q = some player → FromRecord defs playerdata player := by
  rcases dbPlayerGetPlayer_found h.unsaved.cache hget with ⟨-, -, rfl⟩ |
    ⟨_, player, -, rfl, hreads, hid⟩
  · exact h.fromRecord
  · refine fromRecord_of_ne w'.scene (q := w.players.next) h (fun q' hq' => ?_)
      fun new hnew => ?_
    · rw [hreads.scene_eq]
      exact Function.update_of_ne hq' _ _
    · obtain rfl := Option.some.inj (hreads.get_eq.symm.trans hnew)
      exact dbPlayerGetPlayer_fromRecord h.unsaved hreads hget hid

theorem Recorded.emit (h : Recorded defs playerdata w) (l : List (ℕ × Sent)) :
    Recorded defs playerdata (w.emit l) :=
  ⟨h.member.emit l, ⟨h.unsaved.cache, h.unsaved.unmodified, h.unsaved.playerdata, h.unsaved.tiled,
    h.unsaved.locks⟩, h.fromRecord⟩

/-- **A step of the server.** -/
theorem Recorded.step {a : Request} (h : Recorded defs playerdata w) (hstep : Step defs w a w') :
    Recorded defs playerdata w' := by
  refine ⟨(h.member.step hstep).1, h.unsaved.writes hstep.writes, ?_⟩
  cases hstep.turn h.member.sound.cache with
  | connect => exact h.fromRecord
  | token => exact h.fromRecord
  | badState => exact h.fromRecord
  | @login _ _ _ _ _ _ l _ hs hstate _ hends =>
    exact fun q player hq => (h.emit l).login hs hstate hends q player hq
  | @move _ _ _ _ _ _ _ _ _ l _ hs hstate hq _ _ _ hmove =>
    exact fun q player hp => (h.emit l).move ⟨_, hs, hstate, hq⟩ hmove q player hp
  | @inspect _ _ _ _ _ l _ _ _ _ hget =>
    exact fun q player hq => (h.emit l).inspect hget q player hq

end Step

theorem recorded_run {l : List (Request × World)}
    (h : Trace (Step defs) (boot playerdata) l w) : Recorded defs playerdata w :=
  Trace.invariant (I := Recorded defs playerdata) (fun _ _ _ ht hstep => ht.step hstep)
    (recorded_boot playerdata) h

/-! ## Players that are logged in -/

/-- The answer shows the player as it is. -/
def ShowsLive (defs : MapDefs) (packet : Packet) (player : Player) (w : World) : Prop :=
  ∃ name w', player.name = some name ∧ packetHandleInspectPlayer defs packet w
    = .ok (some (.player packet.id name player.x player.y), w')

/-- The record has a name and the coordinates of the player. -/
def OnRecord (doc : Document) (player : Player) : Prop :=
  (∃ name, doc.fields.lookup "name" = some (.utf8 name)) ∧ intField doc "x" = player.x ∧
    intField doc "y" = player.y

/-- **Inspecting a player that is logged in.**  In every state of every run a session that
roams has a player with an id, and an answer to a request with this id shows this player as
it is if and only if it stands on the coordinates of its record, which has a name.  The error
of an earlier login may be reported in front of the answer. -/
theorem inspect_live_iff {l : List (Request × World)}
    (h : Trace (Step defs) (boot playerdata) l w) {s : ℕ} {session : Session}
    (hs : w.sessions.get s = some session) (hroams : session.state = .roaming) :
    ∃ q player id, session.player = some q ∧ w.players.get q = some player ∧
      player.id = some id ∧ ∀ packet sent, inspectedId packet = id →
        (ShowsLive defs packet player (w.emit sent) ↔
          ∃ doc, findById id w.playerdata = some doc ∧ OnRecord doc player) := by
  have hrecorded := recorded_run h
  obtain ⟨q, hq, player, _, id, hlisted, hid, -⟩ :=
    hrecorded.member.membership.roaming s session hs hroams
  refine ⟨q, player, id, hq, hlisted.player_eq, hid, fun packet sent hpacket => ?_⟩
  obtain ⟨id', doc, g, hid', hdoc, hrecord, hname⟩ :=
    hrecorded.fromRecord q player hlisted.player_eq
  obtain rfl := Option.some.inj (hid.symm.trans hid')
  subst hpacket
  have hunsaved := (hrecorded.emit sent).unsaved
  have hsays := recordProgress_eq_some hrecord
  have hx : g.x = intField doc "x" := hsays.x
  have hy : g.y = intField doc "y" := hsays.y
  rw [hrecorded.unsaved.playerdata]
  constructor
  · rintro ⟨name, w', hlive, hreply⟩
    obtain ⟨doc', g', hdoc', hrecord', -, hx', hy'⟩ :=
      (inspect_eq_ok_iff hunsaved).mp ⟨w', hreply⟩
    obtain rfl := Option.some.inj (hdoc.symm.trans hdoc')
    obtain rfl := Option.some.inj (hrecord.symm.trans hrecord')
    exact ⟨doc, hdoc, (named_iff hrecord).mp ⟨name, hname.symm.trans hlive⟩,
      hx.symm.trans hx', hy.symm.trans hy'⟩
  · rintro ⟨doc', hdoc', hfield, hx', hy'⟩
    obtain rfl := Option.some.inj (hdoc.symm.trans hdoc')
    obtain ⟨name, hgname⟩ := (named_iff hrecord).mpr hfield
    obtain ⟨w', hreply⟩ := (inspect_eq_ok_iff hunsaved).mpr
      ⟨doc, g, hdoc, hrecord, hgname, hx.trans hx', hy.trans hy'⟩
    exact ⟨name, w', hname.trans hgname, hreply⟩

/-! ## A player that moves -/

/-- A record with a name. -/
def namedRecord : Document where
  fields := [("id", .utf8 [97]), ("name", .utf8 [98]), ("map", .int32 0), ("x", .int32 1),
    ("y", .int32 1), ("max_move", .int32 1)]
  nodup := by decide

/-- A move to the cell (2, 1). -/
def stepEast : Packet where
  opcode := movePacket
  id := 8
  length := 8
  data := [2, 0, 0, 0, 1, 0, 0, 0]
  length_le := by decide

/-- A request for the player of the record. -/
def inspectNamed : Packet where
  opcode := inspectPlayerPacket
  id := 9
  length := 1
  data := [97]
  length_le := by decide

/-- The player logs in and moves one cell. -/
theorem run_stepEast : ∃ w₁ w₂ w w' player player' v,
    Trace (Step mapLoaders) (boot [namedRecord])
      [(.connect 3, w₁), (.token [49] [97] 0, w₂), (.packet 0 firstLogin, w)] w ∧
    Step mapLoaders w (.packet 0 stepEast) w' ∧
    w.sessions.get 0 = some ⟨3, .roaming, some 0⟩ ∧
    w'.sessions.get 0 = some ⟨3, .roaming, some 0⟩ ∧
    w.players.get 0 = some player ∧ player.id = some [97] ∧ player.x = 1 ∧ player.y = 1 ∧
    w.playerdata = [namedRecord] ∧
    w'.players.get 0 = some player' ∧ player'.id = some [97] ∧ player'.x = 2 ∧
    packetHandleInspectPlayer mapLoaders inspectNamed w'
      = .ok (some (.player 9 [98] 1 1), v) := by
  have hrun : Exec.value (do
      let s ← sessionCreate 3
      let inserted ← onTable (AwaitingTable.insert [49] [97] 0)
      eventLoop mapLoaders 1 0 (some firstLogin)
      let w ← Exec.get
      eventLoop mapLoaders 1 0 (some stepEast)
      let w' ← Exec.get
      let r ← packetHandleInspectPlayer mapLoaders inspectNamed
      pure (decide (s = 0 ∧ inserted = true ∧
        w.sessions.get 0 = some ⟨3, .roaming, some 0⟩ ∧
        w'.sessions.get 0 = some ⟨3, .roaming, some 0⟩ ∧
        (w.players.get 0).map (fun player => (player.id, player.x, player.y))
          = some (some [97], 1, 1) ∧
        (w'.players.get 0).map (fun player => (player.id, player.x)) = some (some [97], 2) ∧
        r = some (.player 9 [98] 1 1)))) (boot [namedRecord]) = some true := by
    decide +kernel
  obtain ⟨_, hrun⟩ := Exec.value_eq_some.mp hrun
  simp only [bind_eq_ok, get_eq_ok, pure_eq_ok, decide_eq_true_iff] at hrun
  obtain ⟨s, w₁, hcreate, inserted, w₂, hinsert, _, w, hlogin, _, _, ⟨rfl, rfl⟩, _, w', hmove, _, _,
    ⟨rfl, rfl⟩, r, v, hinspect, ⟨rfl, rfl, hs, hs', hp, hp', rfl⟩, -⟩ := hrun
  obtain ⟨player, hp, hlive⟩ := Option.map_eq_some_iff.mp hp
  obtain ⟨player', hp', hlive'⟩ := Option.map_eq_some_iff.mp hp'
  obtain ⟨hid, hx, hy⟩ := by simpa only [Prod.mk.injEq] using hlive
  obtain ⟨hid', hx'⟩ := by simpa only [Prod.mk.injEq] using hlive'
  have hlogged : Trace (Step mapLoaders) (boot [namedRecord])
      [(.connect 3, w₁), (.token [49] [97] 0, w₂), (.packet 0 firstLogin, w)] w :=
    ((Trace.nil.snoc (.connect (fun _ _ h => absurd h.symm (Option.some_ne_none _))
      hcreate)).snoc (.token hinsert)).snoc (.packet hlogin)
  have hdata := (recorded_run hlogged).unsaved.playerdata
  exact ⟨w₁, w₂, w, w', player, player', v, hlogged, .packet hmove, hs, hs', hp, hid, hx, hy, hdata,
    hp', hid', hx', hinspect⟩

/-- Before it moves, it is shown where it is. -/
theorem inspect_live_iff_namedRecord : ∃ l w player,
    Trace (Step mapLoaders) (boot [namedRecord]) l w ∧ w.players.get 0 = some player ∧
      player.id = some (inspectedId inspectNamed) ∧
      ShowsLive mapLoaders inspectNamed player w := by
  obtain ⟨w₁, w₂, w, _, player, _, _, hrun, -, hs, -, hp, hid, hx, hy, hdata, -⟩ := run_stepEast
  obtain ⟨q, player', id, hq, hp', hid', hshows⟩ := inspect_live_iff hrun hs rfl
  obtain rfl := Option.some.inj hq
  obtain rfl := Option.some.inj (hp.symm.trans hp')
  obtain rfl := Option.some.inj (hid.symm.trans hid')
  refine ⟨_, w, player, hrun, hp, hid, ?_⟩
  have hlive := (hshows inspectNamed [] (by decide)).mpr
    ⟨namedRecord, by rw [hdata]; rfl, ⟨[98], by decide⟩, by rw [hx]; decide, by rw [hy]; decide⟩
  rwa [emit_nil] at hlive

/-- Behind the move it is shown where it was. -/
theorem inspect_stale : ∃ w₁ w₂ w₃ w player v,
    Trace (Step mapLoaders) (boot [namedRecord]) [(.connect 3, w₁), (.token [49] [97] 0, w₂),
      (.packet 0 firstLogin, w₃), (.packet 0 stepEast, w)] w ∧
      w.sessions.get 0 = some ⟨3, .roaming, some 0⟩ ∧ w.players.get 0 = some player ∧
      player.id = some (inspectedId inspectNamed) ∧ player.x = 2 ∧
      packetHandleInspectPlayer mapLoaders inspectNamed w
        = .ok (some (.player 9 [98] 1 1), v) := by
  obtain ⟨w₁, w₂, w₃, w, _, player, v, hrun, hmove, -, hs, -, -, -, -, -, hp, hid, hx, hreply⟩ :=
    run_stepEast
  exact ⟨w₁, w₂, w₃, w, player, v, hrun.snoc hmove, hs, hp, hid, hx, hreply⟩

end World
end MmoBackend
