import MmoBackend.World.Journey

/-!
# Maps that nobody is on

Every spawn loads its map three times, once to find it, once for the map packet and once
for the list, and a change of the map gives nothing back; the player that an inspect
request loads is never freed.  So no request ever unloads a map, and a map that is in
memory without a player stays there.

Such a map comes about in two ways: somebody inspects a player whose map nobody is on, or
a move through portals leaves one behind.  `emptyUnloaded_iff` says that there are no
others: the runs in which every map without players is unloaded are the runs in which no
request does one of the two.
-/

namespace MmoBackend

open Authentication Bytes Communication Db Maps Player

namespace World

open Scene

variable {defs : MapDefs} {w w' v : World} {a : Request} {q p sid i i' m : ℕ} {k : CString}
  {player : Player} {j : Journey} {id : CString} {u : Unit}

/-! ## Who is on a map -/

/-- The player `q` is logged in and on the map with the id `i`. -/
def StandsOn (w : World) (q i : ℕ) : Prop :=
  (∃ s, w.scene.RoamsWith s q) ∧
    ∃ player m, w.players.get q = some player ∧ player.map = some m ∧ w.tiles i = some m

/-- A map that nobody who is logged in is on is not in memory. -/
def EmptyUnloaded (w : World) : Prop := ∀ i, (∀ q, ¬StandsOn w q i) → w.tiles i = none

theorem emptyUnloaded_iff_exists :
    EmptyUnloaded w ↔ ∀ i, w.tiles i ≠ none → ∃ q, StandsOn w q i := by
  refine forall_congr' fun i => ?_
  rw [← not_exists, not_imp_comm]

theorem Sound.tile_inj (hw : Sound defs w) (h : w.tiles i = some m) (h' : w.tiles i' = some m) :
    i = i' := by
  obtain ⟨map, -, hmap, -⟩ := hw.tile i m h
  have hid := hw.id_of_tile h hmap
  have hid' := hw.id_of_tile h' hmap
  omega

theorem StandsOn.inj (hw : Sound defs w) (h : StandsOn w q i) (h' : StandsOn w q i') : i = i' := by
  obtain ⟨-, player, m, hp, hm, htile⟩ := h
  obtain ⟨-, player', m', hp', hm', htile'⟩ := h'
  obtain rfl := Option.some.inj (hp.symm.trans hp')
  obtain rfl := Option.some.inj (hm.symm.trans hm')
  exact hw.tile_inj htile htile'

/-- Who is logged in is on some map. -/
theorem Member.standsOn (h : Member defs w) (hroams : w.scene.RoamsWith sid q) :
    ∃ i, StandsOn w q i := by
  obtain ⟨player, m, k, hlisted, -⟩ := h.membership.present hroams
  obtain ⟨map, hmap, -⟩ := mem_roster.mp (hlisted.mem_iff.mpr rfl)
  obtain ⟨i, -, htile⟩ := h.sound.map m map hmap
  exact ⟨i, ⟨sid, hroams⟩, player, m, hlisted.player_eq, hlisted.map_eq, htile⟩

/-- Who is on a map stays there. -/
theorem StandsOn.kept (h : StandsOn w q i) (hkept : Kept defs w v)
    (hroams : ∃ s, v.scene.RoamsWith s q) (hp : v.players.get q = w.players.get q) :
    StandsOn v q i := by
  obtain ⟨-, player, m, hplayer, hm, htile⟩ := h
  exact ⟨hroams, player, m, hp.trans hplayer, hm, hkept.tiles i m htile⟩

/-- Who is on a map was there before. -/
theorem StandsOn.of_kept (hw : Member defs w) (hkept : Kept defs w v)
    (hroams : w.scene.RoamsWith sid q) (hp : v.players.get q = w.players.get q)
    (h : StandsOn v q i) : StandsOn w q i := by
  obtain ⟨i₀, h₀⟩ := hw.standsOn hroams
  obtain rfl := h.inj (hkept.sound hw.sound) (h₀.kept hkept h.1 hp)
  exact h₀

/-! ## Journeys -/

/-- **After a journey** of the player `q`, which was on the map `i`, every map without
players is unloaded if and only if somebody else is on each map it has left or passed. -/
theorem Travelled.emptyUnloaded_after (hw : Member defs w) (hempty : EmptyUnloaded w)
    (hroams : w.scene.RoamsWith sid q) (hstart : StandsOn w q i)
    (h : Travelled defs w w.scene q k sid j v) :
    EmptyUnloaded v ↔
      ∀ i' ∈ i :: j.visited, i' ≠ j.place.map → ∃ q' ≠ q, StandsOn w q' i' := by
  have hroams_iff : ∀ s q', v.scene.RoamsWith s q' ↔ w.scene.RoamsWith s q' := by
    intro s q'
    unfold RoamsWith
    rw [h.way.moves.session]
  have hother : ∀ q' ≠ q, ∀ i', StandsOn v q' i' ↔ StandsOn w q' i' := by
    refine fun q' hq i' => ⟨fun hv => ?_, fun hw' => ?_⟩
    · obtain ⟨s, hs⟩ := hv.1
      exact StandsOn.of_kept hw h.kept ((hroams_iff s q').mp hs) (h.way.moves.player q' hq) hv
    · obtain ⟨s, hs⟩ := hw'.1
      exact hw'.kept h.kept ⟨s, (hroams_iff s q').mpr hs⟩ (h.way.moves.player q' hq)
  have hhere : StandsOn v q j.place.map := by
    obtain ⟨player, m, hp, hm, htile, -⟩ := h.placed
    exact ⟨⟨sid, (hroams_iff sid q).mpr hroams⟩, player, m, hp, hm, htile⟩
  rw [emptyUnloaded_iff_exists] at hempty ⊢
  constructor
  · intro hv i' hi' hne
    have hloaded : v.tiles i' ≠ none := by
      rcases List.mem_cons.mp hi' with rfl | hi'
      · obtain ⟨-, -, m, -, -, htile⟩ := hstart
        rw [h.kept.tiles i' m htile]
        exact Option.some_ne_none m
      · exact (h.tiles i').mpr (Or.inr hi')
    obtain ⟨q', hq'⟩ := hv i' hloaded
    have hqq : q' ≠ q := by
      rintro rfl
      exact hne (hq'.inj (h.kept.sound hw.sound) hhere)
    exact ⟨q', hqq, (hother q' hqq i').mp hq'⟩
  · intro hleft i' hi'
    by_cases hend : i' = j.place.map
    · exact ⟨q, hend ▸ hhere⟩
    have hsomebody : ∃ q' ≠ q, StandsOn w q' i' := by
      rcases (h.tiles i').mp hi' with hold | hvisited
      · obtain ⟨q', hq'⟩ := hempty i' hold
        by_cases hqq : q' = q
        · subst hqq
          obtain rfl := hq'.inj hw.sound hstart
          exact hleft i' List.mem_cons_self hend
        · exact ⟨q', hqq, hq'⟩
      · exact hleft i' (List.mem_cons_of_mem i hvisited) hend
    obtain ⟨q', hqq, hq'⟩ := hsomebody
    exact ⟨q', (hother q' hqq i').mpr hq'⟩

/-- The journey that has not begun. -/
theorem Travelled.start {s : Session} (hw : Member defs w) (hroams : w.scene.RoamsWith sid q)
    (hs : w.sessions.get sid = some s) (hp : w.players.get q = some player)
    (hm : player.map = some m) (htile : w.tiles i = some m) :
    ∃ k, Travelled defs w w.scene q k sid ⟨⟨i, player.x, player.y⟩, []⟩ w := by
  obtain ⟨k, hway⟩ := (hw.membership.present hroams).onWay hs
  obtain ⟨player', m', c, hlisted, -, hrest⟩ := hway.listed
  refine ⟨k, Kept.refl w,
    ⟨hway.moves, ⟨player', m', c, hlisted, Nat.zero_le c, hrest⟩, hway.session⟩,
    ⟨player, m, hp, hm, htile, rfl, rfl⟩, fun n => ?_⟩
  rw [or_iff_left List.not_mem_nil]

/-- The journey of the player of a login that has not called `map_spawn_player` yet. -/
theorem Member.travelled_enters {s : ℕ} {session : Session} {map : Map} {w₁ : World}
    (h : Member defs w) (hs : w.sessions.get s = some session)
    (hstate : session.state = .disabled)
    (henters : Enters defs w s session id player m map w₁) (htile : w₁.tiles i = some m) :
    Travelled defs w₁ w₁.scene w.players.next id s ⟨⟨i, player.x, player.y⟩, []⟩ w₁ := by
  obtain ⟨-, -, hway⟩ := h.boarding hs hstate henters
  have hp : w₁.players.get w.players.next = some { player with session := some s } := by
    have hscene := congrFun (congrArg Scene.player henters.scene_eq) w.players.next
    exact hscene.trans (Function.update_self _ _ _)
  refine ⟨Kept.refl w₁, hway, ⟨_, m, hp, henters.map_eq, htile, rfl, rfl⟩, fun n => ?_⟩
  rw [or_iff_left List.not_mem_nil]

/-! ## Reading a record -/

/-- The record has the id of the map `i`. -/
def LoadsMap (defs : MapDefs) (doc : Document) (i : ℕ) : Prop :=
  ∃ field ∈ doc.fields, field.1 = "map" ∧ bsonIterInt32 field.2 = i ∧ i < defs.count

/-- The one field that loads a map. -/
theorem readField_tiles {field : String × Bson} (h : readField defs p field w = .ok (u, w')) :
    w'.tiles i ≠ none ↔
      w.tiles i ≠ none ∨ field.1 = "map" ∧ bsonIterInt32 field.2 = i ∧ i < defs.count := by
  have hset : ∀ {f : Player → Player} {w₁ : World}, updatePlayer p f w₁ = .ok (u, w') →
      w'.tiles = w₁.tiles := by
    intro f w₁ h
    obtain ⟨_, -, rfl⟩ := updatePlayer_eq_ok.mp h
    rfl
  by_cases hmap : field.1 = "map"
  · rw [readField, if_neg (by rw [hmap]; decide), if_neg (by rw [hmap]; decide), if_pos hmap] at h
    obtain ⟨r, w₁, hload, h⟩ := Exec.bind_eq_ok.mp h
    rw [hset h]
    rcases mapLoad_eq_ok hload with ⟨hbad, -, rfl⟩ | ⟨n, m, map, hn, hcount, -, hloads⟩
    · rw [or_iff_left fun hi => by omega]
    · rw [hloads.tiles_ne_none]
      refine or_congr_right ⟨?_, fun hi => by omega⟩
      rintro rfl
      exact ⟨hmap, hn, hcount⟩
  · rw [or_iff_left fun hi => hmap hi.1]
    rw [readField] at h
    split at h
    · simp only [Exec.bind_eq_ok, Exec.need_eq_ok] at h
      obtain ⟨_, _, ⟨-, rfl⟩, h⟩ := h
      rw [hset h]
    split at h
    · simp only [Exec.bind_eq_ok, Exec.need_eq_ok] at h
      obtain ⟨_, _, ⟨-, rfl⟩, h⟩ := h
      rw [hset h]
    split_ifs at h
    · rw [hset h]
    · rw [hset h]
    · rw [hset h]
    · rw [(Exec.pure_eq_ok.mp h).2]

theorem forEach_readField_tiles {fields : List (String × Bson)}
    (h : Exec.forEach fields (readField defs p) w = .ok (u, w')) :
    w'.tiles i ≠ none ↔ w.tiles i ≠ none ∨
      ∃ field ∈ fields, field.1 = "map" ∧ bsonIterInt32 field.2 = i ∧ i < defs.count := by
  induction fields generalizing w with
  | nil =>
    obtain ⟨-, rfl⟩ := Exec.pure_eq_ok.mp h
    simp
  | cons field fields ih =>
    rw [Exec.forEach_cons] at h
    obtain ⟨_, w₁, hread, hrest⟩ := Exec.bind_eq_ok.mp h
    rw [ih hrest, readField_tiles hread, or_assoc]
    simp only [List.mem_cons, exists_eq_or_imp]

/-- **The maps that `db_player_get_player` loads.** -/
theorem dbPlayerGetPlayer_tiles {r : Option ℕ} (hcache : w.cache = [])
    (h : dbPlayerGetPlayer defs id w = .ok (r, w')) :
    w'.tiles i ≠ none ↔ w.tiles i ≠ none ∨
      ∃ doc, findById id w.playerdata = some doc ∧ LoadsMap defs doc i := by
  rcases dbPlayerGetPlayer_eq_ok hcache h with ⟨hnone, -, rfl⟩ | ⟨doc, hdoc, -, hloop⟩
  · rw [or_iff_left]
    rintro ⟨doc, hdoc, -⟩
    exact absurd (hdoc.symm.trans hnone) (Option.some_ne_none doc)
  · rw [forEach_readField_tiles hloop]
    refine or_congr_right ⟨fun hload => ⟨doc, hdoc, hload⟩, ?_⟩
    rintro ⟨doc', hdoc', hload⟩
    obtain rfl := Option.some.inj (hdoc.symm.trans hdoc')
    exact hload

/-! ## Requests -/

/-- A request to inspect the player with the id `id`. -/
def InspectFor (w : World) (a : Request) (id : CString) : Prop :=
  ∃ s packet session, a = .packet s packet ∧ w.sessions.get s = some session ∧
    session.state = .roaming ∧ packet.opcode = inspectPlayerPacket ∧ inspectedId packet = id

/-- A request to move the player `q`. -/
def MoveFor (w : World) (a : Request) (q : ℕ) (x y : ℤ) : Prop :=
  ∃ s packet session, a = .packet s packet ∧ w.sessions.get s = some session ∧
    session.state = .roaming ∧ packet.opcode = movePacket ∧ session.player = some q ∧
    intAt packet.data 0 = some x ∧ intAt packet.data 4 = some y

/-- The request leaves no map behind that nobody is on: a player that is inspected has a map
that somebody is on, and a player that moves through portals leaves somebody on every map it
does not come to. -/
structure Spares (defs : MapDefs) (w : World) (a : Request) : Prop where
  inspect : ∀ id doc i, InspectFor w a id → findById id w.playerdata = some doc →
    LoadsMap defs doc i → ∃ q, StandsOn w q i
  move : ∀ q x y player m map i base fuel j, MoveFor w a q x y → Goes w q x y player m map →
    w.tiles i = some m → defs.loaders[i]? = some base →
    eventsJourney (spawnJourney defs fuel) x y base ⟨⟨i, x, y⟩, []⟩ = some j →
    ∀ i' ∈ i :: j.visited, i' ≠ j.place.map → ∃ q' ≠ q, StandsOn w q' i'

section Requests

variable {s fuel : ℕ} {packet : Packet} {session : Session} {x y : ℤ} {map : Map} {w₁ w₂ : World}

theorem InspectFor.of_packet (h : InspectFor w (.packet s packet) id)
    (hs : w.sessions.get s = some session) :
    session.state = .roaming ∧ packet.opcode = inspectPlayerPacket ∧ inspectedId packet = id := by
  obtain ⟨_, _, session', ha, hs', hrest⟩ := h
  obtain ⟨rfl, rfl⟩ := Request.packet.inj ha
  obtain rfl := Option.some.inj (hs.symm.trans hs')
  exact hrest

theorem MoveFor.of_packet (h : MoveFor w (.packet s packet) q x y)
    (hs : w.sessions.get s = some session) :
    session.state = .roaming ∧ packet.opcode = movePacket ∧ session.player = some q ∧
      intAt packet.data 0 = some x ∧ intAt packet.data 4 = some y := by
  obtain ⟨_, _, session', ha, hs', hrest⟩ := h
  obtain ⟨rfl, rfl⟩ := Request.packet.inj ha
  obtain rfl := Option.some.inj (hs.symm.trans hs')
  exact hrest

/-- A request that is neither of the two loads no map that nobody comes to. -/
theorem spares_of_not (hinspect : ∀ id, ¬InspectFor w a id)
    (hmove : ∀ q x y, ¬MoveFor w a q x y) : Spares defs w a :=
  ⟨fun id _ _ h => absurd h (hinspect id), fun q x y _ _ _ _ _ _ _ h => absurd h (hmove q x y)⟩

/-- What is written does not matter. -/
theorem spares_emit (l : List (ℕ × Sent)) : Spares defs (w.emit l) a ↔ Spares defs w a := by
  have hgoes : ∀ q x y player m map,
      Goes (w.emit l) q x y player m map ↔ Goes w q x y player m map := fun _ _ _ _ _ _ =>
    ⟨fun h => ⟨h.player_eq, h.map_eq, h.get_eq, h.near, h.bounds, h.walkable, h.on_map⟩,
      fun h => ⟨h.player_eq, h.map_eq, h.get_eq, h.near, h.bounds, h.walkable, h.on_map⟩⟩
  constructor
  · intro h
    exact ⟨h.inspect, fun q x y player m map i base fuel j hfor hg =>
      h.move q x y player m map i base fuel j hfor ((hgoes q x y player m map).mpr hg)⟩
  · intro h
    exact ⟨h.inspect, fun q x y player m map i base fuel j hfor hg =>
      h.move q x y player m map i base fuel j hfor ((hgoes q x y player m map).mp hg)⟩

/-- Nothing is loaded, and everybody stays. -/
theorem EmptyUnloaded.kept (hempty : EmptyUnloaded w) (hkept : Kept defs w v)
    (htiles : ∀ i, v.tiles i ≠ none → w.tiles i ≠ none)
    (hroams : ∀ s q, w.scene.RoamsWith s q → v.scene.RoamsWith s q)
    (hplayers : v.players = w.players) : EmptyUnloaded v := by
  rw [emptyUnloaded_iff_exists] at hempty ⊢
  intro i hi
  obtain ⟨q, hq⟩ := hempty i (htiles i hi)
  obtain ⟨s, hs⟩ := hq.1
  exact ⟨q, hq.kept hkept ⟨s, hroams s q hs⟩ (by rw [hplayers])⟩

/-- A spawn that runs no events leads to its map. -/
theorem spawnJourney_suppressed {j' : Journey} (hi : i < defs.count)
    (h : spawnJourney defs fuel j i x y 1 = some j') :
    j'.place.map = i ∧ j'.visited = i :: j.visited := by
  cases fuel with
  | zero => exact absurd h.symm (Option.some_ne_none j')
  | succ fuel =>
    have h' : spawnJourneyWith defs (spawnJourney defs fuel) j i x y 1 = some j' := h
    rw [spawnJourneyWith, if_neg (by omega)] at h'
    simp only [Option.bind_eq_some_iff, enterJourney, Int.toNat_natCast] at h'
    obtain ⟨base, -, old, -, h'⟩ := h'
    split at h'
    · obtain rfl := Option.some.inj h'
      exact ⟨rfl, rfl⟩
    · obtain rfl := Option.some.inj h'
      exact ⟨rfl, rfl⟩

/-- **A login** loads the map the player comes to, and no other. -/
theorem Member.emptyUnloaded_login {n : ℤ} (h : Member defs w) (hempty : EmptyUnloaded w)
    (hs : w.sessions.get s = some session) (hstate : session.state = .disabled)
    (hget : dbPlayerGetPlayer defs id w = .ok (some w.players.next, v))
    (hreads : Reads defs w w.players.next player v) (htiles : w₁.tiles = v.tiles)
    (henters : Enters defs w s session id player m map w₁)
    (hspawn : mapSpawnPlayer defs fuel map.id w.players.next player.x player.y 1 w₁
      = .ok (n, w₂))
    (hstay : ∀ s q, w.scene.RoamsWith s q → w₂.scene.RoamsWith s q) : EmptyUnloaded w₂ := by
  have hsound := henters.kept.sound h.sound
  obtain ⟨i, hi, htile⟩ := hsound.map m map henters.get_eq
  rw [hi] at hspawn
  obtain ⟨hroams, -, -⟩ := h.boarding hs hstate henters
  have hstart := h.travelled_enters hs hstate henters htile
  obtain ⟨-, j', hj', hend⟩ := Travelled.spawn hsound fuel i _ _ 1 _ _ _ _ hstart hspawn
  obtain ⟨hplace, hvisited⟩ := spawnJourney_suppressed (hsound.lt_count htile) hj'
  rw [emptyUnloaded_iff_exists] at hempty ⊢
  intro i' hi'
  have hhere : StandsOn w₂ w.players.next i := by
    obtain ⟨player', m', hp', hm', htile', -⟩ := hend.placed
    rw [hplace] at htile'
    refine ⟨⟨s, ?_⟩, player', m', hp', hm', htile'⟩
    unfold RoamsWith
    rw [hend.way.moves.session]
    exact hroams
  have hcases : i' = i ∨ w.tiles i' ≠ none := by
    rcases (hend.tiles i').mp hi' with hold | hnew
    · rw [htiles, dbPlayerGetPlayer_tiles h.sound.cache hget] at hold
      rcases hold with hold | ⟨doc, hdoc, ⟨key, value⟩, hfield, rfl, hvalue, hcount⟩
      · exact Or.inr hold
      · rcases dbPlayerGetPlayer_eq_ok h.sound.cache hget with ⟨hnone, -⟩ |
          ⟨doc', hdoc', -, hloop⟩
        · exact absurd (hdoc.symm.trans hnone) (Option.some_ne_none doc)
        · obtain rfl := Option.some.inj (hdoc.symm.trans hdoc')
          obtain ⟨new, m', hnew, hm', htile'⟩ :=
            (reads_alloc w).forEach_map hfield hvalue hcount hloop
          obtain rfl := Option.some.inj (hreads.get_eq.symm.trans hnew.get_eq)
          obtain rfl := Option.some.inj (hm'.symm.trans henters.map_eq)
          exact Or.inl (hsound.tile_inj (htiles ▸ htile') htile)
    · rw [hvisited] at hnew
      exact Or.inl (List.mem_singleton.mp hnew)
  rcases hcases with rfl | hold
  · exact ⟨_, hhere⟩
  · obtain ⟨q, hq⟩ := hempty i' hold
    obtain ⟨s', hs'⟩ := hq.1
    -- who was there is not the new player
    obtain ⟨other, _, _, hlisted, -⟩ := h.membership.present hs'
    have hqp : q ≠ w.players.next := Heap.ne_next (h := w.players) hlisted.player_eq
    have hplayer : w₂.players.get q = w.players.get q := by
      have hscene := congrFun (congrArg Scene.player henters.scene_eq) q
      exact ((hend.way.moves.player q hqp).trans hscene).trans (Function.update_of_ne hqp _ _)
    exact ⟨q, hq.kept (henters.kept.trans hend.kept) ⟨s', hstay s' q hs'⟩ hplayer⟩

/-- **A move** leaves no empty map behind if and only if it spares them. -/
theorem Member.emptyUnloaded_move {moved : Bool} (h : Member defs w) (hempty : EmptyUnloaded w)
    (hs : w.sessions.get s = some session) (hstate : session.state = .roaming)
    (hop : packet.opcode = movePacket) (hq : session.player = some q)
    (hx : intAt packet.data 0 = some x) (hy : intAt packet.data 4 = some y)
    (hmove : playerMove defs fuel q x y .zero w = .ok (moved, v)) :
    EmptyUnloaded v ↔ Spares defs w (.packet s packet) := by
  have hroams : w.scene.RoamsWith s q := ⟨session, hs, hstate, hq⟩
  obtain ⟨i, hstands⟩ := h.standsOn hroams
  obtain ⟨-, player, m, hp, hm, htile⟩ := id hstands
  obtain ⟨k, hstart⟩ := Travelled.start h hroams hs hp hm htile
  obtain ⟨_, base, -, hbase, -⟩ := h.sound.tile i m htile
  have hinspect : ∀ id, ¬InspectFor w (.packet s packet) id := fun id hid =>
    absurd (hop.symm.trans (hid.of_packet hs).2.1) (by decide)
  have hfor : ∀ q' x' y', MoveFor w (.packet s packet) q' x' y' → q' = q ∧ x' = x ∧ y' = y := by
    intro q' x' y' hmove'
    obtain ⟨-, -, hq', hx', hy'⟩ := hmove'.of_packet hs
    exact ⟨Option.some.inj (hq'.symm.trans hq), Option.some.inj (hx'.symm.trans hx),
      Option.some.inj (hy'.symm.trans hy)⟩
  rcases hstart.walk h.sound hbase hmove with ⟨hnot, hv⟩ | ⟨⟨player', m', map, hgoes⟩, j', hj', hv⟩
  · refine iff_of_true ((hv.emptyUnloaded_after h hempty hroams hstands).mpr ?_)
      ⟨fun id _ _ hid => absurd hid (hinspect id),
        fun q' x' y' player' m' map' _ _ _ _ hmove' hgoes => ?_⟩
    · intro i' hi' hne
      exact absurd (List.mem_singleton.mp hi') hne
    · obtain ⟨rfl, rfl, rfl⟩ := hfor q' x' y' hmove'
      exact absurd ⟨player', m', map', hgoes⟩ hnot
  · rw [hv.emptyUnloaded_after h hempty hroams hstands]
    constructor
    · intro hleft
      refine ⟨fun id _ _ hid => absurd hid (hinspect id), ?_⟩
      intro q' x' y' player₁ m₁ map₁ i₁ base₁ fuel₁ j₁ hmove' hgoes' htile₁ hbase₁ hj₁
      obtain ⟨rfl, rfl, rfl⟩ := hfor q' x' y' hmove'
      obtain rfl := Option.some.inj (hp.symm.trans hgoes'.player_eq)
      obtain rfl := Option.some.inj (hm.symm.trans hgoes'.map_eq)
      obtain rfl := h.sound.tile_inj htile htile₁
      obtain rfl := Option.some.inj (hbase.symm.trans hbase₁)
      obtain rfl := eventsJourney_inj hj' hj₁
      exact hleft
    · intro hspares
      obtain rfl := Option.some.inj (hp.symm.trans hgoes.player_eq)
      obtain rfl := Option.some.inj (hm.symm.trans hgoes.map_eq)
      exact hspares.move q x y player m map i base fuel j'
        ⟨s, packet, session, rfl, hs, hstate, hop, hq, hx, hy⟩ hgoes htile hbase hj'

/-- **An inspect request**, likewise. -/
theorem Member.emptyUnloaded_inspect {r : Option ℕ} (h : Member defs w)
    (hempty : EmptyUnloaded w) (hs : w.sessions.get s = some session)
    (hstate : session.state = .roaming) (hop : packet.opcode = inspectPlayerPacket)
    (hget : dbPlayerGetPlayer defs (inspectedId packet) w = .ok (r, v)) :
    EmptyUnloaded v ↔ Spares defs w (.packet s packet) := by
  have hsame : Kept defs w v ∧ ∀ s q, w.scene.RoamsWith s q →
      v.scene.RoamsWith s q ∧ v.players.get q = w.players.get q := by
    rcases dbPlayerGetPlayer_reads h.sound.cache hget with rfl | ⟨player, hreads⟩
    · exact ⟨Kept.refl v, fun _ _ hroams => ⟨hroams, rfl⟩⟩
    · refine ⟨hreads.kept, fun s q hroams => ⟨?_, ?_⟩⟩
      · rw [hreads.scene_eq]
        exact hroams
      · obtain ⟨other, _, _, hlisted, -⟩ := h.membership.present hroams
        have hqp : q ≠ w.players.next := Heap.ne_next (h := w.players) hlisted.player_eq
        have hscene := congrFun (congrArg Scene.player hreads.scene_eq) q
        exact hscene.trans (Function.update_of_ne hqp _ _)
  obtain ⟨hkept, hsame⟩ := hsame
  have hback : ∀ s q, v.scene.RoamsWith s q → w.scene.RoamsWith s q := by
    rcases dbPlayerGetPlayer_reads h.sound.cache hget with rfl | ⟨player, hreads⟩
    · exact fun _ _ hroams => hroams
    · intro s q hroams
      rw [hreads.scene_eq] at hroams
      exact hroams
  have hstands : ∀ q i, StandsOn v q i ↔ StandsOn w q i := by
    refine fun q i => ⟨fun hv => ?_, fun hw => ?_⟩
    · obtain ⟨s, hs⟩ := hv.1
      exact hv.of_kept h hkept (hback s q hs) (hsame s q (hback s q hs)).2
    · obtain ⟨s, hs⟩ := hw.1
      exact hw.kept hkept ⟨s, (hsame s q hs).1⟩ (hsame s q hs).2
  rw [emptyUnloaded_iff_exists] at hempty ⊢
  simp only [dbPlayerGetPlayer_tiles h.sound.cache hget, hstands]
  constructor
  · intro hv
    refine ⟨fun id doc i hid hdoc hload => ?_, fun q x y _ _ _ _ _ _ _ hmove => ?_⟩
    · obtain ⟨-, -, rfl⟩ := hid.of_packet hs
      exact hv i (Or.inr ⟨doc, hdoc, hload⟩)
    · exact absurd (hop.symm.trans (hmove.of_packet hs).2.1) (by decide)
  · rintro hspares i (hold | ⟨doc, hdoc, hload⟩)
    · exact hempty i hold
    · exact hspares.inspect _ doc i ⟨s, packet, session, rfl, hs, hstate, hop, rfl⟩ hdoc hload

/-- **One request.** -/
theorem Member.emptyUnloaded_step (h : Member defs w) (hempty : EmptyUnloaded w)
    (hstep : Step defs w a w') : EmptyUnloaded w' ↔ Spares defs w a := by
  have hstay : ∀ s q, w.scene.RoamsWith s q → w'.scene.RoamsWith s q := by
    intro s q hroams
    obtain ⟨k, hholds⟩ := h.membership.holds hroams
    exact ((h.step hstep).2.holds hholds).1
  have hsame : Kept defs w w' → w'.tiles = w.tiles → w'.players = w.players → EmptyUnloaded w' :=
    fun hkept htiles hplayers => hempty.kept hkept (fun i hi => htiles ▸ hi) hstay hplayers
  cases hstep.turn h.sound.cache with
  | connect =>
    refine iff_of_true (hsame (Kept.newSession _) rfl rfl) (spares_of_not ?_ ?_)
    · rintro id ⟨_, _, _, ha, -⟩
      exact Request.noConfusion ha
    · rintro q x y ⟨_, _, _, ha, -⟩
      exact Request.noConfusion ha
  | token t =>
    refine iff_of_true (hsame (Kept.setTable t) rfl rfl) (spares_of_not ?_ ?_)
    · rintro id ⟨_, _, _, ha, -⟩
      exact Request.noConfusion ha
    · rintro q x y ⟨_, _, _, ha, -⟩
      exact Request.noConfusion ha
  | badState l hs hverify =>
    refine iff_of_true (hsame (Kept.emit l) rfl rfl) (spares_of_not ?_ ?_)
    · intro id hid
      obtain ⟨hstate, hop, -⟩ := hid.of_packet hs
      rw [sessionVerifyPacket, hstate, hop] at hverify
      exact absurd hverify (by decide)
    · intro q x y hmove
      obtain ⟨hstate, hop, -⟩ := hmove.of_packet hs
      rw [sessionVerifyPacket, hstate, hop] at hverify
      exact absurd hverify (by decide)
  | @login _ _ _ _ _ v l l' hs hstate hop hends =>
    refine iff_of_true ?_ (spares_of_not ?_ ?_)
    · cases hends with
      | unknown => exact hsame (Kept.of_eq rfl rfl rfl rfl) rfl rfl
      | noRecord => exact hsame (Kept.of_eq rfl rfl rfl rfl) rfl rfl
      | spawned _ _ hget hreads htiles henters hspawn =>
        have hlogin := (h.emit l).emptyUnloaded_login hempty hs hstate hget hreads htiles henters
          hspawn hstay
        exact hlogin
    · intro id hid
      exact absurd ((hid.of_packet hs).1.symm.trans hstate) (by decide)
    · intro q x y hmove
      exact absurd ((hmove.of_packet hs).1.symm.trans hstate) (by decide)
  | @move _ _ _ _ _ _ _ _ _ l l' hs hstate hq hop hx hy hmove =>
    have hmoved := (h.emit l).emptyUnloaded_move hempty hs hstate hop hq hx hy hmove
    exact hmoved.trans (spares_emit l)
  | @inspect _ _ _ _ _ l l' hs hstate hop hget =>
    have hinspected := (h.emit l).emptyUnloaded_inspect hempty hs hstate hop hget
    exact hinspected.trans (spares_emit l)

end Requests

/-! ## Runs -/

theorem emptyUnloaded_boot (playerdata : List Document) : EmptyUnloaded (boot playerdata) :=
  fun _ _ => rfl

/-- **Empty maps are unloaded** in every state of a run if and only if every request of it
spares them. -/
theorem emptyUnloaded_iff {playerdata : List Document} {l : List (Request × World)}
    (h : Trace (Step defs) (boot playerdata) l w) :
    (∀ e ∈ l, EmptyUnloaded e.2) ↔
      Trace (Guarded (Step defs) (Spares defs)) (boot playerdata) l w :=
  h.forall_iff_guarded (I := Member defs) (fun _ _ _ ht hstep => (ht.step hstep).1)
    (fun _ _ _ ht hempty hstep => ht.emptyUnloaded_step hempty hstep) (member_boot playerdata)
    (emptyUnloaded_boot playerdata)

/-! ## A player that leaves a map -/

/-- A record next to the portal of the first map of the repository. -/
def doorRecord : Document where
  fields := [("id", .utf8 [97]), ("map", .int32 0), ("x", .int32 30), ("y", .int32 5),
    ("max_move", .int32 1)]
  nodup := by decide

/-- A move into the portal. -/
def doorMove : Packet where
  opcode := movePacket
  id := 8
  length := 8
  data := [31, 0, 0, 0, 5, 0, 0, 0]
  length_le := by decide

/-- The player logs in and goes through the portal.  Nobody else is there. -/
theorem trace_door : ∃ l w player, Trace (Step mapLoaders) (boot [doorRecord]) l w ∧
    (∃ e ∈ l, e.2 = w) ∧ w.tiles 0 = some 0 ∧ w.sessions.next = 1 ∧
    w.sessions.get 0 = some ⟨3, .roaming, some 0⟩ ∧ w.players.get 0 = some player ∧
    player.map = some 1 := by
  have hconnect : Step mapLoaders (boot [doorRecord]) (.connect 3)
      { afterConnect with playerdata := [doorRecord] } :=
    .connect (fun _ _ h => absurd h.symm (Option.some_ne_none _)) (s := 0) rfl
  have htoken : Step mapLoaders { afterConnect with playerdata := [doorRecord] }
      (.token [49] [97] 0) { afterToken with playerdata := [doorRecord] } :=
    .token (show onTable _ _ = .ok (true, _) from rfl)
  have hview : Exec.endView
      (fun w => (w.tiles 0, w.sessions.next, w.sessions.get 0, w.players.get 0))
      (do eventLoop mapLoaders 1 0 (some firstLogin)
          eventLoop mapLoaders 1 0 (some doorMove))
      { afterToken with playerdata := [doorRecord] }
        = some (some 0, 1, some ⟨3, .roaming, some 0⟩,
            some ⟨0, 5, 0, 1, 2, some 1, some 0, none, some [97]⟩) := by
    decide +kernel
  obtain ⟨_, w, hloops, hview⟩ := Exec.endView_eq_some.mp hview
  obtain ⟨htile, hnext, hs, hp⟩ := by simpa only [Prod.mk.injEq] using hview
  obtain ⟨_, v, hlogin, hmove⟩ := Exec.bind_eq_ok.mp hloops
  refine ⟨_, w, _, ((Trace.nil.snoc hconnect).snoc htoken).snoc (Step.packet hlogin) |>.snoc
    (Step.packet hmove), ⟨_, List.mem_append_right _ List.mem_cons_self, rfl⟩, htile, hnext, hs, hp,
    rfl⟩

/-- The map that was left is still in memory. -/
theorem not_emptyUnloaded_door : ∃ l w, Trace (Step mapLoaders) (boot [doorRecord]) l w ∧
    ¬∀ e ∈ l, EmptyUnloaded e.2 := by
  obtain ⟨l, w, player, hrun, ⟨e, he, rfl⟩, htile, hnext, hs, hp, hm⟩ := trace_door
  refine ⟨l, e.2, hrun, fun hempty => ?_⟩
  have hnobody : ∀ q, ¬StandsOn e.2 q 0 := by
    rintro q ⟨⟨s, session, hsession, -, hq⟩, player', m, hp', hm', htile'⟩
    have hs₀ : s = 0 := by
      by_contra hne
      have hnone := e.2.sessions.fresh s (by omega)
      exact Option.some_ne_none session (hsession.symm.trans hnone)
    subst hs₀
    obtain rfl := Option.some.inj (hs.symm.trans hsession)
    obtain rfl := Option.some.inj hq
    obtain rfl := Option.some.inj (hp.symm.trans hp')
    obtain rfl := Option.some.inj (hm'.symm.trans hm)
    exact absurd (htile.symm.trans htile') (by decide)
  exact Option.some_ne_none 0 (htile.symm.trans (hempty e he 0 hnobody))

/-- What the theorem says about this run. -/
theorem emptyUnloaded_iff_door : ∃ l w, Trace (Step mapLoaders) (boot [doorRecord]) l w ∧
    ((∀ e ∈ l, EmptyUnloaded e.2) ↔
      Trace (Guarded (Step mapLoaders) (Spares mapLoaders)) (boot [doorRecord]) l w) := by
  obtain ⟨l, w, _, hrun, -⟩ := trace_door
  exact ⟨l, w, hrun, emptyUnloaded_iff hrun⟩

end World
end MmoBackend
