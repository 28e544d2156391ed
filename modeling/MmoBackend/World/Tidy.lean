import MmoBackend.Communication.ServerWire
import MmoBackend.Library.Trace
import MmoBackend.World.Server

/-!
# Everything that is sent fits its frame

What the server writes into a packet it has read from a record, from a map or from a move
request.  If these hold numbers of 32 bits and nothing that is too long, then so does every
player and every map in memory, and every packet that was ever written fits the frame it
was written in.

This is one invariant, `Tidy`, and every function keeps it.  It is proved by going over the
text with `Keeps`: what is read from a tidy state is tidy, and may be sent and written back.
-/

namespace MmoBackend

open Authentication Bytes Communication Db Exec Maps Player

namespace World

/-! ## The invariant -/

/-- The string leaves room for the rest of its packet. -/
def Short (s : CString) : Prop := s.length ≤ 32000

/-- The strings of the record are short, and its numbers have 32 bits. -/
structure TidyRecord (doc : Document) : Prop where
  short : ∀ field ∈ doc.fields, ∀ s, field.2 = .utf8 s → Short s
  ints : ∀ field ∈ doc.fields, ∀ n, field.2 = .int32 n → IsInt32 n

/-- The map fits into a packet, and its events lead to coordinates of 32 bits. -/
structure TidyMap (map : Map) : Prop where
  packet : (ServerPacket.map map.width map.height map.decor).Fits
  events : ∀ e ∈ map.events, ∀ n ∈ e.staticArgs, IsInt32 n

/-- The strings of the player are short, it is somewhere, and it has not been modified. -/
structure TidyPlayer (player : Player) : Prop where
  x : IsInt32 player.x
  y : IsInt32 player.y
  modified : player.modified = 0
  name : ∀ s, player.name = some s → Short s
  id : ∀ s, player.id = some s → Short s

/-- What was written fits its frame. -/
def Sent.Fits : Sent → Prop
  | .packet p => p.Fits
  | .close code => code < 2 ^ 16

/-- Everything that can be sent fits its frame, and so does what was sent. -/
structure Tidy (w : World) : Prop where
  maps : ∀ m map, w.maps.get m = some map → TidyMap map
  players : ∀ p player, w.players.get p = some player → TidyPlayer player
  records : ∀ doc ∈ w.playerdata, TidyRecord doc
  out : ∀ e ∈ w.out, e.2.Fits

theorem tidy_boot {playerdata : List Document} (h : ∀ doc ∈ playerdata, TidyRecord doc) :
    Tidy (boot playerdata) where
  maps _ _ hget := absurd hget.symm (Option.some_ne_none _)
  players _ _ hget := absurd hget.symm (Option.some_ne_none _)
  records := h
  out _ he := absurd he List.not_mem_nil

/-! ## Packets of tidy things -/

theorem fits_updatePosition {id : CString} {x y : ℤ} (hid : Short id) (hx : IsInt32 x)
    (hy : IsInt32 y) : (ServerPacket.updatePosition id x y).Fits where
  size := by
    have hlen : id.length ≤ 32000 := hid
    simp only [ServerPacket.toPacket, packetCreate, List.length_append, length_intBytes,
      packetSize]
    omega
  ints := by simp [ServerPacket.ints, hx, hy]

theorem fits_player {code : BitVec 32} {name : CString} {x y : ℤ} (hname : Short name)
    (hx : IsInt32 x) (hy : IsInt32 y) : (ServerPacket.player code name x y).Fits where
  size := by
    have hlen : name.length ≤ 32000 := hname
    simp only [ServerPacket.toPacket, packetCreate, List.length_append, length_intBytes,
      packetSize, List.length_singleton]
    omega
  ints := by simp [ServerPacket.ints, hx, hy]

theorem fits_leavingMap {id : CString} (hid : Short id) : (ServerPacket.leavingMap id).Fits where
  size := by
    have hlen : id.length ≤ 32000 := hid
    simp only [ServerPacket.toPacket, packetCreate, packetSize]
    omega
  ints := by simp [ServerPacket.ints]

/-- The packets without a body. -/
theorem fits_of_nil {packet : ServerPacket} (hdata : packet.toPacket.data = [])
    (hints : packet.ints = []) : packet.Fits :=
  ⟨by rw [hdata]; decide, by rw [hints]; simp⟩

theorem fits_error {code : ℤ} {packet : ServerPacket} (h : packetTemplateError code = some packet) :
    packet.Fits := by
  simp only [packetTemplateError, Option.ite_none_left_eq_some, Option.map_eq_some_iff] at h
  obtain ⟨-, msg, hmsg, rfl⟩ := h
  have hlen : ∀ msg ∈ errorStrings, packetSize + msg.length < 32767 := by
    decide +kernel
  exact ⟨hlen msg (List.mem_of_getElem? hmsg), by simp [ServerPacket.ints]⟩

/-! ## Memory -/

section Memory

variable {w : World} {m p s : ℕ} {map : Map} {player : Player}

theorem Tidy.setMap (h : Tidy w) (hmap : TidyMap map) : Tidy (w.setMap m map) where
  maps k map' hk := by
    rw [maps_setMap, Heap.get_set] at hk
    split at hk
    · obtain ⟨_, -, rfl⟩ := Option.map_eq_some_iff.mp hk
      exact hmap
    · exact h.maps k map' hk
  players := h.players
  records := h.records
  out := h.out

theorem Tidy.setPlayer (h : Tidy w) (hp : TidyPlayer player) : Tidy (w.setPlayer p player) where
  maps := h.maps
  players k player' hk := by
    rw [players_setPlayer, Heap.get_set] at hk
    split at hk
    · obtain ⟨_, -, rfl⟩ := Option.map_eq_some_iff.mp hk
      exact hp
    · exact h.players k player' hk
  records := h.records
  out := h.out

theorem Tidy.write (h : Tidy w) {fd : ℕ} {sent : Sent} (hsent : sent.Fits) :
    Tidy (w.write fd sent) where
  maps := h.maps
  players := h.players
  records := h.records
  out e he := by
    rcases List.mem_append.mp he with he | he
    · exact h.out e he
    · obtain rfl := List.mem_singleton.mp he
      exact hsent

/-- What neither maps nor players nor records nor the sockets see. -/
theorem Tidy.congr {w' : World} (h : Tidy w) (hmaps : w'.maps = w.maps)
    (hplayers : w'.players = w.players) (hdata : w'.playerdata = w.playerdata)
    (hout : w'.out = w.out) : Tidy w' :=
  ⟨hmaps ▸ h.maps, hplayers ▸ h.players, hdata ▸ h.records, hout ▸ h.out⟩

theorem tidy_derefMap (m : ℕ) : Keeps Tidy TidyMap (derefMap m) := by
  intro w map w' hw h
  obtain ⟨hm, rfl⟩ := derefMap_eq_ok.mp h
  exact ⟨hw, hw.maps m map hm⟩

theorem tidy_derefPlayer (p : ℕ) : Keeps Tidy TidyPlayer (derefPlayer p) := by
  intro w player w' hw h
  obtain ⟨hp, rfl⟩ := derefPlayer_eq_ok.mp h
  exact ⟨hw, hw.players p player hp⟩

theorem tidy_derefSession (s : ℕ) : Keeps Tidy (fun _ => True) (derefSession s) := by
  intro w session w' hw h
  obtain ⟨-, rfl⟩ := derefSession_eq_ok.mp h
  exact ⟨hw, trivial⟩

theorem tidy_setMap (m : ℕ) (hmap : TidyMap map) :
    Keeps Tidy (fun _ => True) (Exec.modify (World.setMap m map)) :=
  keeps_modify (fun _ hw => hw.setMap hmap) trivial

theorem tidy_updateMap (m : ℕ) {f : Map → Map} (hf : ∀ map, TidyMap map → TidyMap (f map)) :
    Keeps Tidy (fun _ => True) (updateMap m f) :=
  keeps_bind (tidy_derefMap m) fun map hmap => tidy_setMap m (hf map hmap)

theorem tidy_updatePlayer (p : ℕ) {f : Player → Player}
    (hf : ∀ player, TidyPlayer player → TidyPlayer (f player)) :
    Keeps Tidy (fun _ => True) (updatePlayer p f) :=
  keeps_bind (tidy_derefPlayer p) fun player hp =>
    keeps_modify (fun _ hw => hw.setPlayer (hf player hp)) trivial

/-- The references of a player. -/
theorem tidy_refs (p : ℕ) (n : ℤ → ℤ) :
    Keeps Tidy (fun _ => True)
      (updatePlayer p fun player => { player with refs := n player.refs }) :=
  tidy_updatePlayer p fun _ h => ⟨h.x, h.y, h.modified, h.name, h.id⟩

/-- What is not about maps, players, records and sockets. -/
theorem tidy_aside {f : World → World} (hmaps : ∀ w, (f w).maps = w.maps)
    (hplayers : ∀ w, (f w).players = w.players) (hdata : ∀ w, (f w).playerdata = w.playerdata)
    (hout : ∀ w, (f w).out = w.out) : Keeps Tidy (fun _ => True) (Exec.modify f) :=
  keeps_modify (fun w hw => hw.congr (hmaps w) (hplayers w) (hdata w) (hout w)) trivial

theorem tidy_lock (l : Lock) : Keeps Tidy (fun _ => True) (lock l) :=
  keeps_get_bind fun _ _ => keeps_ite (fun _ => keeps_stop _) fun _ =>
    tidy_aside (fun _ => rfl) (fun _ => rfl) (fun _ => rfl) fun _ => rfl

theorem tidy_unlock (l : Lock) : Keeps Tidy (fun _ => True) (unlock l) :=
  tidy_aside (fun _ => rfl) (fun _ => rfl) (fun _ => rfl) fun _ => rfl

theorem tidy_packetWrite (fd : ℕ) {packet : ServerPacket} (hpacket : packet.Fits) :
    Keeps Tidy (fun _ => True) (packetWrite fd packet) :=
  keeps_modify (fun _ hw => hw.write hpacket) trivial

theorem tidy_writeSession (s : ℕ) {packet : ServerPacket} (hpacket : packet.Fits) :
    Keeps Tidy (fun _ => True)
      (derefSession s >>= fun session => packetWrite session.fd packet) :=
  keeps_bind (tidy_derefSession s) fun _ _ => tidy_packetWrite _ hpacket

end Memory

/-! ## Loading and freeing -/

/-- The maps of the loaders are tidy. -/
def TidyDefs (defs : MapDefs) : Prop := ∀ base ∈ defs.loaders, TidyMap base

variable {defs : MapDefs}

theorem tidy_mapLoad (hdefs : TidyDefs defs) (id : ℤ) :
    Keeps Tidy (fun _ => True) (mapLoad defs id) := by
  have htile : ∀ i map, defs.loaders[id.toNat]? = some map →
      Keeps Tidy (fun _ => True) (ensureTile i map) := by
    refine fun i map hmap => keeps_get_bind fun w _ => ?_
    cases w.tiles i with
    | some m => exact keeps_pure trivial
    | none =>
      refine keeps_bind (P := fun _ => True) (keeps_modify (fun v hv => ?_) trivial)
        fun _ _ => keeps_pure trivial
      refine ⟨fun k map' hk => ?_, hv.players, hv.records, hv.out⟩
      rcases Heap.get_alloc_eq_some hk with ⟨-, rfl⟩ | ⟨-, hold⟩
      · exact hdefs _ (List.mem_of_getElem? hmap)
      · exact hv.maps k map' hold
  exact keeps_ite (fun _ => keeps_pure trivial) fun _ => keeps_bind (keeps_need fun _ h => h)
    fun map hmap => keeps_bind (tidy_lock _) fun _ _ => keeps_bind (htile _ map hmap)
      fun m _ => keeps_bind (tidy_updateMap m fun _ h => ⟨h.packet, h.events⟩) fun _ _ =>
        keeps_bind (tidy_unlock _) fun _ _ => keeps_get_bind fun _ _ => keeps_pure trivial

/-- What is freed is gone, and the rest is as it was. -/
theorem get_of_free {α : Type} {h : Heap α} {a b : ℕ} {v : α} (hv : (h.free a).get b = some v) :
    h.get b = some v := by
  by_cases hba : b = a
  · subst hba
    rw [Heap.get_free_self] at hv
    exact absurd hv.symm (Option.some_ne_none v)
  · rwa [Heap.get_free_of_ne h hba] at hv

section Free

variable {free : ℕ → Exec World Unit} (hfree : ∀ p, Keeps Tidy (fun _ => True) (free p))

include hfree

theorem tidy_mapUnloadWith (id : ℤ) : Keeps Tidy (fun _ => True) (mapUnloadWith defs free id) := by
  have hmap : ∀ m, Keeps Tidy (fun _ => True) (mapFree free m) := fun m =>
    keeps_bind (tidy_derefMap m) fun _ _ => keeps_bind (keeps_forEach fun p _ => hfree p)
      fun _ _ => keeps_modify (fun _ hw => ⟨fun k map hk => hw.maps k map (get_of_free hk),
        hw.players, hw.records, hw.out⟩) trivial
  have hunref : ∀ i m, Keeps Tidy (fun _ => True) (unrefTile free i m) := fun i m =>
    keeps_bind (tidy_derefMap m) fun _ h => keeps_bind (tidy_setMap m ⟨h.packet, h.events⟩)
      fun _ _ => keeps_ite (fun _ => keeps_bind (hmap m) fun _ _ =>
        tidy_aside (fun _ => rfl) (fun _ => rfl) (fun _ => rfl) fun _ => rfl)
          fun _ => keeps_pure trivial
  refine keeps_ite (fun _ => keeps_pure trivial) fun _ =>
    keeps_bind (P := fun _ => True) (keeps_need fun _ _ => trivial) fun _ _ =>
      keeps_get_bind fun w _ => ?_
  cases w.tiles id.toNat with
  | none => exact keeps_pure trivial
  | some m =>
    exact keeps_bind (tidy_lock _) fun _ _ => keeps_bind (hunref _ m) fun _ _ => tidy_unlock _

theorem tidy_releasePlayer (p : ℕ) : Keeps Tidy (fun _ => True) (releasePlayer defs free p) := by
  -- a player that was not modified is not written to the database
  have hwrite : Keeps Tidy (fun _ => True) (writeModified p) :=
    keeps_bind (tidy_derefPlayer p) fun player hp => keeps_ite (fun _ => keeps_pure trivial)
      fun hmodified => absurd hp.modified hmodified
  have hunload : Keeps Tidy (fun _ => True) (unloadPlayerMap defs free p) := by
    refine keeps_bind (tidy_derefPlayer p) fun player _ => ?_
    cases player.map with
    | none => exact keeps_pure trivial
    | some m => exact keeps_bind (tidy_derefMap m) fun _ _ => tidy_mapUnloadWith hfree _
  have hremove : ∀ id, Keeps Tidy (fun _ => True) (playerCacheRemove free id) := by
    refine fun id => keeps_get_bind fun w _ => ?_
    cases w.cache.lookup id with
    | none => exact keeps_pure trivial
    | some q =>
      exact keeps_bind (tidy_aside (fun _ => rfl) (fun _ => rfl) (fun _ => rfl) fun _ => rfl)
        fun _ _ => keeps_bind (tidy_derefPlayer q) fun _ _ =>
          keeps_ite (fun _ => keeps_pure trivial) fun _ => hfree q
  have huncache : Keeps Tidy (fun _ => True) (uncachePlayer free p) := by
    refine keeps_bind (tidy_derefPlayer p) fun player _ => ?_
    cases player.id with
    | none => exact keeps_pure trivial
    | some id => exact hremove id
  exact keeps_bind hwrite fun _ _ => keeps_bind hunload fun _ _ => keeps_bind huncache fun _ _ =>
    keeps_bind (tidy_unlock _) fun _ _ =>
      keeps_modify (fun _ hw => ⟨hw.maps, fun k player hk => hw.players k player (get_of_free hk),
        hw.records, hw.out⟩) trivial

theorem tidy_playerFreeWith (p : ℕ) : Keeps Tidy (fun _ => True) (playerFreeWith defs free p) :=
  keeps_bind (tidy_lock _) fun _ _ => keeps_bind (tidy_lock _) fun _ _ =>
    keeps_bind (tidy_refs p fun n => n - 1) fun _ _ => keeps_bind (tidy_derefPlayer p) fun _ _ =>
      keeps_ite (fun _ => keeps_bind (tidy_unlock _) fun _ _ => tidy_unlock _)
        fun _ => tidy_releasePlayer hfree p

end Free

theorem tidy_playerFree (p : ℕ) : Keeps Tidy (fun _ => True) (playerFree defs p) :=
  tidy_playerFreeWith (tidy_playerFreeWith fun _ => keeps_stop _) p

/-! ## Moves -/

theorem tidy_writeToPlayer {packet : ServerPacket} (hpacket : packet.Fits) (p : ℕ) :
    Keeps Tidy (fun _ => True) (writeToPlayer packet p) :=
  keeps_bind (tidy_derefPlayer p) fun _ _ =>
    keeps_bind (P := fun _ => True) (keeps_need fun _ _ => trivial) fun s _ =>
      tidy_writeSession s hpacket

theorem tidy_mapSendPacket : ∀ (m : Option ℕ) (packet : Option ServerPacket),
    (∀ p, packet = some p → p.Fits) → Keeps Tidy (fun _ => True) (mapSendPacket m packet)
  | none, _, _ => keeps_pure trivial
  | some _, none, _ => keeps_pure trivial
  | some m, some packet, hpacket => by
    refine keeps_bind (tidy_derefMap m) fun _ _ => keeps_forEach fun p _ => ?_
    refine keeps_bind (tidy_derefPlayer p) fun player _ => ?_
    cases player.session with
    | none => exact keeps_pure trivial
    | some s => exact tidy_writeSession s (hpacket packet rfl)

section Moves

variable (hdefs : TidyDefs defs)

include hdefs

theorem tidy_mapSendMapPacket : ∀ m s : Option ℕ,
    Keeps Tidy (fun _ => True) (mapSendMapPacket defs m s)
  | none, _ => keeps_pure trivial
  | some _, none => keeps_pure trivial
  | some m, some s => by
    have htemplate : ∀ id, Keeps Tidy ServerPacket.Fits (packetTemplateMap defs id) := fun id =>
      keeps_bind (tidy_mapLoad hdefs id) fun _ _ =>
        keeps_bind (P := fun _ => True) (keeps_need fun _ _ => trivial) fun k _ =>
          keeps_bind (tidy_derefMap k) fun _ hmap => keeps_pure hmap.packet
    exact keeps_bind (tidy_derefMap m) fun map _ => keeps_bind (htemplate map.id)
      fun _ hpacket => tidy_writeSession s hpacket

theorem tidy_changeMap (oldMap : Option ℕ) (p : ℕ) :
    ∀ m, Keeps Tidy (fun _ => True) (changeMap defs oldMap p m)
  | none => keeps_pure trivial
  | some m => by
    have href : Keeps Tidy (fun _ => True) (playerRef p) := keeps_bind (tidy_lock _) fun _ _ =>
      keeps_bind (tidy_refs p fun n => n + 1) fun _ _ => tidy_unlock _
    have hadd : Keeps Tidy (fun _ => True) (mapAddPlayer defs m p) := keeps_bind href fun _ _ =>
      keeps_bind (tidy_updateMap m fun _ h => ⟨h.packet, h.events⟩) fun _ _ =>
        keeps_bind (tidy_derefMap m) fun map _ => keeps_bind (tidy_mapLoad hdefs map.id)
          fun _ _ => tidy_updatePlayer p fun _ h => ⟨h.x, h.y, h.modified, h.name, h.id⟩
    have hunlink : ∀ o, Keeps Tidy (fun _ => True) (unlinkPlayer defs o p) := fun o =>
      keeps_bind (tidy_derefMap o) fun _ h => keeps_ite
        (fun _ => keeps_bind (tidy_setMap o ⟨h.packet, h.events⟩) fun _ _ =>
          keeps_bind (tidy_playerFree p) fun _ _ => keeps_pure trivial)
        fun _ => keeps_pure trivial
    have hleaving : ∀ o id removed, Short id →
        Keeps Tidy (fun _ => True) (sendLeaving o (.leavingMap id) removed) := fun o id _ hid =>
      keeps_ite (fun _ => keeps_bind (tidy_derefMap o) fun _ _ =>
        keeps_forEach fun q _ => tidy_writeToPlayer (fits_leavingMap hid) q)
          fun _ => keeps_pure trivial
    refine keeps_bind (P := fun _ => True) ?_ fun _ _ => hadd
    cases oldMap with
    | none => exact keeps_pure trivial
    | some o =>
      exact keeps_bind (hunlink o) fun removed _ => keeps_bind (tidy_derefPlayer p)
        fun _ hp => keeps_bind (keeps_need hp.id) fun id hid => hleaving o id removed hid

omit hdefs in
theorem tidy_toggleCoord (m : ℕ) (x y : ℤ) (disable : Bool) :
    Keeps Tidy (fun _ => True) (toggleCoord m x y disable) := by
  refine keeps_bind (tidy_derefMap m) fun map hmap =>
    keeps_bind (P := fun r => TidyMap r.2) (keeps_need ?_) fun _ hr =>
      keeps_bind (tidy_setMap m hr) fun _ _ => keeps_pure trivial
  rintro ⟨b, map'⟩ htoggle
  rcases mapToggleCoord_eq_some htoggle with ⟨-, rfl, -⟩ | ⟨-, rfl, -⟩
  · exact hmap
  · exact ⟨hmap.packet, hmap.events⟩

section Circle

variable {spawn : ℤ → ℕ → ℤ → ℤ → ℤ → Exec World ℤ}

theorem tidy_mapEventActivate
    (hspawn : ∀ id p x y suppress, IsInt32 x → IsInt32 y →
      Keeps Tidy (fun _ => True) (spawn id p x y suppress)) (x y : ℤ) (m p : ℕ) :
    Keeps Tidy (fun _ => True) (mapEventActivate defs spawn x y m p) := by
  have hevent : ∀ e : MapEvent, (∀ n ∈ e.staticArgs, IsInt32 n) →
      Keeps Tidy (fun _ => True) (eventFunc spawn p e) := by
    intro e he
    have harg : ∀ i, Keeps Tidy IsInt32 (Exec.need e.staticArgs[i]?) := fun i =>
      keeps_need fun n hn => he n (List.mem_of_getElem? hn)
    unfold eventFunc
    cases e.func with
    | changeMap =>
      exact keeps_bind (harg 0) fun _ _ => keeps_bind (harg 1) fun _ hx => keeps_bind (harg 2)
        fun _ hy => keeps_bind (harg 2) fun _ _ => keeps_bind (hspawn _ p _ _ _ hx hy)
          fun _ _ => keeps_pure trivial
    | _ => exact keeps_bind (tidy_derefPlayer p) fun _ _ => keeps_pure trivial
  refine keeps_bind (tidy_derefMap m) fun map hmap => keeps_bind (tidy_mapLoad hdefs map.id)
    fun loaded _ => keeps_bind (keeps_forEach fun e he => ?_) fun _ _ => ?_
  · exact keeps_bind (tidy_derefMap m) fun _ _ =>
      keeps_ite (fun _ => hevent e (hmap.events e he)) fun _ => keeps_pure trivial
  · cases loaded with
    | none => exact keeps_pure trivial
    | some k =>
      exact keeps_bind (tidy_derefMap k) fun _ _ => tidy_mapUnloadWith tidy_playerFree _

variable {activate : ℤ → ℤ → ℕ → ℕ → Exec World Unit}

theorem tidy_playerMoveWith
    (hactivate : ∀ x y m p, Keeps Tidy (fun _ => True) (activate x y m p)) (p : ℕ) {x y : ℤ}
    (hx : IsInt32 x) (hy : IsInt32 y) (args : MoveArgs) :
    Keeps Tidy (fun _ => True) (playerMoveWith defs activate p x y args) := by
  have hannounce : Keeps Tidy (fun _ => True) (announce p) := by
    refine keeps_bind (tidy_derefPlayer p) fun player hp =>
      tidy_mapSendPacket player.map _ fun packet hpacket => ?_
    obtain ⟨id, hid, rfl⟩ := Option.map_eq_some_iff.mp hpacket
    exact fits_updatePosition (hp.id id hid) hp.x hp.y
  have hmoveTo : Keeps Tidy (fun _ => True) (moveTo activate p x y args.suppressEvents) :=
    keeps_bind (tidy_updatePlayer p fun _ h => ⟨hx, hy, h.modified, h.name, h.id⟩) fun _ _ =>
      keeps_bind (P := fun _ => True) (keeps_ite (fun _ => keeps_pure trivial) fun _ =>
        keeps_bind (tidy_derefPlayer p) fun _ _ =>
          keeps_bind (P := fun _ => True) (keeps_need fun _ _ => trivial) fun m _ =>
            hactivate x y m p) fun _ _ => hannounce
  have henable : ∀ o, Keeps Tidy (fun _ => True) (enableOldCoord p o)
    | none => keeps_pure trivial
    | some o => keeps_bind (tidy_derefPlayer p) fun _ _ => tidy_toggleCoord o _ _ false
  have hmoveFrom : ∀ o, Keeps Tidy (fun _ => True) (moveFrom activate o p x y args) := fun o =>
    keeps_bind (henable o) fun _ _ => keeps_ite
      (fun _ => keeps_bind hmoveTo fun _ _ => keeps_pure trivial) fun _ => keeps_pure trivial
  have hwithin : ∀ o, Keeps Tidy (fun _ => True) (moveWithin activate o p x y args) := fun o =>
    keeps_bind (tidy_derefPlayer p) fun _ _ =>
      keeps_bind (P := fun _ => True) (keeps_need fun _ _ => trivial) fun m _ =>
        keeps_bind (tidy_derefMap m) fun _ _ => keeps_ite
          (fun _ => keeps_bind (tidy_toggleCoord m x y true) fun _ _ =>
            keeps_ite (fun _ => hmoveFrom o) fun _ => keeps_pure trivial)
          fun _ => keeps_pure trivial
  have hvalid : ∀ m, Keeps Tidy (fun _ => True) (moveValid p x y m)
    | none => keeps_bind (tidy_derefPlayer p) fun _ _ => keeps_pure trivial
    | some _ => keeps_pure trivial
  exact keeps_bind (tidy_derefPlayer p) fun player _ =>
    keeps_bind (tidy_changeMap hdefs player.map p args.map) fun _ _ =>
      keeps_bind (hvalid args.map) fun _ _ =>
        keeps_ite (fun _ => hwithin player.map) fun _ => keeps_pure trivial

variable {move : ℕ → ℤ → ℤ → MoveArgs → Exec World Bool}

theorem tidy_mapSpawnPlayerWith
    (hmove : ∀ p x y args, IsInt32 x → IsInt32 y → Keeps Tidy (fun _ => True) (move p x y args))
    (id : ℤ) (p : ℕ) {x y : ℤ} (suppress : ℤ) (hx : IsInt32 x) (hy : IsInt32 y) :
    Keeps Tidy (fun _ => True) (mapSpawnPlayerWith defs move id p x y suppress) := by
  have hposition : ∀ q, Keeps Tidy (fun _ => True) (sendPosition p q) := by
    refine fun q => keeps_ite (fun _ => keeps_pure trivial) fun _ =>
      keeps_bind (tidy_derefPlayer q) fun other hq =>
        keeps_bind (P := ServerPacket.Fits) (keeps_need fun packet hpacket => ?_)
          fun _ hpacket => tidy_writeToPlayer hpacket p
    obtain ⟨id, hid, rfl⟩ := Option.map_eq_some_iff.mp hpacket
    exact fits_updatePosition (hq.id id hid) hq.x hq.y
  exact keeps_ite (fun _ => keeps_pure trivial) fun _ => keeps_bind (tidy_mapLoad hdefs id)
    fun loaded _ => keeps_bind (tidy_derefPlayer p) fun player _ =>
      keeps_bind (tidy_mapSendMapPacket hdefs loaded player.session) fun _ _ =>
        keeps_bind (hmove p x y _ hx hy) fun _ _ =>
          keeps_bind (P := fun _ => True) (keeps_need fun _ _ => trivial) fun m _ =>
            keeps_bind (keeps_bind (tidy_derefMap m) fun _ _ =>
              keeps_forEach fun q _ => hposition q) fun _ _ => keeps_pure trivial

end Circle

/-- **A spawn** at coordinates of 32 bits. -/
theorem tidy_mapSpawnPlayer (fuel : ℕ) : ∀ id p x y suppress, IsInt32 x → IsInt32 y →
    Keeps Tidy (fun _ => True) (mapSpawnPlayer defs fuel id p x y suppress) := by
  induction fuel with
  | zero => exact fun _ _ _ _ _ _ _ => keeps_stop _
  | succ fuel ih =>
    exact fun id p x y suppress hx hy => tidy_mapSpawnPlayerWith hdefs
      (fun p x y args hx hy => tidy_playerMoveWith hdefs (tidy_mapEventActivate hdefs ih) p hx hy
        args) id p suppress hx hy

/-- **A move** to coordinates of 32 bits. -/
theorem tidy_playerMove (fuel p : ℕ) {x y : ℤ} (hx : IsInt32 x) (hy : IsInt32 y)
    (args : MoveArgs) : Keeps Tidy (fun _ => True) (playerMove defs fuel p x y args) :=
  tidy_playerMoveWith hdefs (tidy_mapEventActivate hdefs (tidy_mapSpawnPlayer hdefs fuel)) p hx hy
    args

end Moves

/-! ## Requests -/

theorem tidy_readField (hdefs : TidyDefs defs) (p : ℕ) {field : String × Bson}
    (hshort : ∀ s, field.2 = .utf8 s → Short s) (hint : ∀ n, field.2 = .int32 n → IsInt32 n) :
    Keeps Tidy (fun _ => True) (readField defs p field) := by
  have hstring : ∀ s, bsonGetString field.2 = some s → Short s := by
    intro s hs
    cases hfield : field.2 with
    | utf8 t =>
      rw [hfield, bsonGetString, Option.some.injEq] at hs
      have hlen : t.length ≤ 32000 := hshort t hfield
      have htake : (t.takeWhile fun b => b ≠ 0).length ≤ t.length :=
        (List.takeWhile_sublist _).length_le
      exact hs ▸ htake.trans hlen
    | _ =>
      rw [hfield] at hs
      exact absurd hs.symm (Option.some_ne_none s)
  have hzero : IsInt32 0 := by decide
  have hnumber : IsInt32 (bsonIterInt32 field.2) := by
    cases hfield : field.2 with
    | int32 n => exact hint n hfield
    | _ => exact hzero
  exact keeps_ite (fun _ => keeps_bind (keeps_need hstring) fun s hs =>
      tidy_updatePlayer p fun _ h => ⟨h.x, h.y, h.modified, h.name, by rintro _ ⟨⟩; exact hs⟩)
    fun _ => keeps_ite (fun _ => keeps_bind (keeps_need hstring) fun s hs =>
      tidy_updatePlayer p fun _ h => ⟨h.x, h.y, h.modified, by rintro _ ⟨⟩; exact hs, h.id⟩)
    fun _ => keeps_ite (fun _ => keeps_bind (tidy_mapLoad hdefs _) fun _ _ =>
      tidy_updatePlayer p fun _ h => ⟨h.x, h.y, h.modified, h.name, h.id⟩)
    fun _ => keeps_ite (fun _ =>
      tidy_updatePlayer p fun _ h => ⟨hnumber, h.y, h.modified, h.name, h.id⟩)
    fun _ => keeps_ite (fun _ =>
      tidy_updatePlayer p fun _ h => ⟨h.x, hnumber, h.modified, h.name, h.id⟩)
    fun _ => keeps_ite (fun _ =>
      tidy_updatePlayer p fun _ h => ⟨h.x, h.y, h.modified, h.name, h.id⟩)
    fun _ => keeps_pure trivial

theorem tidy_dbPlayerGetPlayer (hdefs : TidyDefs defs) (id : CString) :
    Keeps Tidy (fun _ => True) (dbPlayerGetPlayer defs id) := by
  have hcreate : Keeps Tidy (fun _ => True) playerCreate := by
    refine keeps_get_bind fun _ _ => keeps_bind (P := fun _ => True)
      (keeps_modify (fun w hw => ?_) trivial) fun _ _ => keeps_pure trivial
    refine ⟨hw.maps, fun k player hk => ?_, hw.records, hw.out⟩
    rcases Heap.get_alloc_eq_some hk with ⟨-, rfl⟩ | ⟨-, hold⟩
    · exact ⟨by decide, by decide, rfl, by simp, by simp⟩
    · exact hw.players k player hold
  have hread : Keeps Tidy (fun _ => True) (readPlayer defs id) := by
    refine keeps_get_bind fun w hw => ?_
    cases hdoc : findById id w.playerdata with
    | none => exact keeps_pure trivial
    | some doc =>
      have hrecord := hw.records doc (List.mem_of_find?_eq_some hdoc)
      exact keeps_bind hcreate fun p _ => keeps_bind (keeps_forEach fun field hfield =>
        tidy_readField hdefs p (hrecord.short field hfield) (hrecord.ints field hfield))
          fun _ _ => keeps_pure trivial
  have hfind : Keeps Tidy (fun _ => True) (playerCacheFind id) := by
    refine keeps_bind (tidy_lock _) fun _ _ => keeps_get_bind fun w _ => ?_
    cases w.cache.lookup id with
    | none => exact keeps_bind (tidy_unlock _) fun _ _ => keeps_pure trivial
    | some p =>
      exact keeps_bind (tidy_lock _) fun _ _ => keeps_bind (tidy_refs p fun n => n + 1)
        fun _ _ => keeps_bind (tidy_unlock _) fun _ _ => keeps_bind (tidy_unlock _)
          fun _ _ => keeps_pure trivial
  refine keeps_bind hfind fun cached _ => ?_
  cases cached with
  | some p => exact keeps_pure trivial
  | none => exact hread

theorem tidy_updateSession (s : ℕ) (f : Session → Session) :
    Keeps Tidy (fun _ => True) (updateSession s f) :=
  keeps_bind (tidy_derefSession s) fun _ _ =>
    tidy_aside (fun _ => rfl) (fun _ => rfl) (fun _ => rfl) fun _ => rfl

theorem tidy_onTable {α : Type} (x : Exec AwaitingTable α) :
    Keeps Tidy (fun _ => True) (onTable x) := by
  intro w a w' hw h
  obtain ⟨t, -, rfl⟩ := onTable_eq_ok.mp h
  exact ⟨hw.congr rfl rfl rfl rfl, trivial⟩

/-- What a handler answers fits. -/
def FitsIfAny (r : Option ServerPacket) : Prop := ∀ packet, r = some packet → packet.Fits

theorem fitsIfAny_none : FitsIfAny none := fun _ h => absurd h.symm (Option.some_ne_none _)

theorem fitsIfAny_some {packet : ServerPacket} (h : packet.Fits) : FitsIfAny (some packet) := by
  rintro _ ⟨⟩
  exact h

theorem tidy_setErrno (code : ℤ) :
    Keeps Tidy (fun _ => True) (Exec.modify fun w => { w with packetErrno := code }) :=
  tidy_aside (fun _ => rfl) (fun _ => rfl) (fun _ => rfl) fun _ => rfl

theorem tidy_packetHandleLogin (hdefs : TidyDefs defs) (fuel : ℕ) (packet : Packet) (s : ℕ) :
    Keeps Tidy FitsIfAny (packetHandleLogin defs fuel packet s) := by
  have hfree : ∀ player, Keeps Tidy (fun _ => True) (playerFreeNull defs player)
    | none => keeps_pure trivial
    | some p => tidy_playerFree p
  have hdestroy : Keeps Tidy (fun _ => True) (sessionDestroy defs s) :=
    keeps_bind (tidy_derefSession s) fun session _ => keeps_bind (hfree session.player)
      fun _ _ => tidy_aside (fun _ => rfl) (fun _ => rfl) (fun _ => rfl) fun _ => rfl
  have hreply : ∀ spawned, Keeps Tidy FitsIfAny (loginReply defs packet s spawned) := fun _ =>
    keeps_ite (fun _ => keeps_bind hdestroy fun _ _ => keeps_bind (tidy_setErrno _) fun _ _ =>
      keeps_pure fitsIfAny_none) fun _ => keeps_pure (fitsIfAny_some (fits_of_nil rfl rfl))
  have hplayer : ∀ code p, Keeps Tidy FitsIfAny (loginPlayer defs fuel packet code s p) :=
    fun _ p => keeps_bind
      (tidy_updatePlayer p fun _ h => ⟨h.x, h.y, h.modified, h.name, h.id⟩) fun _ _ =>
        keeps_bind (tidy_updateSession s _) fun _ _ => keeps_bind (tidy_onTable _) fun _ _ =>
          keeps_bind (tidy_derefPlayer p) fun _ hp =>
            keeps_bind (P := fun _ => True) (keeps_need fun _ _ => trivial) fun m _ =>
              keeps_bind (tidy_derefMap m) fun _ _ =>
                keeps_bind (tidy_mapSpawnPlayer hdefs fuel _ p _ _ _ hp.x hp.y)
                  fun n _ => hreply n
  have has : ∀ code id, Keeps Tidy FitsIfAny (loginAs defs fuel packet code id s) := by
    refine fun code id => keeps_bind (tidy_dbPlayerGetPlayer hdefs id) fun found _ =>
      keeps_bind (tidy_updateSession s _) fun _ _ => ?_
    cases found with
    | none => exact keeps_pure (fitsIfAny_some (fits_of_nil rfl rfl))
    | some p => exact hplayer code p
  refine keeps_bind (P := fun _ => True) (keeps_need fun _ _ => trivial) fun code _ =>
    keeps_bind (tidy_onTable _) fun found _ => ?_
  cases found with
  | none => exact keeps_bind (tidy_setErrno _) fun _ _ => keeps_pure fitsIfAny_none
  | some c =>
    exact keeps_get_bind fun _ _ =>
      keeps_bind (P := fun _ => True) (keeps_need fun _ _ => trivial) fun id _ => has code id

/-- A number that is read from a packet has 32 bits. -/
theorem isInt32_intAt {memory : List UInt8} {offset : ℕ} {n : ℤ}
    (h : intAt memory offset = some n) : IsInt32 n := by
  obtain ⟨-, h⟩ := Option.ite_none_right_eq_some.mp h
  obtain rfl := Option.some.inj h
  exact ⟨BitVec.le_toInt _, BitVec.toInt_lt⟩

theorem tidy_packetHandleRoute (hdefs : TidyDefs defs) (fuel : ℕ) (packet : Packet) (s : ℕ) :
    Keeps Tidy FitsIfAny (packetHandleRoute defs fuel packet s) := by
  have hmove : Keeps Tidy FitsIfAny (packetHandleMove defs fuel packet s) :=
    keeps_bind (keeps_need fun _ => isInt32_intAt) fun _ hx =>
      keeps_bind (keeps_need fun _ => isInt32_intAt) fun _ hy =>
        keeps_bind (tidy_derefSession s) fun _ _ =>
          keeps_bind (P := fun _ => True) (keeps_need fun _ _ => trivial) fun p _ =>
            keeps_bind (tidy_playerMove hdefs fuel p hx hy _) fun _ _ =>
              keeps_ite (fun _ => keeps_pure fitsIfAny_none) fun _ =>
                keeps_pure (fitsIfAny_some (fits_of_nil rfl rfl))
  have hreply : ∀ found, Keeps Tidy FitsIfAny (inspectReply packet found)
    | none => keeps_pure (fitsIfAny_some (fits_of_nil rfl rfl))
    | some p => keeps_bind (tidy_derefPlayer p) fun _ hp => keeps_bind (keeps_need hp.name)
        fun _ hname => keeps_pure (fitsIfAny_some (fits_player hname hp.x hp.y))
  exact keeps_ite (fun _ => keeps_stop _) fun _ =>
    keeps_ite (fun _ => tidy_packetHandleLogin hdefs fuel packet s) fun _ =>
      keeps_ite (fun _ => keeps_stop _) fun _ => keeps_ite (fun _ => hmove) fun _ =>
        keeps_ite (fun _ => keeps_bind (tidy_dbPlayerGetPlayer hdefs _) fun found _ =>
          hreply found) fun _ => keeps_pure fitsIfAny_none

theorem tidy_eventLoop (hdefs : TidyDefs defs) (fuel s : ℕ) (received : Option Packet) :
    Keeps Tidy (fun _ => True) (eventLoop defs fuel s received) := by
  have hclose : Sent.Fits (.close 1008) := (by decide : 1008 < 2 ^ 16)
  have herror : ∀ fd code, Keeps Tidy (fun _ => True) (eventLoopError fd code) := fun fd _ =>
    keeps_bind (keeps_need fun _ => fits_error) fun _ hpacket =>
      keeps_bind (tidy_packetWrite fd hpacket) fun _ _ =>
        keeps_modify (fun _ hw => hw.write hclose) trivial
  have hbad : ∀ fd, Keeps Tidy (fun _ => True) (reportBadPacket fd received) := by
    intro fd
    cases received with
    | none => exact herror fd _
    | some _ => exact keeps_pure trivial
  have herrno : ∀ fd, Keeps Tidy (fun _ => True) (reportErrno fd) := fun fd =>
    keeps_get_bind fun _ _ => keeps_ite (fun _ => keeps_pure trivial) fun _ => herror fd _
  have hrespond : ∀ r, FitsIfAny r → Keeps Tidy (fun _ => True) (respond s r)
    | none, _ => keeps_pure trivial
    | some _, hr => tidy_writeSession s (hr _ rfl)
  have hhandle : ∀ packet fd, Keeps Tidy (fun _ => True)
      (handlePacketWith (fun packet => packetHandleRoute defs fuel packet s) packet s fd) :=
    fun packet fd => keeps_bind (herrno fd) fun _ _ =>
      keeps_bind (tidy_packetHandleRoute hdefs fuel packet s) fun r hr => hrespond r hr
  exact keeps_bind (tidy_derefSession s) fun session _ => keeps_bind (hbad session.fd) fun _ _ =>
    keeps_bind (P := fun _ => True) (keeps_need fun _ _ => trivial) fun packet _ =>
      keeps_ite (fun _ => hhandle packet session.fd) fun _ =>
        tidy_packetWrite _ (fits_of_nil rfl rfl)

/-! ## Runs -/

/-- **A step of the server** keeps everything tidy. -/
theorem Tidy.step {w w' : World} {a : Request} (hdefs : TidyDefs defs) (hw : Tidy w)
    (h : Step defs w a w') : Tidy w' := by
  cases h with
  | connect _ h =>
    obtain rfl := sessionCreate_eq_ok h
    exact hw.congr rfl rfl rfl rfl
  | token h => exact (tidy_onTable _ _ _ _ hw h).1
  | packet h => exact (tidy_eventLoop hdefs _ _ _ _ _ _ hw h).1

/-- **After every run** everything is tidy, and all that was sent fits. -/
theorem tidy_run {w : World} {playerdata : List Document} {l : List (Request × World)}
    (hdefs : TidyDefs defs) (hdata : ∀ doc ∈ playerdata, TidyRecord doc)
    (h : Trace (Step defs) (boot playerdata) l w) : Tidy w :=
  h.invariant (I := Tidy) (fun _ _ _ hv hstep => hv.step hdefs hstep) (tidy_boot hdata)

end World
end MmoBackend
