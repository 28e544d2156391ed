import MmoBackend.World.Fuel

/-!
# Two servers that differ in their error number

`packet_errno` is one variable for the whole process, and what was written to the sockets
is not read back by anybody.  `Twin b w v` says that two servers differ in nothing but
these two parts, and that the session `b` was sent the same by both.

A handler writes to the socket of a session it has looked up and does not read
`packet_errno`.  So two servers that are twins stay twins when both make the same call:
`Blind` is this statement about a piece of code, it is proved by going over the text, and
`blind_packetHandleRoute` is the result for all requests.
-/

namespace MmoBackend

open Authentication Communication Exec Maps

namespace World

/-- The state with another error number and another output. -/
def veil (errno : ℤ) (out : List (ℕ × Sent)) (w : World) : World :=
  { w with packetErrno := errno, out := out }

/-- What was written to a socket. -/
def sentTo (fd : ℕ) (w : World) : List Sent :=
  w.out.filterMap fun e => if e.1 = fd then some e.2 else none

/-- Everything was written to the socket of a session that is there. -/
def Addressed (w : World) : Prop :=
  ∀ e ∈ w.out, ∃ s session, w.sessions.get s = some session ∧ session.fd = e.1

/-- No two sessions have one file descriptor. -/
def DistinctFds (w : World) : Prop :=
  ∀ s s' session session', w.sessions.get s = some session → w.sessions.get s' = some session' →
    session.fd = session'.fd → s = s'

/-- Two servers that differ in the error number and in what they wrote, but not in what
they wrote to the session `b`. -/
structure Twin (b : ℕ) (w v : World) : Prop where
  veiled : v = veil v.packetErrno v.out w
  same : ∀ session, w.sessions.get b = some session → sentTo session.fd w = sentTo session.fd v
  addressed : w.Addressed
  addressed' : v.Addressed
  distinct : w.DistinctFds

variable {defs : MapDefs} {b : ℕ} {w v : World}

@[simp] theorem sessions_veil (errno : ℤ) (out : List (ℕ × Sent)) :
    (veil errno out w).sessions = w.sessions := rfl

@[simp] theorem out_veil (errno : ℤ) (out : List (ℕ × Sent)) : (veil errno out w).out = out := rfl

@[simp] theorem table_veil (errno : ℤ) (out : List (ℕ × Sent)) :
    (veil errno out w).table = w.table := rfl

namespace Twin

theorem sessions_eq (h : Twin b w v) : v.sessions = w.sessions := by rw [h.veiled, sessions_veil]

/-- Both change the same way, and neither the error number nor the output. -/
theorem map {f : World → World} (h : Twin b w v)
    (hveil : ∀ errno out w, f (veil errno out w) = veil errno out (f w))
    (hfd : ∀ s, ((f w).sessions.get s).map Session.fd = (w.sessions.get s).map Session.fd) :
    Twin b (f w) (f v) := by
  have hself : f w = veil w.packetErrno w.out (f w) := hveil w.packetErrno w.out w
  have hout : (f w).out = w.out := by rw [hself, out_veil]
  have hv : f v = veil v.packetErrno v.out (f w) := by
    rw [← hveil, ← h.veiled]
  have hback : ∀ s session, (f w).sessions.get s = some session →
      ∃ old, w.sessions.get s = some old ∧ old.fd = session.fd := by
    intro s session hs
    have hmap := hfd s
    rw [hs, Option.map_some] at hmap
    exact Option.map_eq_some_iff.mp hmap.symm
  have hforth : ∀ s session, w.sessions.get s = some session →
      ∃ new, (f w).sessions.get s = some new ∧ new.fd = session.fd := by
    intro s session hs
    have hmap := hfd s
    rw [hs, Option.map_some] at hmap
    exact Option.map_eq_some_iff.mp hmap
  have hsent : ∀ fd, sentTo fd (f w) = sentTo fd w := fun fd => by rw [sentTo, hout, sentTo]
  refine ⟨?_, ?_, ?_, ?_, ?_⟩
  · rw [hv]
    rfl
  · intro session hb
    obtain ⟨old, hold, hfd'⟩ := hback b session hb
    rw [hsent, ← hfd', h.same old hold, hv]
    rfl
  · intro e he
    obtain ⟨s, session, hs, hfd'⟩ := h.addressed e (hout ▸ he)
    obtain ⟨new, hnew, hfd''⟩ := hforth s session hs
    exact ⟨s, new, hnew, hfd''.trans hfd'⟩
  · rw [hv]
    intro e he
    obtain ⟨s, session, hs, hfd'⟩ := h.addressed' e he
    obtain ⟨new, hnew, hfd''⟩ := hforth s session (h.sessions_eq ▸ hs)
    exact ⟨s, new, hnew, hfd''.trans hfd'⟩
  · intro s s' session session' hs hs' hfd'
    obtain ⟨old, hold, hold'⟩ := hback s session hs
    obtain ⟨old', hold₁, hold₁'⟩ := hback s' session' hs'
    exact h.distinct s s' old old' hold hold₁ (by rw [hold', hold₁', hfd'])

/-- Each writes to the socket of one session.  If it is `b`, they write the same. -/
theorem append {s : ℕ} {session : Session} {l l' : List (ℕ × Sent)} (h : Twin b w v)
    (hs : w.sessions.get s = some session) (hl : ∀ e ∈ l, e.1 = session.fd)
    (hl' : ∀ e ∈ l', e.1 = session.fd) (hb : s = b → l = l') (errno errno' : ℤ) :
    Twin b (veil errno (w.out ++ l) w) (veil errno' (v.out ++ l') v) := by
  have haddressed : ∀ {u : World} {k : List (ℕ × Sent)}, u.Addressed →
      u.sessions = w.sessions → (∀ e ∈ k, e.1 = session.fd) →
      ∀ errno, (veil errno (u.out ++ k) u).Addressed := by
    intro u k hu hsessions hk errno e he
    rcases List.mem_append.mp he with he | he
    · exact hu e he
    · exact ⟨s, session, hsessions ▸ hs, (hk e he).symm⟩
  refine ⟨?_, ?_, haddressed h.addressed rfl hl errno,
    haddressed h.addressed' h.sessions_eq hl' errno', h.distinct⟩
  · have hveiled := h.veiled
    rw [hveiled]
    rfl
  · intro sb hsb
    have hold : List.filterMap _ w.out = List.filterMap _ v.out := h.same sb hsb
    show List.filterMap _ (w.out ++ l) = List.filterMap _ (v.out ++ l')
    rw [List.filterMap_append, List.filterMap_append, hold]
    by_cases hbs : s = b
    · rw [hb hbs]
    · have hnone : ∀ k : List (ℕ × Sent), (∀ e ∈ k, e.1 = session.fd) →
          k.filterMap (fun e => if e.1 = sb.fd then some e.2 else none) = [] := by
        intro k hk
        refine List.filterMap_eq_nil_iff.mpr fun e he => if_neg fun hfd => hbs ?_
        exact h.distinct s b session sb hs hsb ((hk e he).symm.trans hfd)
      rw [hnone l hl, hnone l' hl']

/-- Each sets its error number. -/
theorem setErrno (h : Twin b w v) (errno errno' : ℤ) :
    Twin b { w with packetErrno := errno } { v with packetErrno := errno' } := by
  refine ⟨?_, h.same, h.addressed, h.addressed', h.distinct⟩
  have hveiled := h.veiled
  rw [hveiled]
  rfl

end Twin

/-! ## Code that cannot tell twins apart -/

/-- Twins that both make the call are twins after it, and it returns the same. -/
def Blind (b : ℕ) {α : Type} (x : Exec World α) : Prop := Paired (Twin b) x x

section Rules

variable {α : Type}

/-- Reading the state is fine when the rest does not look at the parts in which twins
differ. -/
theorem blind_get {f : World → Exec World α}
    (hveil : ∀ errno out w, f (veil errno out w) = f w) (hf : ∀ w, Blind b (f w)) :
    Blind b (Exec.get >>= f) := by
  intro w v a w' hR h
  obtain ⟨v', hv', hR'⟩ := hf w w v a w' hR h
  refine ⟨v', ?_, hR'⟩
  have hfv : f v = f w := by
    rw [hR.veiled]
    exact hveil _ _ _
  show f v v = _
  rw [hfv, hv']

theorem blind_modify {f : World → World}
    (hveil : ∀ errno out w, f (veil errno out w) = veil errno out (f w))
    (hfd : ∀ w s, ((f w).sessions.get s).map Session.fd = (w.sessions.get s).map Session.fd) :
    Blind b (Exec.modify f) := by
  intro w v u w' hR h
  rw [modify_eq_ok] at h
  subst h
  exact ⟨f v, rfl, hR.map hveil (hfd w)⟩

theorem blind_derefMap (m : ℕ) : Blind b (derefMap m) :=
  blind_get (fun _ _ _ => rfl) fun _ => paired_need _

theorem blind_derefPlayer (p : ℕ) : Blind b (derefPlayer p) :=
  blind_get (fun _ _ _ => rfl) fun _ => paired_need _

theorem blind_derefSession (s : ℕ) : Blind b (derefSession s) :=
  blind_get (fun _ _ _ => rfl) fun _ => paired_need _

theorem blind_updateMap (m : ℕ) (f : Map → Map) : Blind b (updateMap m f) :=
  paired_bind (blind_derefMap m) fun _ => blind_modify (fun _ _ _ => rfl) fun _ _ => rfl

theorem blind_updatePlayer (p : ℕ) (f : Player → Player) : Blind b (updatePlayer p f) :=
  paired_bind (blind_derefPlayer p) fun _ => blind_modify (fun _ _ _ => rfl) fun _ _ => rfl

theorem blind_updateSession (s : ℕ) {f : Session → Session} (hf : ∀ session, (f session).fd =
    session.fd) : Blind b (updateSession s f) := by
  intro w v u w' hR h
  obtain ⟨session, hs, rfl⟩ := updateSession_eq_ok.mp h
  refine ⟨v.setSession s (f session), ?_, hR.map (fun _ _ _ => rfl) fun s' => ?_⟩
  · exact updateSession_eq_ok.mpr ⟨session, hR.sessions_eq ▸ hs, rfl⟩
  · exact Heap.map_get_set hs (hf session) s'

theorem blind_lock (l : Lock) : Blind b (lock l) :=
  blind_get (fun _ _ _ => rfl) fun _ =>
    paired_ite (paired_stop _ _) (blind_modify (fun _ _ _ => rfl) fun _ _ => rfl)

theorem blind_unlock (l : Lock) : Blind b (unlock l) :=
  blind_modify (fun _ _ _ => rfl) fun _ _ => rfl

theorem blind_onTable (x : Exec AwaitingTable α) : Blind b (onTable x) := by
  intro w v a w' hR h
  obtain ⟨t, hx, rfl⟩ := onTable_eq_ok.mp h
  have htable : v.table = w.table := by rw [hR.veiled, table_veil]
  exact ⟨v.setTable t, onTable_eq_ok.mpr ⟨t, htable ▸ hx, rfl⟩,
    hR.map (f := setTable t) (fun _ _ _ => rfl) fun _ => rfl⟩

/-- A packet goes to the socket of a session that is there. -/
theorem blind_writeSession (s : ℕ) (packet : ServerPacket) :
    Blind b (derefSession s >>= fun session => packetWrite session.fd packet) := by
  intro w v u w' hR h
  obtain ⟨session, _, hderef, hwrite⟩ := bind_eq_ok.mp h
  obtain ⟨hs, rfl⟩ := derefSession_eq_ok.mp hderef
  rw [packetWrite_eq_ok] at hwrite
  subst hwrite
  have hentry : ∀ e ∈ [(session.fd, Sent.packet packet)], e.1 = session.fd := by
    intro e he
    rw [List.mem_singleton.mp he]
  have htwin := hR.append hs hentry hentry (fun _ => rfl) w.packetErrno v.packetErrno
  refine ⟨_, bind_eq_ok.mpr ⟨session, v, ?_, packetWrite_eq_ok.mpr rfl⟩, htwin⟩
  exact derefSession_eq_ok.mpr ⟨hR.sessions_eq ▸ hs, rfl⟩

end Rules

/-! ## Maps and players -/

theorem blind_ensureTile (i : ℕ) (map : Map) : Blind b (ensureTile i map) := by
  refine blind_get (fun _ _ _ => rfl) fun w => ?_
  cases w.tiles i with
  | some m => exact paired_pure m
  | none =>
    exact paired_bind (blind_modify (fun _ _ _ => rfl) fun _ _ => rfl) fun _ => paired_pure _

theorem blind_mapLoad (id : ℤ) : Blind b (mapLoad defs id) :=
  paired_ite (paired_pure _) (paired_bind (paired_need _) fun _ => paired_bind (blind_lock _)
    fun _ => paired_bind (blind_ensureTile _ _) fun _ => paired_bind (blind_updateMap _ _)
      fun _ => paired_bind (blind_unlock _) fun _ =>
        blind_get (fun _ _ _ => rfl) fun _ => paired_pure _)

section Free

variable {free : ℕ → Exec World Unit} (hfree : ∀ p, Blind b (free p))

include hfree

theorem blind_mapFree (m : ℕ) : Blind b (mapFree free m) :=
  paired_bind (blind_derefMap m) fun _ => paired_bind (paired_forEach fun p _ => hfree p)
    fun _ => blind_modify (fun _ _ _ => rfl) fun _ _ => rfl

theorem blind_unrefTile (i m : ℕ) : Blind b (unrefTile free i m) :=
  paired_bind (blind_derefMap m) fun _ =>
    paired_bind (blind_modify (fun _ _ _ => rfl) fun _ _ => rfl) fun _ =>
      paired_ite (paired_bind (blind_mapFree hfree m) fun _ =>
        blind_modify (fun _ _ _ => rfl) fun _ _ => rfl) (paired_pure ())

theorem blind_mapUnloadWith (id : ℤ) : Blind b (mapUnloadWith defs free id) := by
  refine paired_ite (paired_pure ()) (paired_bind (paired_need _) fun _ =>
    blind_get (fun _ _ _ => rfl) fun w => ?_)
  cases w.tiles id.toNat with
  | none => exact paired_pure ()
  | some m =>
    exact paired_bind (blind_lock _) fun _ => paired_bind (blind_unrefTile hfree _ m) fun _ =>
      blind_unlock _

theorem blind_playerCacheRemove (id : Authentication.CString) :
    Blind b (playerCacheRemove free id) := by
  refine blind_get (fun _ _ _ => rfl) fun w => ?_
  cases w.cache.lookup id with
  | none => exact paired_pure ()
  | some p =>
    exact paired_bind (blind_modify (fun _ _ _ => rfl) fun _ _ => rfl) fun _ =>
      paired_bind (blind_derefPlayer p) fun _ => paired_ite (paired_pure ()) (hfree p)

theorem blind_unloadPlayerMap (p : ℕ) : Blind b (unloadPlayerMap defs free p) := by
  refine paired_bind (blind_derefPlayer p) fun player => ?_
  cases player.map with
  | none => exact paired_pure ()
  | some m =>
    exact paired_bind (blind_derefMap m) fun _ => blind_mapUnloadWith hfree _

theorem blind_uncachePlayer (p : ℕ) : Blind b (uncachePlayer free p) := by
  refine paired_bind (blind_derefPlayer p) fun player => ?_
  cases player.id with
  | none => exact paired_pure ()
  | some id => exact blind_playerCacheRemove hfree id

omit hfree in
theorem blind_writeModified (p : ℕ) : Blind b (writeModified p) :=
  paired_bind (blind_derefPlayer p) fun _ => paired_ite (paired_pure ())
    (paired_bind (blind_derefPlayer p) fun _ => paired_bind (paired_need _) fun _ =>
      paired_bind (paired_need _) fun _ => paired_bind (paired_need _) fun m =>
        paired_bind (blind_derefMap m) fun _ => blind_modify (fun _ _ _ => rfl) fun _ _ => rfl)

theorem blind_releasePlayer (p : ℕ) : Blind b (releasePlayer defs free p) :=
  paired_bind (blind_writeModified p) fun _ => paired_bind (blind_unloadPlayerMap hfree p)
    fun _ => paired_bind (blind_uncachePlayer hfree p) fun _ => paired_bind (blind_unlock _)
      fun _ => blind_modify (fun _ _ _ => rfl) fun _ _ => rfl

theorem blind_playerFreeWith (p : ℕ) : Blind b (playerFreeWith defs free p) :=
  paired_bind (blind_lock _) fun _ => paired_bind (blind_lock _) fun _ =>
    paired_bind (blind_updatePlayer p _) fun _ => paired_bind (blind_derefPlayer p) fun _ =>
      paired_ite (paired_bind (blind_unlock _) fun _ => blind_unlock _)
        (blind_releasePlayer hfree p)

end Free

theorem blind_playerFree (p : ℕ) : Blind b (playerFree defs p) :=
  blind_playerFreeWith (blind_playerFreeWith fun _ => paired_stop _ _) p

theorem blind_mapUnload (id : ℤ) : Blind b (mapUnload defs id) :=
  blind_mapUnloadWith blind_playerFree id

theorem blind_playerRef (p : ℕ) : Blind b (playerRef p) :=
  paired_bind (blind_lock _) fun _ => paired_bind (blind_updatePlayer p _) fun _ =>
    blind_unlock _

theorem blind_playerCacheFind (id : Authentication.CString) : Blind b (playerCacheFind id) := by
  refine paired_bind (blind_lock _) fun _ => blind_get (fun _ _ _ => rfl) fun w => ?_
  cases w.cache.lookup id with
  | none => exact paired_bind (blind_unlock _) fun _ => paired_pure none
  | some p =>
    exact paired_bind (blind_lock _) fun _ => paired_bind (blind_updatePlayer p _) fun _ =>
      paired_bind (blind_unlock _) fun _ => paired_bind (blind_unlock _) fun _ =>
        paired_pure (some p)

/-! ## Moves -/

theorem blind_sendToPlayer (packet : ServerPacket) (p : ℕ) :
    Blind b (sendToPlayer packet p) := by
  refine paired_bind (blind_derefPlayer p) fun player => ?_
  cases player.session with
  | none => exact paired_pure ()
  | some s => exact blind_writeSession s packet

theorem blind_writeToPlayer (packet : ServerPacket) (p : ℕ) :
    Blind b (writeToPlayer packet p) :=
  paired_bind (blind_derefPlayer p) fun _ => paired_bind (paired_need _) fun s =>
    blind_writeSession s packet

theorem blind_mapSendPacket : ∀ (m : Option ℕ) (packet : Option ServerPacket),
    Blind b (mapSendPacket m packet)
  | none, _ => paired_pure ()
  | some _, none => paired_pure ()
  | some m, some packet => paired_bind (blind_derefMap m) fun _ =>
      paired_forEach fun p _ => blind_sendToPlayer packet p

theorem blind_mapSendMapPacket : ∀ m s : Option ℕ, Blind b (mapSendMapPacket defs m s)
  | none, _ => paired_pure ()
  | some _, none => paired_pure ()
  | some m, some s => paired_bind (blind_derefMap m) fun map =>
      paired_bind (paired_bind (blind_mapLoad map.id) fun _ => paired_bind (paired_need _) fun k =>
        paired_bind (blind_derefMap k) fun _ => paired_pure _) fun packet =>
          blind_writeSession s packet

theorem blind_mapAddPlayer (m p : ℕ) : Blind b (mapAddPlayer defs m p) :=
  paired_bind (blind_playerRef p) fun _ => paired_bind (blind_updateMap m _) fun _ =>
    paired_bind (blind_derefMap m) fun map => paired_bind (blind_mapLoad map.id) fun _ =>
      blind_updatePlayer p _

theorem blind_unlinkPlayer (m p : ℕ) : Blind b (unlinkPlayer defs m p) :=
  paired_bind (blind_derefMap m) fun _ => paired_ite
    (paired_bind (blind_modify (fun _ _ _ => rfl) fun _ _ => rfl) fun _ =>
      paired_bind (blind_playerFree p) fun _ => paired_pure true) (paired_pure false)

theorem blind_sendLeaving (m : ℕ) (packet : ServerPacket) (removed : Bool) :
    Blind b (sendLeaving m packet removed) :=
  paired_ite (paired_bind (blind_derefMap m) fun _ =>
    paired_forEach fun p _ => blind_writeToPlayer packet p) (paired_pure ())

theorem blind_mapRemovePlayer : ∀ (m : Option ℕ) (p : ℕ), Blind b (mapRemovePlayer defs m p)
  | none, _ => paired_pure ()
  | some m, p => paired_bind (blind_unlinkPlayer m p) fun removed =>
      paired_bind (blind_derefPlayer p) fun _ => paired_bind (paired_need _) fun id =>
        blind_sendLeaving m (.leavingMap id) removed

theorem blind_toggleCoord (m : ℕ) (x y : ℤ) (disable : Bool) :
    Blind b (toggleCoord m x y disable) :=
  paired_bind (blind_derefMap m) fun _ => paired_bind (paired_need _) fun _ =>
    paired_bind (blind_modify (fun _ _ _ => rfl) fun _ _ => rfl) fun _ => paired_pure _

theorem blind_changeMap (oldMap : Option ℕ) (p : ℕ) : ∀ m : Option ℕ,
    Blind b (changeMap defs oldMap p m)
  | none => paired_pure ()
  | some m => paired_bind (blind_mapRemovePlayer oldMap p) fun _ => blind_mapAddPlayer m p

theorem blind_moveValid (p : ℕ) (x y : ℤ) : ∀ m : Option ℕ, Blind b (moveValid p x y m)
  | none => paired_bind (blind_derefPlayer p) fun _ => paired_pure _
  | some _ => paired_pure true

theorem blind_enableOldCoord (p : ℕ) : ∀ m : Option ℕ, Blind b (enableOldCoord p m)
  | none => paired_pure true
  | some m => paired_bind (blind_derefPlayer p) fun _ => blind_toggleCoord m _ _ false

theorem blind_announce (p : ℕ) : Blind b (announce p) :=
  paired_bind (blind_derefPlayer p) fun _ => blind_mapSendPacket _ _

theorem blind_sendPosition (p q : ℕ) : Blind b (sendPosition p q) :=
  paired_ite (paired_pure ()) (paired_bind (blind_derefPlayer q) fun _ =>
    paired_bind (paired_need _) fun packet => blind_writeToPlayer packet p)

section Circle

variable {spawn : ℤ → ℕ → ℤ → ℤ → ℤ → Exec World ℤ}

theorem blind_mapEventActivate
    (hspawn : ∀ id p x y suppress, Blind b (spawn id p x y suppress)) (x y : ℤ) (m p : ℕ) :
    Blind b (mapEventActivate defs spawn x y m p) := by
  have hevent : ∀ e : MapEvent, Blind b (eventFunc spawn p e) := by
    intro e
    unfold eventFunc
    cases e.func with
    | changeMap =>
      exact paired_bind (paired_need _) fun _ => paired_bind (paired_need _) fun _ =>
        paired_bind (paired_need _) fun _ => paired_bind (paired_need _) fun _ =>
          paired_bind (hspawn _ p _ _ _) fun _ => paired_pure ()
    | _ => exact paired_bind (blind_derefPlayer p) fun _ => paired_pure ()
  refine paired_bind (blind_derefMap m) fun map => paired_bind (blind_mapLoad map.id)
    fun loaded => paired_bind (paired_forEach fun e _ => ?_) fun _ => ?_
  · exact paired_bind (blind_derefMap m) fun _ => paired_ite (hevent e) (paired_pure ())
  · cases loaded with
    | none => exact paired_pure ()
    | some k => exact paired_bind (blind_derefMap k) fun _ => blind_mapUnload _

variable {activate : ℤ → ℤ → ℕ → ℕ → Exec World Unit}

theorem blind_playerMoveWith (hactivate : ∀ x y m p, Blind b (activate x y m p)) (p : ℕ)
    (x y : ℤ) (args : MoveArgs) : Blind b (playerMoveWith defs activate p x y args) := by
  have hmoveTo : Blind b (moveTo activate p x y args.suppressEvents) :=
    paired_bind (blind_updatePlayer p _) fun _ => paired_bind
      (paired_ite (paired_pure ()) (paired_bind (blind_derefPlayer p) fun _ =>
        paired_bind (paired_need _) fun m => hactivate x y m p)) fun _ => blind_announce p
  have hmoveFrom : ∀ oldMap, Blind b (moveFrom activate oldMap p x y args) := fun oldMap =>
    paired_bind (blind_enableOldCoord p oldMap) fun _ =>
      paired_ite (paired_bind hmoveTo fun _ => paired_pure true) (paired_pure false)
  have hwithin : ∀ oldMap, Blind b (moveWithin activate oldMap p x y args) := fun oldMap =>
    paired_bind (blind_derefPlayer p) fun _ => paired_bind (paired_need _) fun m =>
      paired_bind (blind_derefMap m) fun _ => paired_ite
        (paired_bind (blind_toggleCoord m x y true) fun _ =>
          paired_ite (hmoveFrom oldMap) (paired_pure false)) (paired_pure false)
  exact paired_bind (blind_derefPlayer p) fun player =>
    paired_bind (blind_changeMap player.map p args.map) fun _ =>
      paired_bind (blind_moveValid p x y args.map) fun _ =>
        paired_ite (hwithin player.map) (paired_pure false)

variable {move : ℕ → ℤ → ℤ → MoveArgs → Exec World Bool}

theorem blind_mapSpawnPlayerWith (hmove : ∀ p x y args, Blind b (move p x y args)) (id : ℤ)
    (p : ℕ) (x y suppress : ℤ) : Blind b (mapSpawnPlayerWith defs move id p x y suppress) :=
  paired_ite (paired_pure 0) (paired_bind (blind_mapLoad id) fun loaded =>
    paired_bind (blind_derefPlayer p) fun player =>
      paired_bind (blind_mapSendMapPacket loaded player.session) fun _ =>
        paired_bind (hmove p x y _) fun _ => paired_bind (paired_need loaded) fun m =>
          paired_bind (paired_bind (blind_derefMap m) fun _ =>
            paired_forEach fun q _ => blind_sendPosition p q) fun _ => paired_pure 1)

end Circle

theorem blind_mapSpawnPlayer (fuel : ℕ) : ∀ id p x y suppress,
    Blind b (mapSpawnPlayer defs fuel id p x y suppress) := by
  induction fuel with
  | zero => exact fun _ _ _ _ _ => paired_stop _ _
  | succ fuel ih =>
    exact blind_mapSpawnPlayerWith (blind_playerMoveWith (blind_mapEventActivate ih))

theorem blind_playerMove (fuel : ℕ) (p : ℕ) (x y : ℤ) (args : MoveArgs) :
    Blind b (playerMove defs fuel p x y args) :=
  blind_playerMoveWith (blind_mapEventActivate (blind_mapSpawnPlayer fuel)) p x y args

/-! ## Requests -/

theorem blind_readField (p : ℕ) (field : String × Db.Bson) :
    Blind b (readField defs p field) :=
  paired_ite (paired_bind (paired_need _) fun _ => blind_updatePlayer p _)
    (paired_ite (paired_bind (paired_need _) fun _ => blind_updatePlayer p _)
      (paired_ite (paired_bind (blind_mapLoad _) fun _ => blind_updatePlayer p _)
        (paired_ite (blind_updatePlayer p _) (paired_ite (blind_updatePlayer p _)
          (paired_ite (blind_updatePlayer p _) (paired_pure ()))))))

theorem blind_dbPlayerGetPlayer (id : Authentication.CString) :
    Blind b (dbPlayerGetPlayer defs id) := by
  refine paired_bind (blind_playerCacheFind id) fun cached => ?_
  cases cached with
  | some p => exact paired_pure (some p)
  | none =>
    refine blind_get (fun _ _ _ => rfl) fun w => ?_
    cases Db.findById id w.playerdata with
    | none => exact paired_pure none
    | some doc =>
      refine paired_bind (blind_get (fun _ _ _ => rfl) fun _ => paired_bind
        (blind_modify (fun _ _ _ => rfl) fun _ _ => rfl) fun _ => paired_pure _) fun p => ?_
      exact paired_bind (paired_forEach fun field _ => blind_readField p field) fun _ =>
        paired_pure (some p)

theorem blind_loginPlayer (fuel : ℕ) (packet : Packet) (code : Authentication.CString)
    (s p : ℕ) : Blind b (loginPlayer defs fuel packet code s p) := by
  refine paired_bind (blind_updatePlayer p _) fun _ =>
    paired_bind (blind_updateSession s fun _ => rfl) fun _ =>
      paired_bind (blind_onTable _) fun _ => paired_bind (blind_derefPlayer p) fun player =>
        paired_bind (paired_need _) fun m => paired_bind (blind_derefMap m) fun map =>
          paired_bind_of (blind_mapSpawnPlayer fuel map.id p player.x player.y 1)
            (fun _ _ _ h => mapSpawnPlayer_ne h) fun r hr => ?_
  rw [loginReply, if_neg hr]
  exact paired_pure _

theorem blind_packetHandleLogin (fuel : ℕ) (packet : Packet) (s : ℕ) :
    Blind b (packetHandleLogin defs fuel packet s) := by
  refine paired_bind (paired_need _) fun code => paired_bind (blind_onTable _) fun found => ?_
  cases found with
  | none =>
    -- Both servers set the same error number.
    refine paired_bind (fun w v u w' hR h => ?_) fun _ => paired_pure none
    rw [modify_eq_ok] at h
    subst h
    exact ⟨_, rfl, hR.setErrno _ _⟩
  | some c =>
    refine blind_get (fun _ _ _ => rfl) fun w => paired_bind (paired_need _) fun id =>
      paired_bind (blind_dbPlayerGetPlayer id) fun found =>
        paired_bind (blind_updateSession s fun _ => rfl) fun _ => ?_
    cases found with
    | none => exact paired_pure _
    | some p => exact blind_loginPlayer fuel packet code s p

theorem blind_packetHandleMove (fuel : ℕ) (packet : Packet) (s : ℕ) :
    Blind b (packetHandleMove defs fuel packet s) :=
  paired_bind (paired_need _) fun x => paired_bind (paired_need _) fun y =>
    paired_bind (blind_derefSession s) fun _ => paired_bind (paired_need _) fun p =>
      paired_bind (blind_playerMove fuel p x y MoveArgs.zero) fun _ =>
        paired_ite (paired_pure none) (paired_pure _)

theorem blind_packetHandleInspectPlayer (packet : Packet) :
    Blind b (packetHandleInspectPlayer defs packet) := by
  refine paired_bind (blind_dbPlayerGetPlayer _) fun found => ?_
  cases found with
  | none => exact paired_pure _
  | some p =>
    exact paired_bind (blind_derefPlayer p) fun _ => paired_bind (paired_need _) fun _ =>
      paired_pure _

/-- **Every handler** keeps twins. -/
theorem blind_packetHandleRoute (fuel : ℕ) (packet : Packet) (s : ℕ) :
    Blind b (packetHandleRoute defs fuel packet s) :=
  paired_ite (paired_stop _ _) (paired_ite (blind_packetHandleLogin fuel packet s)
    (paired_ite (paired_stop _ _) (paired_ite (blind_packetHandleMove fuel packet s)
      (paired_ite (blind_packetHandleInspectPlayer packet) (paired_pure none)))))

theorem blind_respond (s : ℕ) : ∀ response : Option ServerPacket, Blind b (respond s response)
  | none => paired_pure ()
  | some response => blind_writeSession s response

end World
end MmoBackend
