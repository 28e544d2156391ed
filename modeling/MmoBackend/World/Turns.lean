import MmoBackend.World.Login

/-!
# What a request comes down to

Around the handlers the event loop only looks at the session and writes to sockets.  So a
request is one call, the rest is what is written in front of it and behind it: `Turn` has
a case for each call.  What a call preserves, a request preserves.
-/

namespace MmoBackend

open Authentication Bytes Communication Db Maps Player

namespace World

variable {defs : MapDefs} {w w' : World} {fuel s : ℕ} {packet : Packet} {session : Session}

/-- The id in an inspect packet. -/
def inspectedId (packet : Packet) : CString :=
  (packet.data.take packet.length.toNat).takeWhile fun b => b ≠ 0

/-- **A request**, as the call it makes in the state `w`. -/
inductive Turn (defs : MapDefs) (w : World) : Request → World → Prop
  | connect {fd : ℕ} :
      Turn defs w (.connect fd) { w with sessions := w.sessions.alloc ⟨fd, .disabled, none⟩ }
  | token {token id : CString} {now : ℕ} (t : AwaitingTable) :
      Turn defs w (.token token id now) (w.setTable t)
  /-- The session may not send the packet. -/
  | badState {s : ℕ} {packet : Packet} {session : Session} (l : List (ℕ × Sent)) :
      w.sessions.get s = some session → sessionVerifyPacket session packet = false →
      Turn defs w (.packet s packet) (w.emit l)
  | login {fuel s : ℕ} {packet : Packet} {session : Session} {r : Option ServerPacket}
      {v : World} {l : List (ℕ × Sent)} (l' : List (ℕ × Sent)) :
      w.sessions.get s = some session → session.state = .disabled →
      packet.opcode = loginPacket → LoginEnds defs fuel packet s session (w.emit l) r v →
      Turn defs w (.packet s packet) (v.emit l')
  | move {fuel s q : ℕ} {packet : Packet} {session : Session} {x y : ℤ} {moved : Bool}
      {v : World} {l : List (ℕ × Sent)} (l' : List (ℕ × Sent)) :
      w.sessions.get s = some session → session.state = .roaming → session.player = some q →
      packet.opcode = movePacket → intAt packet.data 0 = some x → intAt packet.data 4 = some y →
      playerMove defs fuel q x y .zero (w.emit l) = .ok (moved, v) →
      Turn defs w (.packet s packet) (v.emit l')
  | inspect {s : ℕ} {packet : Packet} {session : Session} {found : Option ℕ} {v : World}
      {l : List (ℕ × Sent)} (l' : List (ℕ × Sent)) :
      w.sessions.get s = some session → session.state = .roaming →
      packet.opcode = inspectPlayerPacket →
      dbPlayerGetPlayer defs (inspectedId packet) (w.emit l) = .ok (found, v) →
      Turn defs w (.packet s packet) (v.emit l')

/-- A move request is a move. -/
theorem packetHandleMove_turn {r : Option ServerPacket}
    (hs : w.sessions.get s = some session)
    (h : packetHandleMove defs fuel packet s w = .ok (r, w')) :
    ∃ x y q moved, intAt packet.data 0 = some x ∧ intAt packet.data 4 = some y ∧
      session.player = some q ∧ playerMove defs fuel q x y .zero w = .ok (moved, w') := by
  simp only [packetHandleMove, Exec.bind_eq_ok, Exec.need_eq_ok, derefSession_eq_ok] at h
  obtain ⟨x, _, ⟨hx, rfl⟩, y, _, ⟨hy, rfl⟩, session', _, ⟨hs', rfl⟩, q, _, ⟨hq, rfl⟩, moved, v,
    hmove, hreply⟩ := h
  obtain rfl := Option.some.inj (hs.symm.trans hs')
  rw [Exec.ite_eq_ok, Exec.pure_eq_ok, Exec.pure_eq_ok] at hreply
  obtain ⟨-, -, rfl⟩ | ⟨-, -, rfl⟩ := hreply
  · exact ⟨x, y, q, moved, hx, hy, hq, hmove⟩
  · exact ⟨x, y, q, moved, hx, hy, hq, hmove⟩

/-- An inspect request is a look into the database. -/
theorem packetHandleInspectPlayer_turn {r : Option ServerPacket}
    (h : packetHandleInspectPlayer defs packet w = .ok (r, w')) :
    ∃ found, dbPlayerGetPlayer defs (inspectedId packet) w = .ok (found, w') := by
  simp only [packetHandleInspectPlayer, Exec.bind_eq_ok] at h
  obtain ⟨found, v, hget, hreply⟩ := h
  cases found with
  | none =>
    obtain ⟨-, rfl⟩ := Exec.pure_eq_ok.mp hreply
    exact ⟨none, hget⟩
  | some q =>
    simp only [inspectReply, Exec.bind_eq_ok, derefPlayer_eq_ok, Exec.need_eq_ok,
      Exec.pure_eq_ok] at hreply
    obtain ⟨_, _, ⟨-, rfl⟩, _, _, ⟨-, rfl⟩, -, rfl⟩ := hreply
    exact ⟨some q, hget⟩

/-- **Every step of the server** is a request of one of these kinds. -/
theorem Step.turn {a : Request} (hcache : w.cache = []) (h : Step defs w a w') :
    Turn defs w a w' := by
  cases h with
  | connect _ hcreate =>
    obtain rfl := sessionCreate_eq_ok hcreate
    exact .connect
  | token hinsert =>
    obtain ⟨t, -, rfl⟩ := onTable_eq_ok.mp hinsert
    exact .token t
  | @packet _ s fuel packet hloop =>
    obtain ⟨session, hs, ⟨hverify, rfl⟩ | ⟨hverify, r, w₁, hroute, hrespond⟩⟩ :=
      eventLoop_eq_ok hloop
    · exact .badState _ hs hverify
    · obtain ⟨l', rfl, -⟩ := respond_emit hrespond
      cases hstate : session.state with
      | disabled =>
        have hop := opcode_of_disabled hverify hstate
        rw [packetHandleRoute_login hop] at hroute
        exact .login l' hs hstate hop (packetHandleLogin_ends hcache hs hroute)
      | roaming =>
        rcases opcode_of_roaming hverify hstate with hop | hop
        · rw [packetHandleRoute_move hop] at hroute
          obtain ⟨x, y, q, moved, hx, hy, hq, hmove⟩ :=
            packetHandleMove_turn (w := w.emit _) hs hroute
          exact .move l' hs hstate hq hop hx hy hmove
        · rw [packetHandleRoute_inspect hop] at hroute
          obtain ⟨found, hget⟩ := packetHandleInspectPlayer_turn hroute
          exact .inspect l' hs hstate hop hget

end World
end MmoBackend
