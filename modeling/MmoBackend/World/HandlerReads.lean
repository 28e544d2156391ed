import MmoBackend.Communication.Reencoding
import MmoBackend.World.Server

/-!
# How far the handlers read

`packet_read` copies the body of a packet and puts a zero byte behind it, so the positions
`0` to `length` of the data are there, and none behind them.  Each handler reads the data in
its own way: the login takes a string, the inspect request takes at most `length` bytes, and
the move takes two numbers of four bytes.

The model has only the bytes that are there, and a read behind them is a fault.  In memory
there is something behind them, `Packet.followedBy`.  A handler that stays inside the packet
does the same whatever that is, and whether there is anything.  The first two handlers do:
the string ends at the zero byte at the latest.  The third looks at eight bytes and never at
the length.
-/

namespace MmoBackend

open Bytes Communication Db Exec Maps Networking Player

namespace Communication

/-- The packet with other bytes behind its data in memory. -/
def Packet.followedBy (packet : Packet) (behind : List UInt8) : Packet :=
  { packet with
    data := packet.data ++ behind
    length_le := by
      rw [List.length_append]
      exact Nat.le_add_right_of_le packet.length_le }

/-- The data of a packet that was read: `length` bytes and a zero byte. -/
theorem TakenFrom.data_eq {frame : WSFrame} {payload : List UInt8} {packet : Packet}
    (h : TakenFrom frame payload packet) :
    0 ∈ packet.data ∧ packet.data.length = packet.length.toNat + 1 := by
  constructor
  · simp [h.body]
  · rw [h.body, h.length, List.length_append, List.length_drop, List.length_singleton]

end Communication

namespace World

variable (defs : MapDefs)

/-- Whatever the state of the server, as long as the session is in `state` and the state
allows the packet, the handler does not depend on what lies behind the data. -/
def HandledInside (state : SessionState) (packet : Packet) : Prop :=
  ∀ (w : World) (s : ℕ) (session : Session), w.sessions.get s = some session →
    session.state = state → sessionVerifyPacket session packet = true →
    ∀ (fuel : ℕ) (behind : List UInt8),
      packetHandleRoute defs fuel (packet.followedBy behind) s w
        = packetHandleRoute defs fuel packet s w

/-! ## The three ways of reading -/

section Reads

variable {memory behind : List UInt8} {offset : ℕ}

/-- A string ends at its zero byte. -/
theorem cString_append (h : 0 ∈ memory) : cString (memory ++ behind) = cString memory := by
  have htake : ∀ l : List UInt8, 0 ∈ l →
      (l ++ behind).takeWhile (fun b => b ≠ 0) = l.takeWhile fun b => b ≠ 0 := by
    intro l hl
    induction l with
    | nil => exact absurd hl List.not_mem_nil
    | cons b l ih =>
      by_cases hb : b = 0
      · simp [hb]
      · have hl' : 0 ∈ l := (List.mem_cons.mp hl).resolve_left fun h0 => hb h0.symm
        simpa [hb] using ih hl'
  rw [cString, cString, if_pos h, if_pos (List.mem_append_left behind h), htake memory h]

theorem intAt_append (h : offset + 4 ≤ memory.length) :
    intAt (memory ++ behind) offset = intAt memory offset := by
  rw [intAt, intAt, if_pos h, if_pos (by rw [List.length_append]; omega),
    List.drop_append_of_le_length (by omega),
    List.take_append_of_le_length (by rw [List.length_drop]; omega)]

end Reads

/-! ## The handlers -/

section Handlers

variable {defs} {packet : Packet} {fuel s : ℕ} {behind : List UInt8} {w : World}

theorem packetHandleLogin_followedBy (h : 0 ∈ packet.data) :
    packetHandleLogin defs fuel (packet.followedBy behind) s
      = packetHandleLogin defs fuel packet s := by
  have hcode : cString (packet.followedBy behind).data = cString packet.data := cString_append h
  rw [packetHandleLogin, packetHandleLogin, hcode]
  rfl

theorem packetHandleMove_followedBy (h : 8 ≤ packet.data.length) :
    packetHandleMove defs fuel (packet.followedBy behind) s
      = packetHandleMove defs fuel packet s := by
  have hx : intAt (packet.followedBy behind).data 0 = intAt packet.data 0 :=
    intAt_append (by omega)
  have hy : intAt (packet.followedBy behind).data 4 = intAt packet.data 4 := intAt_append h
  rw [packetHandleMove, packetHandleMove, hx, hy]
  rfl

theorem packetHandleInspectPlayer_followedBy :
    packetHandleInspectPlayer defs (packet.followedBy behind)
      = packetHandleInspectPlayer defs packet := by
  have hid : (packet.followedBy behind).data.take (packet.followedBy behind).length.toNat
      = packet.data.take packet.length.toNat :=
    List.take_append_of_le_length packet.length_le
  rw [packetHandleInspectPlayer, packetHandleInspectPlayer, hid]
  rfl

/-- A move of fewer than eight bytes reads where nothing is. -/
theorem packetHandleMove_short (h : packet.data.length < 8) :
    packetHandleMove defs fuel packet s w = .error .fault := by
  have hy : intAt packet.data 4 = none := if_neg (by omega)
  rw [packetHandleMove]
  cases intAt packet.data 0 with
  | none => exact need_none_bind _
  | some x => rw [need_some_bind, hy, need_none_bind]

end Handlers

/-! ## A short move -/

/-- A server with one session, whose player may not move. -/
def immobile (x y : ℤ) : World :=
  { boot [] with
    players := Heap.empty.alloc ⟨x, y, 0, -1, 1, none, none, none, none⟩
    sessions := Heap.empty.alloc ⟨0, .roaming, some 0⟩ }

/-- The move is answered, as it should be. -/
theorem packetHandleMove_immobile {fuel : ℕ} {packet : Packet} {x y : ℤ}
    (hx : intAt packet.data 0 = some x) (hy : intAt packet.data 4 = some y) :
    packetHandleMove defs fuel packet 0 (immobile x y)
      = .ok (some (.failure packet.id), immobile x y) := by
  have hfar : movementCheckValid (-1) x y x y = false := by
    simp [movementCheckValid, movementCountDistance, wrap32]
  have hmove : playerMove defs fuel 0 x y MoveArgs.zero (immobile x y)
      = .ok (false, immobile x y) := by
    have hplayer : derefPlayer 0 (immobile x y)
        = .ok (⟨x, y, 0, -1, 1, none, none, none, none⟩, immobile x y) := rfl
    have hvalid : moveValid 0 x y none (immobile x y) = .ok (false, immobile x y) := by
      rw [moveValid, bind_of_ok hplayer, hfar]
      rfl
    have hchange : changeMap defs none 0 none (immobile x y) = .ok ((), immobile x y) := rfl
    rw [playerMove, playerMoveWith, bind_of_ok hplayer]
    exact (bind_of_ok hchange).trans (bind_of_ok hvalid)
  have hsession : derefSession 0 (immobile x y) = .ok (⟨0, .roaming, some 0⟩, immobile x y) := rfl
  rw [packetHandleMove, hx, need_some_bind, hy, need_some_bind, bind_of_ok hsession,
    need_some_bind, bind_of_ok hmove]
  rfl

/-- **A move with fewer than eight bytes of data** does not stay inside its packet. -/
theorem not_handledInside_move {packet : Packet} (hop : packet.opcode = movePacket)
    (h : packet.data.length < 8) : ¬HandledInside defs .roaming packet := by
  intro hinside
  have hlen : ((packet.followedBy (List.replicate 8 0)).data).length = packet.data.length + 8 := by
    simp [Packet.followedBy]
  obtain ⟨x, hx⟩ : ∃ x, intAt (packet.followedBy (List.replicate 8 0)).data 0 = some x :=
    ⟨_, if_pos (by omega)⟩
  obtain ⟨y, hy⟩ : ∃ y, intAt (packet.followedBy (List.replicate 8 0)).data 4 = some y :=
    ⟨_, if_pos (by omega)⟩
  have hverify : sessionVerifyPacket ⟨0, .roaming, some 0⟩ packet = true := by
    rw [sessionVerifyPacket, hop]
    decide
  have hsame := hinside (immobile x y) 0 ⟨0, .roaming, some 0⟩ rfl rfl hverify 0
    (List.replicate 8 0)
  have hop' : (packet.followedBy (List.replicate 8 0)).opcode = movePacket := hop
  rw [packetHandleRoute_move hop, packetHandleRoute_move hop', packetHandleMove_short h,
    packetHandleMove_immobile defs hx hy] at hsame
  exact absurd hsame (by simp)

/-! ## Which packets are handled inside -/

/-- **When a handler stays inside the packet.**  Of the packets that `packet_read` returns
and the state of the session allows, exactly the moves with fewer than seven bytes of data
are read behind their end. -/
theorem packetHandleRoute_inside_iff {g : Garbage} {t t' : Arrivals UInt8} {packet : Packet}
    (hread : packetRead g t = .ok (some packet, t')) (state : SessionState) :
    HandledInside defs state packet ↔
      (state = .roaming → packet.opcode = movePacket → 7 ≤ packet.length.toNat) := by
  obtain ⟨frame, payload, htaken⟩ := exists_takenFrom hread
  obtain ⟨hzero, hlen⟩ := htaken.data_eq
  constructor
  · rintro hinside rfl hop
    by_contra hshort
    exact not_handledInside_move defs hop (by omega) hinside
  · rintro hlong w s session hsession rfl hverify fuel behind
    have hopcode : (packet.followedBy behind).opcode = packet.opcode := rfl
    have hallowed : packet.opcode ∈ sessionValidPackets session.state :=
      of_decide_eq_true hverify
    cases hstate : session.state with
    | disabled =>
      rw [hstate] at hallowed
      have hop : packet.opcode = loginPacket := List.mem_singleton.mp hallowed
      rw [packetHandleRoute_login hop, packetHandleRoute_login (hopcode.trans hop)]
      exact congrFun (packetHandleLogin_followedBy hzero) w
    | roaming =>
      rw [hstate] at hallowed
      rcases List.mem_cons.mp hallowed with hop | hop
      · rw [packetHandleRoute_move hop, packetHandleRoute_move (hopcode.trans hop)]
        have hmove := hlong hstate hop
        exact congrFun (packetHandleMove_followedBy (by omega)) w
      · have hop' : packet.opcode = inspectPlayerPacket := List.mem_singleton.mp hop
        rw [packetHandleRoute_inspect hop', packetHandleRoute_inspect (hopcode.trans hop')]
        exact congrFun packetHandleInspectPlayer_followedBy w

/-- A move with its eight bytes is handled inside. -/
theorem packetHandleRoute_inside_iff_movePayload : ∃ packet t,
    packetRead zeroGarbage (onTheSocket movePayload) = .ok (some packet, t) ∧
      HandledInside mapLoaders .roaming packet := by
  obtain ⟨frame, packet, t, hread, hdata, hpacket⟩ :=
    packetRead_onTheSocket (by decide : packetSize ≤ movePayload.length) (by decide)
  refine ⟨packet, t, hpacket,
    (packetHandleRoute_inside_iff mapLoaders hpacket .roaming).mpr fun _ _ => ?_⟩
  rw [(takenFrom_of_packetRead hread hdata hpacket).1.length]
  decide

/-- A move without data. -/
def emptyMovePayload : List UInt8 := [5, 1, 0, 0, 0, 0, 0, 0, 0]

/-- **A move without data** is read, and its handler looks for eight bytes. -/
theorem not_handledInside_emptyMove :
    ¬∀ (g : Garbage) (t t' : Arrivals UInt8) (packet : Packet) (state : SessionState),
      packetRead g t = .ok (some packet, t') → HandledInside mapLoaders state packet := by
  intro h
  obtain ⟨frame, packet, t, hread, hdata, hpacket⟩ :=
    packetRead_onTheSocket (by decide : packetSize ≤ emptyMovePayload.length) (by decide)
  obtain ⟨htaken, -⟩ := takenFrom_of_packetRead hread hdata hpacket
  have hlength : packet.length.toNat = 0 := htaken.length
  have hlen : packet.data.length = packet.length.toNat + 1 := htaken.data_eq.2
  exact not_handledInside_move mapLoaders (Option.some.inj htaken.opcode).symm (by omega)
    (h _ _ _ _ _ hpacket)

end World
end MmoBackend
