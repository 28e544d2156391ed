import MmoBackend.Communication.PacketRead

/-!
# `packet.c`: flattening a packet that was read

A packet states its length twice on the wire: in the header of its frame, and in the bytes
5 to 8 of the payload.  `packet_flatten` writes both, `packet_read` looks at the first only.
It skips the field of the payload, so whatever stands there is accepted, and the packet that
comes out is as long as the frame says.

A payload is therefore reproduced exactly when its length field is right,
`packetFlatten_eq_iff`; the other fields are reproduced in any case.
-/

namespace MmoBackend
namespace Communication

open Bytes Networking

/-- The length field of a flattened packet: the bytes 5 to 8. -/
def lengthField (payload : List UInt8) : ℕ := leNat ((payload.drop 5).take 4)

variable {g : Garbage} {s t u : Arrivals UInt8} {frame : WSFrame} {payload : List UInt8}
  {packet : Packet}

/-- **The parts of a payload** that has room for a header. -/
theorem payload_eq (hroom : packetSize ≤ payload.length) {opcode : UInt8}
    (hopcode : payload[0]? = some opcode) :
    payload = [opcode] ++ (payload.drop 1).take 4 ++ (payload.drop 5).take 4 ++
      payload.drop packetSize := by
  have hsize : packetSize = 9 := rfl
  obtain ⟨first, rest, rfl⟩ := List.exists_cons_of_length_pos (by omega : 0 < payload.length)
  obtain rfl : first = opcode := Option.some.inj hopcode
  show first :: rest = first :: (rest.take 4 ++ (rest.drop 4).take 4 ++ rest.drop 8)
  have htail : rest.drop 8 = (rest.drop 4).drop 4 := by rw [List.drop_drop]
  rw [List.append_assoc, htail, List.take_append_drop, List.take_append_drop]

/-- Four bytes are written as they were read. -/
theorem leBytes_leNat_four (hroom : packetSize ≤ payload.length) {offset : ℕ}
    (hoffset : offset + 4 ≤ packetSize) :
    leBytes 4 (leNat ((payload.drop offset).take 4)) = (payload.drop offset).take 4 := by
  have hlen : ((payload.drop offset).take 4).length = 4 := by
    rw [List.length_take, List.length_drop]
    omega
  have hround := leBytes_leNat ((payload.drop offset).take 4)
  rwa [hlen] at hround

theorem lengthField_lt (hroom : packetSize ≤ payload.length) : lengthField payload < 2 ^ 32 := by
  have hlt := leNat_lt ((payload.drop 5).take 4)
  have hlen : ((payload.drop 5).take 4).length = 4 := by
    have hsize : packetSize = 9 := rfl
    rw [List.length_take, List.length_drop]
    omega
  rw [hlen] at hlt
  exact lt_of_lt_of_eq hlt (by norm_num)

/-- A packet that was taken out of a payload, flattened: only the length field may differ. -/
theorem TakenFrom.packetFlatten_eq (h : TakenFrom frame payload packet) :
    packetFlatten packet = [packet.opcode] ++ (payload.drop 1).take 4 ++
      leBytes 4 (payload.length - packetSize) ++ payload.drop packetSize := by
  have hid : leBytes 4 packet.id.toNat = (payload.drop 1).take 4 := by
    have hround : leBytes 4 (leNat ((payload.drop 1).take 4)) = (payload.drop 1).take 4 :=
      leBytes_leNat_four h.room (by decide)
    have hlt := leNat_lt ((payload.drop 1).take 4)
    have hlen : ((payload.drop 1).take 4).length ≤ 4 := List.length_take_le _ _
    have hpow : (256 : ℕ) ^ ((payload.drop 1).take 4).length ≤ 256 ^ 4 :=
      Nat.pow_le_pow_right (by decide) hlen
    rw [h.id, BitVec.toNat_ofNat, Nat.mod_eq_of_lt (by omega), hround]
  have hbody : packet.data.take (payload.length - packetSize) = payload.drop packetSize := by
    rw [h.body, List.take_left' (List.length_drop ..)]
  rw [packetFlatten, hid, h.length, hbody]

/-- Flattening writes the length of the frame into the length field, and leaves the rest. -/
theorem TakenFrom.packetFlatten_replaces (h : TakenFrom frame payload packet) :
    packetFlatten packet = payload.take 5 ++ leBytes 4 (payload.length - packetSize) ++
      payload.drop packetSize := by
  have hfront : payload.take 5 = [packet.opcode] ++ (payload.drop 1).take 4 := by
    obtain ⟨first, rest, rfl⟩ := List.exists_cons_of_ne_nil (List.ne_nil_of_length_pos
      (Nat.lt_of_lt_of_le (by decide : 0 < packetSize) h.room))
    obtain rfl : first = packet.opcode := Option.some.inj h.opcode
    rfl
  rw [h.packetFlatten_eq, hfront]

/-- **Which payloads are reproduced.** -/
theorem TakenFrom.reproduced_iff (h : TakenFrom frame payload packet)
    (hlt : payload.length < 2 ^ 32) :
    packetFlatten packet = payload ↔ lengthField payload = payload.length - packetSize := by
  have hpayload := payload_eq h.room h.opcode
  have hfield : leBytes 4 (lengthField payload) = (payload.drop 5).take 4 :=
    leBytes_leNat_four h.room (by decide)
  rw [h.packetFlatten_eq]
  constructor
  · intro heq
    have hsame := heq.trans hpayload
    rw [List.append_cancel_right_eq, List.append_cancel_left_eq] at hsame
    have hnat := congrArg leNat (hfield.trans hsame.symm)
    rw [leNat_leBytes, leNat_leBytes] at hnat
    have hfieldlt := lengthField_lt h.room
    omega
  · intro heq
    rw [← heq, hfield]
    exact hpayload.symm

/-- What `packet_read` returns was taken out of the payload of the frame it has read. -/
theorem takenFrom_of_packetRead (hread : wsReadFrame g s = .ok (some frame, u))
    (hdata : frame.data = some payload) (h : packetRead g s = .ok (some packet, t)) :
    TakenFrom frame payload packet ∧ payload.length < 2 ^ 32 := by
  rw [packetRead, Exec.bind_of_ok hread, Exec.need_some_bind, Exec.ite_eq_ok] at h
  rcases h with ⟨-, h⟩ | ⟨-, h⟩
  · exact absurd (Exec.pure_eq_ok.mp h).1 (Option.some_ne_none packet).symm
  · -- the body has the size that the frame announces
    have hout := frameOutcome g s
    rw [hread] at hout
    cases hout with
    | read _ _ _ hannounced =>
      have hsize : wsLength frame = payload.length := by
        rw [hannounced.size]
        by_cases hzero : (announcement g s).size = 0
        · exact absurd (hdata.symm.trans (hannounced.empty hzero)) (Option.some_ne_none payload)
        · obtain ⟨payload', hdata', hlen⟩ := hannounced.body hzero
          rw [← hlen, Option.some.inj (hdata.symm.trans hdata')]
      have hlt : payload.length < 2 ^ 32 := by
        rw [← hsize, hannounced.size]
        exact hannounced.lt
      have hroom : packetSize ≤ payload.length := by
        by_contra hshort
        rw [packetOfFrame_short hdata hsize (Nat.lt_of_not_le hshort)] at h
        exact absurd h (by simp)
      obtain ⟨found, hfound, htaken⟩ := packetOfFrame_read (s := u) hdata hsize hroom hlt
      obtain ⟨hsame, -⟩ := Prod.mk.inj (Except.ok.inj (hfound.symm.trans h))
      rw [← Option.some.inj hsame]
      exact ⟨htaken, hlt⟩

/-- Every packet that is read is taken out of some frame. -/
theorem exists_takenFrom (h : packetRead g s = .ok (some packet, t)) :
    ∃ frame payload, TakenFrom frame payload packet := by
  have hparts := h
  rw [packetRead, Exec.bind_eq_ok] at hparts
  obtain ⟨found, u, hread, hparts⟩ := hparts
  rw [Exec.bind_eq_ok] at hparts
  obtain ⟨frame, v, hfound, hparts⟩ := hparts
  obtain ⟨rfl, rfl⟩ := Exec.need_eq_ok.mp hfound
  rw [Exec.ite_eq_ok] at hparts
  rcases hparts with ⟨-, hnone⟩ | ⟨-, hpacket⟩
  · exact absurd (Exec.pure_eq_ok.mp hnone).1 (Option.some_ne_none packet).symm
  rw [packetOfFrame, Exec.bind_eq_ok] at hpacket
  obtain ⟨payload, w, hdata, -⟩ := hpacket
  exact ⟨frame, payload,
    (takenFrom_of_packetRead hread (Exec.need_eq_ok.mp hdata).1 h).1⟩

/-- **Flattening what was read.**  Whatever is on the socket and however it arrives: of a
frame from which `packet_read` returns a packet, the packet is flattened to the payload with
the length of its data in the length field.  This is the payload, and the length field of the
payload is the packet's length, exactly when that field is nine less than the length of the
payload. -/
theorem packetFlatten_eq_iff (hread : wsReadFrame g s = .ok (some frame, u))
    (hdata : frame.data = some payload) (h : packetRead g s = .ok (some packet, t)) :
    packetFlatten packet = payload.take 5 ++ leBytes 4 (payload.length - 9) ++ payload.drop 9 ∧
      ((packetFlatten packet = payload ∧ lengthField payload = packet.length.toNat) ↔
        lengthField payload = payload.length - 9) := by
  obtain ⟨htaken, hlt⟩ := takenFrom_of_packetRead hread hdata h
  refine ⟨htaken.packetFlatten_replaces, ?_⟩
  rw [htaken.reproduced_iff hlt, htaken.length]
  exact and_self_iff

/-- A move of two coordinates, as a client of the standard flattens it. -/
def movePayload : List UInt8 := [5, 1, 0, 0, 0, 8, 0, 0, 0, 3, 0, 0, 0, 4, 0, 0, 0]

/-- The same move with the length field in the network order. -/
def swappedPayload : List UInt8 := [5, 1, 0, 0, 0, 0, 0, 0, 8, 3, 0, 0, 0, 4, 0, 0, 0]

/-- The payload in one masked frame. -/
def onTheSocket (payload : List UInt8) : Arrivals UInt8 :=
  Arrivals.ofList (Rfc6455.encode (maskedFrame (Vector.replicate 4 7) payload))

/-- A payload with room for a header is read from the socket. -/
theorem packetRead_onTheSocket (hroom : packetSize ≤ payload.length)
    (hshort : payload.length < 32768) :
    ∃ frame packet t, wsReadFrame zeroGarbage (onTheSocket payload) = .ok (some frame, t) ∧
      frame.data = some payload ∧
      packetRead zeroGarbage (onTheSocket payload) = .ok (some packet, t) := by
  obtain ⟨frame, packet, t, hread, hpacket, htaken, -⟩ :=
    packetRead_maskedFrame zeroGarbage (Vector.replicate 4 7) hroom hshort
      (s := onTheSocket payload) (List.append_nil _).symm
  exact ⟨frame, packet, t, hread, htaken.data, hpacket⟩

theorem packetFlatten_eq_iff_movePayload :
    ∃ frame packet t, wsReadFrame zeroGarbage (onTheSocket movePayload) = .ok (some frame, t) ∧
      packetRead zeroGarbage (onTheSocket movePayload) = .ok (some packet, t) ∧
      packetFlatten packet = movePayload := by
  obtain ⟨frame, packet, t, hread, hdata, hpacket⟩ :=
    packetRead_onTheSocket (by decide : packetSize ≤ movePayload.length) (by decide)
  exact ⟨frame, packet, t, hread, hpacket,
    ((packetFlatten_eq_iff hread hdata hpacket).2.mpr (by decide)).1⟩

/-- **A payload that comes back changed.**  The packet of `swappedPayload` has a length of
8, and the length field says `8 * 2 ^ 24`. -/
theorem not_packetFlatten_eq :
    ¬∀ (g : Garbage) (s t u : Arrivals UInt8) (frame : WSFrame) (payload : List UInt8)
      (packet : Packet), wsReadFrame g s = .ok (some frame, u) → frame.data = some payload →
      9 ≤ payload.length → payload.length < 32768 → packetRead g s = .ok (some packet, t) →
      packetFlatten packet = payload ∧ lengthField payload = packet.length.toNat := by
  intro h
  obtain ⟨frame, packet, t, hread, hdata, hpacket⟩ :=
    packetRead_onTheSocket (by decide : packetSize ≤ swappedPayload.length) (by decide)
  obtain ⟨-, hfield⟩ := h _ _ _ _ _ _ _ hread hdata (by decide) (by decide) hpacket
  obtain ⟨htaken, -⟩ := takenFrom_of_packetRead hread hdata hpacket
  rw [htaken.length] at hfield
  exact absurd hfield (by decide)

end Communication
end MmoBackend
