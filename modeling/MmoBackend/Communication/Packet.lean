import MmoBackend.Library.Rfc6455
import MmoBackend.Networking.WebSocket

/-!
# `packet.c`: packets and their frames

A packet is an opcode, a 32-bit id and a 32-bit length, followed by that many
bytes of data.  `packetFlatten` lays it out for the wire and `packetWrite` sends
the result as one binary frame.

The standard reads the frames back only up to a point.  A body below `126` bytes
goes out with the 7-bit length and one below `32767` with the 16-bit length, both
as RFC 6455 has them.  From `32767` bytes on `ws_bin_frame` uses the 64-bit form
but fills it with `htonl`, so the number lands in the four *high* bytes of the
field, and a standard receiver waits for `n * 2 ^ 32` bytes that never come.
`decode_packetFrame_iff` is the exact statement.  The map packet carries
`width * height` bytes, so a large enough map reaches the third form.
-/

namespace MmoBackend
namespace Communication

open Bytes Networking

/-- `Packet`.  `data` is the memory the pointer refers to, which is at least as
long as the length the packet states. -/
structure Packet where
  opcode : UInt8
  id : BitVec 32
  length : BitVec 32
  data : List UInt8
  length_le : length.toNat ≤ data.length
  deriving DecidableEq

/-- `PACKET_SIZE`: the size of the packet header. -/
def packetSize : ℕ := 1 + 4 + 4

/-- `packet_flatten`. -/
def packetFlatten (packet : Packet) : List UInt8 :=
  [packet.opcode] ++ leBytes 4 packet.id.toNat ++ leBytes 4 packet.length.toNat ++
    packet.data.take packet.length.toNat

theorem length_packetFlatten (packet : Packet) :
    (packetFlatten packet).length = packetSize + packet.length.toNat := by
  have h := packet.length_le
  simp only [packetFlatten, List.length_append, List.length_singleton, length_leBytes,
    List.length_take, packetSize]
  omega

/-- The frame `packet_write` makes of a packet.  The sum is taken in 32 bits. -/
def packetFrame (junk : WSFrame) (packet : Packet) : WSFrame :=
  wsBinFrame junk (packetFlatten packet) ((packetSize + packet.length.toNat) % 2 ^ 32)

/-- `packet_write`: the buffers of its calls of `ws_write`, in order. -/
def packetWrite (junk : WSFrame) (packet : Packet) : List (List UInt8) :=
  wsWriteFrame (packetFrame junk packet)

/-! ## Which frames are standard -/

/-- Below `32767` bytes `ws_bin_frame` chooses the form the standard prescribes. -/
theorem frameBytes_eq_encode (junk : WSFrame) {data : List UInt8} {len : ℕ}
    (hdata : data.length = len) (hlen : len < 32767) :
    frameBytes (wsBinFrame junk data len) = Rfc6455.encode (Rfc6455.binary data) := by
  have h0 : UInt8.ofNat (Rfc6455.byte0 (Rfc6455.binary data)) = 0x82 := rfl
  have h1 : Rfc6455.byte1 (Rfc6455.binary data) = binLength7 len := by
    simp only [Rfc6455.byte1, Rfc6455.binary, Rfc6455.length7, binLength7, hdata,
      Option.isSome_none, Bool.toNat_false, Nat.zero_mul, Nat.zero_add, hlen, if_true,
      (by omega : len < 65536)]
  have hext : Rfc6455.lengthExt data.length = (binLengthExt len).flatten := by
    rw [hdata, Rfc6455.lengthExt, binLengthExt, if_pos hlen, if_pos (by omega : len < 65536)]
    split <;> simp
  have hbody : Rfc6455.wirePayload (Rfc6455.binary data) = data.take len := by
    rw [← hdata, List.take_length]
    rfl
  rw [frameBytes_wsBinFrame junk data (by omega), Rfc6455.encode, h0, h1, hbody,
    show (Rfc6455.binary data).payload = data from rfl, hext]
  rfl

/-- From `32767` bytes on the length field announces `n * 2 ^ 32` bytes, and the
frame is never complete. -/
theorem decode_frameBytes_eq_none (junk : WSFrame) {data : List UInt8} {len : ℕ}
    (hdata : data.length = len) (hge : 32767 ≤ len) (hlt : len < 2 ^ 32) :
    Rfc6455.decode (frameBytes (wsBinFrame junk data len)) = none := by
  have h7 : binLength7 len = 127 := by
    rw [binLength7, if_neg (by omega), if_neg (by omega)]
  have hext : (binLengthExt len).flatten = beBytes 4 len ++ [0, 0, 0, 0] := by
    rw [binLengthExt, if_neg (by omega), if_neg (by omega)]
    simp
  have hlen8 : (beBytes 4 len ++ [0, 0, 0, 0]).length = 8 := by simp
  have hval : beNat (beBytes 4 len ++ [0, 0, 0, 0]) = len * 2 ^ 32 := by
    have hbe : beNat (beBytes 4 len) = len :=
      beNat_beBytes_of_lt (lt_of_lt_of_eq hlt (by norm_num))
    have happ : beNat (beBytes 4 len ++ [0, 0, 0, 0]) = beNat (beBytes 4 len) * 2 ^ 32 := by
      simp only [beNat, List.reverse_append, List.reverse_cons, List.reverse_nil,
        List.nil_append, List.cons_append, leNat_cons, UInt8.toNat_ofNat]
      omega
    rw [happ, hbe]
  have hlength : Rfc6455.decodeLength 127 (beBytes 4 len ++ [0, 0, 0, 0] ++ data.take len)
      = if len * 2 ^ 32 < 2 ^ 63 then some (len * 2 ^ 32, data.take len) else none := by
    simp only [Rfc6455.decodeLength, List.take_left' hlen8, List.drop_left' hlen8, hval,
      List.length_append, hlen8]
    rw [if_neg (by decide), if_neg (by decide)]
    exact if_congr ⟨fun h => h.2.2, fun h => ⟨by omega, by omega, h⟩⟩ rfl rfl
  rw [frameBytes_wsBinFrame junk data hlt, h7, hext]
  refine Rfc6455.decode_eq_none_of_short fun n l' hdec => ?_
  have hmod : (UInt8.ofNat 127).toNat % 128 = 127 := by decide
  rw [hmod, hlength] at hdec
  split at hdec
  · rw [Option.some.injEq, Prod.mk.injEq] at hdec
    rw [← hdec.1, ← hdec.2, List.length_take]
    omega
  · exact absurd hdec (by simp)

/-- **The frames the standard reads back.**  The frame of a packet decodes as one
final, unmasked binary frame carrying the flattened packet exactly when the
flattened packet is shorter than `32767` bytes. -/
theorem decode_packetFrame_iff (junk : WSFrame) (packet : Packet)
    (hsize : packetSize + packet.length.toNat < 2 ^ 32) :
    Rfc6455.decode (frameBytes (packetFrame junk packet))
        = some (Rfc6455.binary (packetFlatten packet), []) ↔
      packetSize + packet.length.toNat < 32767 := by
  have hdata := length_packetFlatten packet
  rw [packetFrame, Nat.mod_eq_of_lt hsize]
  constructor
  · intro hdec
    by_contra hge
    rw [decode_frameBytes_eq_none junk hdata (not_lt.mp hge) hsize] at hdec
    exact absurd hdec (by simp)
  · intro hlt
    have hround := Rfc6455.decode_encode (Rfc6455.binary (packetFlatten packet))
      (by rw [show (Rfc6455.binary (packetFlatten packet)).payload = packetFlatten packet from rfl,
            hdata]; omega) []
    rw [List.append_nil] at hround
    rw [frameBytes_eq_encode junk hdata hlt, hround]

/-- The reply to a successful login. -/
def successPacket : Packet := ⟨3, 1, 0, [], by decide⟩

/-- It is read back. -/
theorem decode_packetFrame_success :
    Rfc6455.decode (frameBytes (packetFrame WSFrame.zero successPacket))
      = some (Rfc6455.binary (packetFlatten successPacket), []) :=
  (decode_packetFrame_iff WSFrame.zero successPacket (by decide)).mpr (by decide)

/-- The packet of a map of `256 * 128` cells: two 32-bit dimensions and a byte of
decor for each cell. -/
def largeMapPacket : Packet :=
  ⟨9, 0, 32776, leBytes 4 256 ++ leBytes 4 128 ++ List.replicate 32768 45, by
    rw [List.length_append, List.length_append, length_leBytes, length_leBytes,
      List.length_replicate]
    decide⟩

/-- **The packet of a large map is not read back at all.** -/
theorem decode_packetFrame_largeMap :
    9 ≤ packetSize + largeMapPacket.length.toNat ∧
      packetSize + largeMapPacket.length.toNat < 2 ^ 32 ∧
      Rfc6455.decode (frameBytes (packetFrame WSFrame.zero largeMapPacket))
        ≠ some (Rfc6455.binary (packetFlatten largeMapPacket), []) := by
  have hn : packetSize + largeMapPacket.length.toNat = 32785 := rfl
  have hnone : Rfc6455.decode (frameBytes (packetFrame WSFrame.zero largeMapPacket)) = none := by
    rw [packetFrame, hn]
    exact decode_frameBytes_eq_none WSFrame.zero (length_packetFlatten largeMapPacket)
      (by omega) (by omega)
  refine ⟨by omega, by omega, ?_⟩
  rw [hnone]
  exact (Option.some_ne_none _).symm

end Communication
end MmoBackend
