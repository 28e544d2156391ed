import MmoBackend.Communication.PacketTypes
import MmoBackend.Player.Distance

/-!
# Packets as a client reads them

The templates of the server put 32-bit numbers and strings into the body of a packet, and
`packet_flatten` puts its opcode, its id and its length in front.  A client takes the two
apart again: `parsePacket` is the inverse of `packet_flatten`, and `readServerPacket` that of
the templates.

What a template was called with comes back if its numbers have 32 bits.  There is one frame
besides those of packets, the close frame of `ws_close`, which carries its code in network
order.
-/

namespace MmoBackend
namespace Communication

open Authentication Bytes Networking Player

/-! ## The header of a packet -/

/-- A packet whose header states the length of what follows it. -/
def parsePacket (payload : List UInt8) : Option Packet :=
  if leNat ((payload.drop 5).take 4) = (payload.drop 9).length then
    payload.head?.map fun opcode =>
      packetCreate opcode (BitVec.ofNat 32 (leNat ((payload.drop 1).take 4))) (payload.drop 9)
  else none

theorem packetFlatten_packetCreate (opcode : UInt8) (id : BitVec 32) {data : List UInt8}
    (hlen : data.length < 2 ^ 32) :
    packetFlatten (packetCreate opcode id data)
      = opcode :: (leBytes 4 id.toNat ++ (leBytes 4 data.length ++ data)) := by
  have hlength : (packetCreate opcode id data).length.toNat = data.length :=
    Nat.mod_eq_of_lt hlen
  rw [packetFlatten, hlength]
  simp [packetCreate]

/-- **The header** is taken off again. -/
theorem parsePacket_packetFlatten (opcode : UInt8) (id : BitVec 32) {data : List UInt8}
    (hlen : data.length < 2 ^ 32) :
    parsePacket (packetFlatten (packetCreate opcode id data))
      = some (packetCreate opcode id data) := by
  have hid : ((packetFlatten (packetCreate opcode id data)).drop 1).take 4
      = leBytes 4 id.toNat := by
    rw [packetFlatten_packetCreate opcode id hlen, List.drop_one, List.tail_cons]
    exact List.take_left' (length_leBytes 4 _)
  have hrest : (packetFlatten (packetCreate opcode id data)).drop 5
      = leBytes 4 data.length ++ data := by
    rw [packetFlatten_packetCreate opcode id hlen, List.drop_succ_cons]
    exact List.drop_left' (length_leBytes 4 _)
  have hdata : (packetFlatten (packetCreate opcode id data)).drop 9 = data := by
    have hdrop : (packetFlatten (packetCreate opcode id data)).drop (5 + 4)
        = ((packetFlatten (packetCreate opcode id data)).drop 5).drop 4 := List.drop_drop.symm
    rw [hdrop, hrest]
    exact List.drop_left' (length_leBytes 4 _)
  have hlength : leNat (leBytes 4 data.length) = data.length := by
    rw [leNat_leBytes, Nat.mod_eq_of_lt (lt_of_lt_of_eq hlen (by norm_num))]
  have hback : BitVec.ofNat 32 (leNat (leBytes 4 id.toNat)) = id := by
    rw [leNat_leBytes, Nat.mod_eq_of_lt (lt_of_lt_of_eq id.isLt (by norm_num)),
      BitVec.ofNat_toNat, BitVec.setWidth_eq]
  have hhead : (packetFlatten (packetCreate opcode id data)).head? = some opcode := by
    rw [packetFlatten_packetCreate opcode id hlen, List.head?_cons]
  rw [parsePacket, hrest, hdata, List.take_left' (length_leBytes 4 _), if_pos hlength, hid, hhead,
    Option.map_some, hback]

/-! ## The body of a packet -/

/-- Two numbers and what follows them. -/
def readPair (data : List UInt8) : ℤ × ℤ × List UInt8 :=
  (bytesInt (data.take 4), bytesInt ((data.drop 4).take 4), data.drop 8)

/-- What the template of a packet was called with. -/
def readServerPacket (packet : Packet) : Option ServerPacket :=
  let (m, n, rest) := readPair packet.data
  match packet.opcode.toNat with
  | 0 => some (.error packet.id packet.data)
  | 3 => some (.success packet.id)
  | 4 => some (.failure packet.id)
  | 6 => some (.updatePosition rest m n)
  | 7 => some (.badState packet.id)
  | 8 => some (.player packet.id rest.dropLast m n)
  | 9 => some (.map m n rest)
  | 10 => some (.leavingMap packet.data)
  | _ => none

/-- The numbers in the body of a packet. -/
def ServerPacket.ints : ServerPacket → List ℤ
  | .updatePosition _ x y => [x, y]
  | .player _ _ x y => [x, y]
  | .map width height _ => [width, height]
  | _ => []

theorem readPair_intBytes {m n : ℤ} (hm : IsInt32 m) (hn : IsInt32 n) (rest : List UInt8) :
    readPair (intBytes m ++ (intBytes n ++ rest)) = (m, n, rest) := by
  have hfirst : (intBytes m ++ (intBytes n ++ rest)).take 4 = intBytes m :=
    List.take_left' (length_intBytes m)
  have hsecond : ((intBytes m ++ (intBytes n ++ rest)).drop 4).take 4 = intBytes n := by
    rw [List.drop_left' (length_intBytes m)]
    exact List.take_left' (length_intBytes n)
  have hrest : (intBytes m ++ (intBytes n ++ rest)).drop 8 = rest := by
    rw [← List.append_assoc]
    exact List.drop_left' (by rw [List.length_append, length_intBytes, length_intBytes])
  rw [readPair, hfirst, hsecond, hrest, bytesInt_intBytes hm, bytesInt_intBytes hn]

/-- **The body** is taken apart again. -/
theorem readServerPacket_toPacket {packet : ServerPacket} (h : ∀ n ∈ packet.ints, IsInt32 n) :
    readServerPacket packet.toPacket = some packet := by
  have hpair : ∀ {m n : ℤ} (rest : List UInt8), packet.ints = [m, n] →
      readPair (intBytes m ++ (intBytes n ++ rest)) = (m, n, rest) := fun rest hints =>
    readPair_intBytes (h _ (by simp [hints])) (h _ (by simp [hints])) rest
  cases packet with
  | updatePosition id x y =>
    simp [readServerPacket, ServerPacket.toPacket, packetCreate, hpair id rfl]
  | player code name x y =>
    simp [readServerPacket, ServerPacket.toPacket, packetCreate, hpair (name ++ [0]) rfl]
  | map width height decor =>
    simp [readServerPacket, ServerPacket.toPacket, packetCreate, hpair decor rfl]
  | _ => rfl

/-- Every packet is made by `packet_create`. -/
theorem ServerPacket.toPacket_eq (packet : ServerPacket) :
    packet.toPacket
      = packetCreate packet.toPacket.opcode packet.toPacket.id packet.toPacket.data := by
  cases packet <;> rfl

/-! ## Frames -/

/-- The packet is framed the way the standard has it, and its numbers have 32 bits. -/
structure ServerPacket.Fits (packet : ServerPacket) : Prop where
  size : packetSize + packet.toPacket.data.length < 32767
  ints : ∀ n ∈ packet.ints, IsInt32 n

/-- **From the template to the client**, through the header. -/
theorem ServerPacket.Fits.parse {packet : ServerPacket} (h : packet.Fits) :
    (parsePacket (packetFlatten packet.toPacket)).bind readServerPacket = some packet := by
  have hsize := h.size
  rw [packet.toPacket_eq, parsePacket_packetFlatten _ _ (by omega), Option.bind_some,
    ← packet.toPacket_eq, readServerPacket_toPacket h.ints]

/-- The frame of a packet is the one the standard has for its bytes. -/
theorem ServerPacket.Fits.frameBytes_eq {packet : ServerPacket} (h : packet.Fits)
    (junk : WSFrame) :
    (packetWrite junk packet.toPacket).flatten
      = Rfc6455.encode (Rfc6455.binary (packetFlatten packet.toPacket)) := by
  have hsize := h.size
  have hlength : packet.toPacket.length.toNat = packet.toPacket.data.length := by
    rw [packet.toPacket_eq]
    exact Nat.mod_eq_of_lt (by omega)
  have hmod : (packetSize + packet.toPacket.length.toNat) % 2 ^ 32
      = packetSize + packet.toPacket.length.toNat := Nat.mod_eq_of_lt (by omega)
  rw [packetWrite, packetFrame, hmod]
  exact frameBytes_eq_encode junk (length_packetFlatten _) (by omega)

/-- `ws_close_frame`, for the two bytes of the code. -/
def wsCloseFrame (junk : WSFrame) (statusCode : List UInt8) : WSFrame :=
  { wsBinFrame junk statusCode 2 with opcode := 8 }

/-- `ws_close`: the buffers of its calls of `ws_write`, in order. -/
def wsClose (junk : WSFrame) (code : ℕ) : List (List UInt8) :=
  wsWriteFrame (wsCloseFrame junk (leBytes 2 (htons code)))

/-- The close frame of the standard. -/
def closeFrame (code : ℕ) : Rfc6455.Frame := ⟨true, 0, 8, none, beBytes 2 code⟩

/-- **The close frame** is the one the standard has for the code. -/
theorem wsClose_flatten (junk : WSFrame) (code : ℕ) :
    (wsClose junk code).flatten = Rfc6455.encode (closeFrame code) := by
  have hcode : leBytes 2 (htons code) = beBytes 2 code := leBytes_byteSwap 2 code
  have hhead : leBytes 2 (wsTranscribeHeaders (wsCloseFrame junk (beBytes 2 code))).toNat
      = [0x88, 2] := by
    have hbits : leBytes 2 ((1 : BitVec 1).setWidth 16 <<< 7 |||
        (0 : BitVec 1).setWidth 16 <<< 6 ||| (0 : BitVec 1).setWidth 16 <<< 5 |||
        (0 : BitVec 1).setWidth 16 <<< 4 ||| (8 : BitVec 4).setWidth 16 |||
        (0 : BitVec 1).setWidth 16 <<< (7 + 8) ||| (2 : BitVec 7).setWidth 16 <<< 8).toNat
          = [0x88, 2] := by
      decide
    exact hbits
  have htake : (beBytes 2 code).take 2 = beBytes 2 code :=
    List.take_of_length_le (by rw [length_beBytes])
  have hbody : ((wsCloseFrame junk (beBytes 2 code)).data.getD []).take 2 = beBytes 2 code := by
    show ((beBytes 2 code).take 2).take 2 = _
    rw [htake, htake]
  have hlen7 : (wsCloseFrame junk (beBytes 2 code)).length.toNat = 2 := rfl
  have hmask : (wsCloseFrame junk (beBytes 2 code)).mask.toNat = 0 := rfl
  have hencode : Rfc6455.encode (closeFrame code) = 0x88 :: 2 :: beBytes 2 code := by
    simp only [Rfc6455.encode, closeFrame, Rfc6455.byte1, length_beBytes, Rfc6455.wirePayload]
    rfl
  rw [wsClose, hcode, hencode]
  simp [wsWriteFrame, hhead, hlen7, hmask, hbody]

end Communication
end MmoBackend
