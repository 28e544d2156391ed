import MmoBackend.Library.Bytes

/-!
# `request-tester/packets`: the packets of the Python client

A packet of the client has an opcode and data, which is a string or a `bytearray`.
`clientSend` is the message `Packet.send` builds: the opcode, the number of elements of the
data in eight bytes, and the data.  A `bytearray` is filled slice by slice, and a slice takes
as many bytes as it is assigned.

`int.to_bytes` writes the most significant byte first, unless it is told otherwise, and raises
an exception for a number that does not fit.
-/

namespace MmoBackend
namespace Communication

open Bytes

/-- `n.to_bytes(length)`. -/
def toBytes (length : ℕ) (n : ℤ) : Option (List UInt8) :=
  if 0 ≤ n ∧ n < 256 ^ length then some (beBytes length n.toNat) else none

/-- `l[i:j] = v`. -/
def assignSlice (l : List UInt8) (i j : ℕ) (v : List UInt8) : List UInt8 :=
  l.take i ++ v ++ l.drop j

/-- The data of a packet. -/
inductive ClientData where
  | text (s : String)
  | bytes (l : List UInt8)

/-- `len(data)`. -/
def ClientData.length : ClientData → ℕ
  | .text s => s.length
  | .bytes l => l.length

/-- The data as it is sent. -/
def ClientData.encode : ClientData → List UInt8
  | .text s => s.toUTF8.toList
  | .bytes l => l

/-- `Packet`. -/
structure ClientPacket where
  opcode : UInt8
  data : ClientData

/-- `Move`, for two numbers that were put in. -/
def clientMove (x y : ℤ) : Option ClientPacket := do
  let data := List.replicate 8 0
  let data := assignSlice data 0 4 (← toBytes 4 x)
  let data := assignSlice data 4 8 (← toBytes 4 y)
  pure ⟨5, .bytes data⟩

/-- `Packet.send`: the bytes that are given to `send_binary`. -/
def clientSend (packet : ClientPacket) : Option (List UInt8) := do
  let bin := (List.replicate (9 + packet.data.length) 0).set 0 packet.opcode
  let bin := assignSlice bin 1 9 (← toBytes 8 packet.data.length)
  pure (assignSlice bin 9 bin.length packet.data.encode)

/-- The bytes of a move. -/
def sentMove (x y : ℤ) : Option (List UInt8) := do
  clientSend (← clientMove x y)

theorem toBytes_of_lt {length n : ℕ} (h : n < 256 ^ length) :
    toBytes length n = some (beBytes length n) := by
  rw [toBytes, if_pos ⟨Int.natCast_nonneg n, by exact_mod_cast h⟩, Int.toNat_natCast]

/-- **The layout of a packet of the client.** -/
theorem clientSend_eq (packet : ClientPacket) (h : packet.data.length < 256 ^ 8) :
    clientSend packet
      = some (packet.opcode :: (beBytes 8 packet.data.length ++ packet.data.encode)) := by
  have hbin : (List.replicate (9 + packet.data.length) 0).set 0 packet.opcode
      = packet.opcode :: List.replicate (8 + packet.data.length) 0 := by
    rw [show 9 + packet.data.length = (8 + packet.data.length) + 1 by omega, List.replicate_succ,
      List.set_cons_zero]
  have hfirst : assignSlice (packet.opcode :: List.replicate (8 + packet.data.length) 0) 1 9
      (beBytes 8 packet.data.length) = packet.opcode :: beBytes 8 packet.data.length
        ++ List.replicate packet.data.length 0 := by
    simp [assignSlice]
  have hlen : (packet.opcode :: beBytes 8 packet.data.length).length = 9 := by simp
  simp only [clientSend, toBytes_of_lt h, hbin, hfirst, Option.bind_eq_bind, Option.bind_some,
    Option.pure_def]
  rw [assignSlice, List.take_left' hlen, List.drop_length, List.append_nil, List.cons_append]

/-- **The bytes of a move**: both coordinates in the network order. -/
theorem sentMove_eq {x y : ℕ} (hx : x < 2 ^ 31) (hy : y < 2 ^ 31) :
    sentMove x y = some (5 :: (beBytes 8 8 ++ (beBytes 4 x ++ beBytes 4 y))) := by
  have hdata : assignSlice (assignSlice (List.replicate 8 0) 0 4 (beBytes 4 x)) 4 8 (beBytes 4 y)
      = beBytes 4 x ++ beBytes 4 y := by
    simp [assignSlice]
  have hmove : clientMove x y = some ⟨5, .bytes (beBytes 4 x ++ beBytes 4 y)⟩ := by
    rw [clientMove, toBytes_of_lt (by omega), toBytes_of_lt (by omega), ← hdata]
    rfl
  have hlen : (ClientData.bytes (beBytes 4 x ++ beBytes 4 y)).length = 8 := by
    simp [ClientData.length]
  rw [sentMove, hmove, Option.bind_eq_bind, Option.bind_some, clientSend_eq, hlen]
  · rfl
  · rw [hlen]
    norm_num

end Communication
end MmoBackend
