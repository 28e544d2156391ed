import MmoBackend.Authentication.AwaitingConnections
import MmoBackend.Communication.Packet
import MmoBackend.Library.Replica

/-!
# `packet-types.c`: what the server sends

Every packet the server sends is made by one of the templates.  `ServerPacket` has a
constructor for each of them with what the template is called with, and `toPacket`
is the packet the template builds.

A client learns where the players of its map are from three of the templates.
`message` is what these say to it.
-/

namespace MmoBackend
namespace Communication

open Authentication Bytes

/-! ## Opcodes -/

/-- `LOGIN_PACKET`. -/
def loginPacket : UInt8 := 1

/-- `LOGOUT_PACKET`. -/
def logoutPacket : UInt8 := 2

/-- `MOVE_PACKET`. -/
def movePacket : UInt8 := 5

/-- `INSPECT_PLAYER_PACKET`. -/
def inspectPlayerPacket : UInt8 := 8

/-! ## Error numbers -/

/-- `INVALID_AWAITING_CONNECTION`. -/
def invalidAwaitingConnection : ℤ := 2

/-- `BAD_PACKET`. -/
def badPacket : ℤ := 3

/-- `error_strings`. -/
def errorStrings : List CString :=
  ["UNDEFINED ERROR".toUTF8.toList, "INVALID LOGIN PACKET".toUTF8.toList]

/-! ## Templates -/

/-- A packet the server sends. -/
inductive ServerPacket where
  /-- `packet_template_error`, with the code and the text it chose. -/
  | error (code : BitVec 32) (msg : CString)
  /-- `packet_template_success`. -/
  | success (code : BitVec 32)
  /-- `packet_template_failure`. -/
  | failure (code : BitVec 32)
  /-- `packet_template_bad_state`. -/
  | badState (code : BitVec 32)
  /-- `packet_template_update_position`. -/
  | updatePosition (id : CString) (x y : ℤ)
  /-- `packet_template_player`. -/
  | player (code : BitVec 32) (name : CString) (x y : ℤ)
  /-- `packet_template_map`, with what it reads of the map. -/
  | map (width height : ℤ) (decor : List UInt8)
  /-- `packet_template_leaving_map`. -/
  | leavingMap (id : CString)
  deriving DecidableEq

/-- `packet_template_error`.  `none` is a read in front of the table. -/
def packetTemplateError (code : ℤ) : Option ServerPacket :=
  let code := if (errorStrings.length : ℤ) - 1 < code then 0 else code
  if code < 0 then none else errorStrings[code.toNat]?.map (.error (BitVec.ofInt 32 code))

/-- `packet_template_update_position`, which returns null for a null id. -/
def packetTemplateUpdatePosition (id : Option CString) (x y : ℤ) : Option ServerPacket :=
  id.map fun id => .updatePosition id x y

/-- The four bytes of an `int`. -/
def intBytes (n : ℤ) : List UInt8 := leBytes 4 (BitVec.ofInt 32 n).toNat

/-- `packet_create`, for a body with as many bytes as its length says. -/
def packetCreate (opcode : UInt8) (id : BitVec 32) (data : List UInt8) : Packet where
  opcode := opcode
  id := id
  length := BitVec.ofNat 32 data.length
  data := data
  length_le := by
    rw [BitVec.toNat_ofNat]
    exact Nat.mod_le _ _

/-- The packet a template builds. -/
def ServerPacket.toPacket : ServerPacket → Packet
  | .error code msg => packetCreate 0 code msg
  | .success code => packetCreate 3 code []
  | .failure code => packetCreate 4 code []
  | .badState code => packetCreate 7 code []
  | .updatePosition id x y => packetCreate 6 0 (intBytes x ++ intBytes y ++ id)
  | .player code name x y => packetCreate 8 code (intBytes x ++ intBytes y ++ name ++ [0])
  | .map width height decor => packetCreate 9 0 (intBytes width ++ intBytes height ++ decor)
  | .leavingMap id => packetCreate 10 0 id

/-! ## What a client learns -/

/-- What a packet says about the players of the receiver's map. -/
def ServerPacket.message : ServerPacket → Option (Message CString (ℤ × ℤ))
  | .updatePosition id x y => some (.set id (x, y))
  | .map _ _ _ => some .clear
  | .leavingMap id => some (.delete id)
  | _ => none

theorem message_packetTemplateError {code : ℤ} {packet : ServerPacket}
    (h : packetTemplateError code = some packet) : packet.message = none := by
  simp only [packetTemplateError, Option.ite_none_left_eq_some, Option.map_eq_some_iff] at h
  obtain ⟨-, msg, -, rfl⟩ := h
  rfl

/-- The `int` stored in four bytes. -/
def bytesInt (l : List UInt8) : ℤ := (BitVec.ofNat 32 (leNat l)).toInt

theorem length_intBytes (n : ℤ) : (intBytes n).length = 4 := length_leBytes 4 _

theorem bytesInt_intBytes {n : ℤ} (h : -2 ^ 31 ≤ n ∧ n < 2 ^ 31) : bytesInt (intBytes n) = n := by
  rw [bytesInt, intBytes, leNat_leBytes, Nat.mod_eq_of_lt, BitVec.ofNat_toNat, BitVec.setWidth_eq,
    BitVec.toInt_ofInt, Int.bmod_eq_of_le]
  · omega
  · omega
  · exact (BitVec.ofInt 32 n).isLt

end Communication
end MmoBackend
