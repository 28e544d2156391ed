import MmoBackend.Communication.Packet
import MmoBackend.Networking.ReadFrame

/-!
# `packet.c`: reading a packet

`packetRead` is `packet_read`: it reads one frame and takes a packet out of its
payload.  The function looks at what `ws_read_frame` gave it only once, when it asks
whether the 7-bit length is zero, and it looks through a pointer that may be null.

What becomes of a call is decided by the first bytes of the frame alone, its opcode
and the two forms of its length.  `announcement` reads them off the stream, and
`frameOutcome` says what `ws_read_frame` makes of them: it stops, it returns null, or
it returns a frame with a body of the announced size.  The mask and the body itself
play no part.

A body of one to eight bytes is the case to look at.  The header of a packet has nine
bytes, the subtraction is unsigned, and what is copied then are more than four
thousand million bytes.
-/

namespace MmoBackend
namespace Communication

open Bytes Networking

/-! ## `packet_read` -/

/-- The bytes of a payload from an offset on.  `none` is an index outside.  The zero
byte that `ws_read_frame` puts behind the payload counts as outside. -/
def payloadAt (payload : List UInt8) (offset n : ℕ) : Option (Vector UInt8 n) :=
  if h : offset + n ≤ payload.length then
    some ⟨((payload.drop offset).take n).toArray, by
      rw [List.size_toArray, List.length_take, List.length_drop]
      omega⟩
  else none

/-- The length of the packet in a frame.  The difference is taken in 64 bits and stored
in 32. -/
def packetLength (frame : WSFrame) : BitVec 32 :=
  (BitVec.ofNat 64 (wsLength frame) - BitVec.ofNat 64 packetSize).setWidth 32

/-- `packet_read` on a frame that is not empty. -/
def packetOfFrame (frame : WSFrame) : Exec (Arrivals UInt8) (Option Packet) := do
  let payload ← Exec.need frame.data
  let opcode ← Exec.need payload[0]?
  let id ← Exec.need (payloadAt payload 1 4)
  let body ← Exec.need (payloadAt payload packetSize (packetLength frame).toNat)
  pure (some
    { opcode := opcode
      id := BitVec.ofNat 32 (leNat id.toList)
      length := packetLength frame
      data := body.toList ++ [0]
      length_le := by
        rw [List.length_append, Vector.length_toList]
        exact Nat.le_add_right _ _ })

/-- `packet_read`. -/
def packetRead (g : Garbage) : Exec (Arrivals UInt8) (Option Packet) := do
  let found ← wsReadFrame g
  let frame ← Exec.need found
  if frame.length = 0 then pure none else packetOfFrame frame

/-! ## What the front of a stream announces -/

/-- Some memory after what is there has been read over its front. -/
def readOver (old : List UInt8) (s : Arrivals UInt8) : List UInt8 :=
  (s.readLoop old.length).1 ++ old.drop (s.readLoop old.length).1.length

/-- The opcode, the 7-bit length and the size of a frame. -/
structure Announcement where
  opcode : ℕ
  length7 : ℕ
  size : ℕ
  deriving DecidableEq

/-- What the first bytes of a stream announce.  Bytes that are not there are what the
memory held before.  Of a 64-bit size the first four bytes count. -/
def announcement (g : Garbage) (s : Arrivals UInt8) : Announcement :=
  let header := readOver [0, 0] s
  let length7 := (header.getD 1 0).toNat % 128
  let rest := (s.readLoop 2).2
  { opcode := (header.getD 0 0).toNat % 16
    length7 := length7
    size :=
      if length7 = 126 then beNat (readOver (leBytes 2 g.lengthExt.toNat) rest)
      else if length7 = 127 then beNat ((readOver (leBytes 8 g.lengthExt.toNat) rest).take 4)
      else length7 }

namespace Announcement

variable (a : Announcement)

/-- The opcode is none of the reserved ones. -/
def Known : Prop := a.opcode ≤ 2 ∨ 8 ≤ a.opcode ∧ a.opcode ≤ 10

/-- The opcode is one of a frame that carries data. -/
def Data : Prop := a.opcode ≤ 2

/-- `ws_read_frame` can allocate a frame of this size. -/
def Allocates : Prop := a.length7 = 126 → a.size < 32768

/-- The size is not above the limit, which only the longest form is held to. -/
def Within : Prop := a.length7 = 127 → a.size ≤ wsFrameSize

/-- An empty frame of a known kind, or a data frame with room for the header of a
packet, no larger than the form of its length allows. -/
def WellFormed : Prop :=
  a.Known ∧ a.length7 = 0 ∨ a.Data ∧ packetSize ≤ a.size ∧ a.Allocates ∧ a.Within

instance : Decidable a.Known := inferInstanceAs (Decidable (_ ∨ _))
instance : Decidable a.Data := inferInstanceAs (Decidable (_ ≤ _))
instance : Decidable a.Allocates := inferInstanceAs (Decidable (_ → _))
instance : Decidable a.Within := inferInstanceAs (Decidable (_ → _))
instance : Decidable a.WellFormed := inferInstanceAs (Decidable (_ ∨ _))

end Announcement

/-! ## What `ws_read_frame` makes of it -/

/-- A frame with the opcode, the length and the body that were announced. -/
structure Announced (a : Announcement) (frame : WSFrame) : Prop where
  opcode : frame.opcode.toNat = a.opcode
  length7 : frame.length.toNat = a.length7
  size : wsLength frame = a.size
  lt : a.size < 2 ^ 32
  empty : a.size = 0 → frame.data = none
  body : a.size ≠ 0 → ∃ payload, frame.data = some payload ∧ payload.length = a.size

/-- The three ends of `ws_read_frame`. -/
inductive FrameOutcome (a : Announcement) :
    Except Stop (Option WSFrame × Arrivals UInt8) → Prop
  | fault : ¬a.Allocates → FrameOutcome a (.error .fault)
  | refused {t : Arrivals UInt8} :
      a.Allocates → ¬(a.Known ∧ a.Within) → FrameOutcome a (.ok (none, t))
  | read {frame : WSFrame} {t : Arrivals UInt8} :
      a.Allocates → a.Known → a.Within → Announced a frame → FrameOutcome a (.ok (some frame, t))

theorem wsRead_readOver (old : List UInt8) (s : Arrivals UInt8) :
    wsRead old s = .ok (readOver old s, (s.readLoop old.length).2) := rfl

theorem length_readOver (old : List UInt8) (s : Arrivals UInt8) :
    (readOver old s).length = old.length :=
  (wsRead_reads (wsRead_readOver old s)).1

/-- The four bytes the mask key is taken from. -/
def keyBytes (g : Garbage) (temp : WSFrame) (s : Arrivals UInt8) : List UInt8 :=
  if temp.mask = 1 then readOver (leBytes 4 g.key.toNat) s else leBytes 4 g.key.toNat

/-- The bytes of the body before they are unmasked. -/
def bodyBytes (g : Garbage) (temp : WSFrame) (n : ℕ) (s : Arrivals UInt8) : List UInt8 :=
  readOver ((List.range n).map g.body) (if temp.mask = 1 then (s.readLoop 4).2 else s)

theorem length_keyBytes (g : Garbage) (temp : WSFrame) (s : Arrivals UInt8) :
    (keyBytes g temp s).length = 4 := by
  unfold keyBytes
  split
  · rw [length_readOver, length_leBytes]
  · exact length_leBytes 4 _

theorem length_bodyBytes (g : Garbage) (temp : WSFrame) (n : ℕ) (s : Arrivals UInt8) :
    (bodyBytes g temp n s).length = n := by
  rw [bodyBytes, length_readOver, List.length_map, List.length_range]

/-- The mask and the body are read one after the other. -/
theorem wsReadRest_eq (g : Garbage) (temp : WSFrame) (n : ℕ) (s : Arrivals UInt8) :
    ∃ t, wsReadRest g temp n s = .ok
      (if (2 < temp.opcode.toNat ∧ temp.opcode.toNat < 8) ∨ 10 < temp.opcode.toNat then none
        else some { temp with
          key := hostKey (keyBytes g temp s)
          data := if n = 0 then none
            else some (wsApplyKey (hostKey (keyBytes g temp s)) (bodyBytes g temp n s)) }, t) := by
  have hkey : wsReadKey g temp s = .ok (hostKey (keyBytes g temp s),
      if temp.mask = 1 then (s.readLoop 4).2 else s) := by
    unfold wsReadKey keyBytes
    split
    · rw [Exec.bind_of_ok (wsRead_readOver _ s), length_leBytes]
      rfl
    · rfl
  have hbody : ∀ key u, ∃ t, wsReadBody g key n u = .ok
      (if n = 0 then none else some (wsApplyKey key (readOver ((List.range n).map g.body) u)),
        t) := by
    intro key u
    by_cases hn : n = 0
    · rw [wsReadBody, if_neg (not_not.mpr hn), if_pos hn]
      exact ⟨u, rfl⟩
    · rw [wsReadBody, if_pos hn, if_neg hn, Exec.bind_of_ok (wsRead_readOver _ u)]
      exact ⟨_, rfl⟩
  obtain ⟨t, hbody⟩ := hbody (hostKey (keyBytes g temp s))
    (if temp.mask = 1 then (s.readLoop 4).2 else s)
  refine ⟨t, ?_⟩
  rw [wsReadRest, Exec.bind_of_ok hkey, Exec.bind_of_ok hbody]
  split <;> rfl

/-- The mask and the body do not fail, and the body has the size that is asked for. -/
theorem wsReadRest_outcome (g : Garbage) (temp : WSFrame) (n : ℕ) (s : Arrivals UInt8) :
    ∃ key data t, wsReadRest g temp n s = .ok
        (if (2 < temp.opcode.toNat ∧ temp.opcode.toNat < 8) ∨ 10 < temp.opcode.toNat then none
          else some { temp with key := key, data := data }, t) ∧
      (n = 0 → data = none) ∧ (n ≠ 0 → ∃ payload, data = some payload ∧ payload.length = n) := by
  obtain ⟨t, hrest⟩ := wsReadRest_eq g temp n s
  refine ⟨_, _, t, hrest, fun hn => if_pos hn, fun hn => ⟨_, if_neg hn, ?_⟩⟩
  rw [wsApplyKey, List.length_mapIdx, length_bodyBytes]

/-- The rest of a frame whose length has been read. -/
theorem FrameOutcome.of_rest {a : Announcement} {temp : WSFrame} {s : Arrivals UInt8}
    (g : Garbage) (hopcode : temp.opcode.toNat = a.opcode) (hlength : temp.length.toNat = a.length7)
    (hsize : wsLength temp = a.size) (hlt : a.size < 2 ^ 32) (halloc : a.Allocates)
    (hwithin : a.Within) :
    FrameOutcome a (wsReadRest g temp a.size s) := by
  obtain ⟨key, data, t, hrest, hnone, hsome⟩ := wsReadRest_outcome g temp a.size s
  rw [hrest, hopcode]
  split
  · rename_i hbad
    refine .refused halloc fun hgood => ?_
    have hknown := hgood.1
    unfold Announcement.Known at hknown
    omega
  · rename_i hgood
    refine .read halloc ?_ hwithin ⟨hopcode, hlength, hsize, hlt, hnone, hsome⟩
    unfold Announcement.Known
    omega

/-- The two header bytes as one word. -/
theorem toNat_header (s : Arrivals UInt8) : ∃ b b' : UInt8, readOver [0, 0] s = [b, b'] ∧
    (BitVec.ofNat 16 (ntohs (leNat (readOver [0, 0] s)))).toNat = b.toNat * 256 + b'.toNat := by
  obtain ⟨b, b', hheader⟩ : ∃ b b', readOver [0, 0] s = [b, b'] :=
    List.length_eq_two.mp (length_readOver [0, 0] s)
  have hb : b.toNat < 256 := b.toNat_lt
  have hb' : b'.toNat < 256 := b'.toNat_lt
  refine ⟨b, b', hheader, ?_⟩
  rw [hheader, ntohs_leNat_pair, BitVec.toNat_ofNat, Nat.mod_eq_of_lt (by omega)]

/-- The flags that count, from the two header bytes. -/
theorem headerFields_readOver (g : Garbage) (s : Arrivals UInt8) :
    (headerFields (BitVec.ofNat 16 (ntohs (leNat (readOver [0, 0] s)))) g).opcode.toNat
        = (announcement g s).opcode ∧
      (headerFields (BitVec.ofNat 16 (ntohs (leNat (readOver [0, 0] s)))) g).length.toNat
        = (announcement g s).length7 := by
  obtain ⟨b, b', hheader, hword⟩ := toNat_header s
  have hb' : b'.toNat < 256 := b'.toNat_lt
  have hopcode : (announcement g s).opcode = b.toNat % 16 := by
    simp [announcement, hheader]
  have hlength : (announcement g s).length7 = b'.toNat % 128 := by
    simp [announcement, hheader]
  have hand : ((127 : BitVec 16)).toNat = 2 ^ 7 - 1 := rfl
  rw [hopcode, hlength, headerFields, BitVec.toNat_setWidth,
    BitVec.toNat_ushiftRight, Nat.shiftRight_eq_div_pow, hword, BitVec.toNat_setWidth,
    BitVec.toNat_and, hword, hand, Nat.and_two_pow_sub_one_eq_mod]
  omega

/-- A 16-bit size. -/
theorem ntohs_readOver (g : Garbage) (s : Arrivals UInt8) :
    ntohs (leNat (readOver (leBytes 2 g.lengthExt.toNat) s))
      = beNat (readOver (leBytes 2 g.lengthExt.toNat) s) := by
  have hlen := length_readOver (leBytes 2 g.lengthExt.toNat) s
  have hswap := byteSwap_leNat (readOver (leBytes 2 g.lengthExt.toNat) s)
  rw [length_leBytes] at hlen
  rwa [hlen] at hswap

/-- A 64-bit size: the code converts 32 bits, the first four bytes. -/
theorem ntohl_readOver (g : Garbage) (s : Arrivals UInt8) :
    ntohl (leNat (readOver (leBytes 8 g.lengthExt.toNat) s))
      = beNat ((readOver (leBytes 8 g.lengthExt.toNat) s).take 4) := by
  have hlen := length_readOver (leBytes 8 g.lengthExt.toNat) s
  rw [length_leBytes] at hlen
  rw [ntohl, byteSwap, leBytes_leNat_take (by omega)]

/-- The flags in the two header bytes. -/
def headerAt (g : Garbage) (s : Arrivals UInt8) : WSFrame :=
  headerFields (BitVec.ofNat 16 (ntohs (leNat (readOver [0, 0] s)))) g

/-- The stream behind the size, at the mask key or the body. -/
def bodyStart (s : Arrivals UInt8) : Arrivals UInt8 :=
  let length7 := ((readOver [0, 0] s).getD 1 0).toNat % 128
  let rest := (s.readLoop 2).2
  if length7 = 126 then (rest.readLoop 2).2
  else if length7 = 127 then (rest.readLoop 8).2
  else rest

/-- What `ws_read_frame` does until the size of the frame is known.  From there on it is
`wsReadRest`. -/
inductive SizeOutcome (g : Garbage) (s : Arrivals UInt8) : Prop
  | fault :
      ¬(announcement g s).Allocates → wsReadFrame g s = .error .fault → SizeOutcome g s
  | refused {t : Arrivals UInt8} :
      (announcement g s).Allocates → ¬(announcement g s).Within →
      wsReadFrame g s = .ok (none, t) → SizeOutcome g s
  | rest {ext : BitVec 64} :
      (announcement g s).Allocates → (announcement g s).Within →
      (announcement g s).size < 2 ^ 32 →
      wsLength { headerAt g s with lengthExt := ext } = (announcement g s).size →
      wsReadFrame g s = wsReadRest g { headerAt g s with lengthExt := ext }
        (announcement g s).size (bodyStart s) →
      SizeOutcome g s

section Forms

variable {g : Garbage} {s : Arrivals UInt8}

theorem length_headerAt (g : Garbage) (s : Arrivals UInt8) :
    (headerAt g s).length.toNat = (announcement g s).length7 := (headerFields_readOver g s).2

/-- A size of two bytes, which is taken for a signed number. -/
theorem sizeOutcome_short (h126 : (announcement g s).length7 = 126) : SizeOutcome g s := by
  have hlength := (length_headerAt g s).trans h126
  have hsize : (announcement g s).size
      = beNat (readOver (leBytes 2 g.lengthExt.toNat) (s.readLoop 2).2) := if_pos h126
  have hstart : bodyStart s = ((s.readLoop 2).2.readLoop 2).2 := if_pos h126
  have hlt : (announcement g s).size < 65536 := by
    have h := beNat_lt (readOver (leBytes 2 g.lengthExt.toNat) (s.readLoop 2).2)
    rw [length_readOver, length_leBytes, ← hsize] at h
    omega
  have hread := wsReadSize_short g hlength (wsRead_readOver _ _)
    ((ntohs_readOver g _).trans hsize.symm) hlt
  rw [length_leBytes, ← hstart] at hread
  by_cases hfit : (announcement g s).size < 32768
  · rw [if_pos hfit] at hread
    refine .rest (fun _ => hfit) (fun h => by omega) (by omega) ?_ hread
    rw [wsLength, if_pos hlength, WSFrame.shortLen, WSFrame.setWidth_setShortLen,
      toNat_signExtend_ofNat hlt, if_pos hfit]
  · rw [if_neg hfit] at hread
    exact .fault (fun halloc => hfit (halloc h126)) hread

/-- A size of eight bytes, of which four count. -/
theorem sizeOutcome_long (h127 : (announcement g s).length7 = 127) : SizeOutcome g s := by
  have h126 : (announcement g s).length7 ≠ 126 := by omega
  have halloc : (announcement g s).Allocates := fun h => absurd h h126
  have hlength := (length_headerAt g s).trans h127
  have hsize : (announcement g s).size
      = beNat ((readOver (leBytes 8 g.lengthExt.toNat) (s.readLoop 2).2).take 4) :=
    (if_neg h126).trans (if_pos h127)
  have hstart : bodyStart s = ((s.readLoop 2).2.readLoop 8).2 := (if_neg h126).trans (if_pos h127)
  have hread := wsReadSize_long g hlength (wsRead_readOver _ _)
    ((ntohl_readOver g _).trans hsize.symm)
  rw [length_leBytes, ← hstart] at hread
  by_cases hlimit : wsFrameSize < (announcement g s).size
  · rw [if_pos hlimit] at hread
    exact .refused halloc (fun hwithin => absurd (hwithin h127) (not_le.mpr hlimit)) hread
  · rw [if_neg hlimit] at hread
    rw [wsFrameSize] at hlimit
    refine .rest halloc (fun _ => not_lt.mp hlimit) (by omega) ?_ hread
    rw [wsLength, if_neg fun h => h126 ((length_headerAt g s).symm.trans h), if_pos hlength,
      BitVec.toNat_ofNat, Nat.mod_eq_of_lt (by omega)]

/-- A size in the header itself. -/
theorem sizeOutcome_inline (h126 : (announcement g s).length7 ≠ 126)
    (h127 : (announcement g s).length7 ≠ 127) : SizeOutcome g s := by
  have hlength := length_headerAt g s
  have hsize : (announcement g s).size = (announcement g s).length7 :=
    (if_neg h126).trans (if_neg h127)
  have hstart : bodyStart s = (s.readLoop 2).2 := (if_neg h126).trans (if_neg h127)
  have hlt := (headerAt g s).length.isLt
  have hsmall : (headerAt g s).length.toNat < 126 := by omega
  have hread : wsReadFrame g s
      = wsReadRest g (headerAt g s) (headerAt g s).length.toNat (s.readLoop 2).2 :=
    wsReadSize_inline g hsmall (s.readLoop 2).2
  rw [hlength, ← hsize, ← hstart] at hread
  refine .rest (fun h => absurd h h126) (fun h => absurd h h127) (by omega) ?_ hread
  rw [wsLength, hlength, if_neg h126, if_neg h127, hsize]

/-- The three forms of the length. -/
theorem sizeOutcome (g : Garbage) (s : Arrivals UInt8) : SizeOutcome g s := by
  by_cases h126 : (announcement g s).length7 = 126
  · exact sizeOutcome_short h126
  by_cases h127 : (announcement g s).length7 = 127
  · exact sizeOutcome_long h127
  · exact sizeOutcome_inline h126 h127

end Forms

/-- **The ends of `ws_read_frame`** are decided by what is announced. -/
theorem frameOutcome (g : Garbage) (s : Arrivals UInt8) :
    FrameOutcome (announcement g s) (wsReadFrame g s) := by
  obtain ⟨hopcode, hlength⟩ := headerFields_readOver g s
  rcases sizeOutcome g s with ⟨hlarge, h⟩ | ⟨halloc, hwithin, h⟩ | ⟨halloc, hwithin, hlt, hsize, h⟩
  · rw [h]
    exact .fault hlarge
  · rw [h]
    exact .refused halloc fun hgood => hwithin hgood.2
  · rw [h]
    exact FrameOutcome.of_rest g hopcode hlength hsize hlt halloc hwithin

/-! ## What `packet_read` makes of the frame -/

/-- A packet is taken out of the body of a frame, which has room for the header. -/
structure TakenFrom (frame : WSFrame) (payload : List UInt8) (packet : Packet) : Prop where
  data : frame.data = some payload
  room : packetSize ≤ payload.length
  opcode : payload[0]? = some packet.opcode
  id : packet.id = BitVec.ofNat 32 (leNat ((payload.drop 1).take 4))
  length : packet.length.toNat = payload.length - packetSize
  body : packet.data = payload.drop packetSize ++ [0]

/-- **A safe call** does not use a frame or a body that is not there nor a byte outside
the payload, and returns null or a packet out of a data frame. -/
def SafeRead (g : Garbage) (s : Arrivals UInt8) : Prop :=
  ∃ r t, packetRead g s = .ok (r, t) ∧ ∀ packet, r = some packet →
    ∃ frame u payload, wsReadFrame g s = .ok (some frame, u) ∧ frame.opcode.toNat ≤ 2 ∧
      TakenFrom frame payload packet

section Frame

variable {frame : WSFrame} {payload : List UInt8} {s : Arrivals UInt8}

/-- The unsigned difference. -/
theorem toNat_packetLength (h : wsLength frame < 2 ^ 32) :
    (packetLength frame).toNat
      = if packetSize ≤ wsLength frame then wsLength frame - packetSize
        else 2 ^ 32 + wsLength frame - packetSize := by
  have hsize : packetSize = 9 := rfl
  rw [packetLength, BitVec.toNat_setWidth, BitVec.toNat_sub, BitVec.toNat_ofNat,
    BitVec.toNat_ofNat, hsize]
  split <;> omega

theorem payloadAt_of_le {offset n : ℕ} (h : offset + n ≤ payload.length) :
    ∃ v, payloadAt payload offset n = some v ∧ v.toList = (payload.drop offset).take n := by
  rw [payloadAt, dif_pos h]
  exact ⟨_, rfl, rfl⟩

theorem packetOfFrame_none (h : frame.data = none) : packetOfFrame frame s = .error .fault := by
  rw [packetOfFrame, h]
  rfl

/-- A body that is too short for the header of a packet is read behind its end. -/
theorem packetOfFrame_short (hdata : frame.data = some payload)
    (hlength : wsLength frame = payload.length) (hshort : payload.length < packetSize) :
    packetOfFrame frame s = .error .fault := by
  have hsize : packetSize = 9 := rfl
  have hbody : payloadAt payload packetSize (packetLength frame).toNat = none := by
    rw [toNat_packetLength (by omega), if_neg (by omega), payloadAt, dif_neg (by omega)]
  rw [packetOfFrame, hdata, Exec.need_some_bind]
  cases payload[0]? with
  | none => rw [Exec.need_none_bind]
  | some opcode =>
    rw [Exec.need_some_bind]
    cases payloadAt payload 1 4 with
    | none => rw [Exec.need_none_bind]
    | some id => rw [Exec.need_some_bind, hbody, Exec.need_none_bind]

/-- A body with room for it gives a packet. -/
theorem packetOfFrame_read (hdata : frame.data = some payload)
    (hlength : wsLength frame = payload.length) (hroom : packetSize ≤ payload.length)
    (hlt : payload.length < 2 ^ 32) :
    ∃ packet, packetOfFrame frame s = .ok (some packet, s) ∧ TakenFrom frame payload packet := by
  have hsize : packetSize = 9 := rfl
  have hlen : (packetLength frame).toNat = payload.length - packetSize := by
    rw [toNat_packetLength (by omega), if_pos (by omega), hlength]
  have hidroom : 1 + 4 ≤ payload.length := by omega
  have hbodyroom : packetSize + (packetLength frame).toNat ≤ payload.length := by omega
  obtain ⟨id, hid, hidbytes⟩ := payloadAt_of_le hidroom
  obtain ⟨body, hbody, hbodybytes⟩ := payloadAt_of_le hbodyroom
  obtain ⟨opcode, rest, hcons⟩ := List.exists_cons_of_length_pos (by omega : 0 < payload.length)
  have hfirst : payload[0]? = some opcode := by
    rw [hcons]
    rfl
  have hrest : body.toList = payload.drop packetSize := by
    rw [hbodybytes, hlen, ← List.length_drop, List.take_length]
  rw [packetOfFrame, hdata, Exec.need_some_bind, hfirst, Exec.need_some_bind, hid,
    Exec.need_some_bind, hbody, Exec.need_some_bind]
  exact ⟨_, rfl, hdata, hroom, hfirst, congrArg (fun l => BitVec.ofNat 32 (leNat l)) hidbytes,
    hlen, congrArg (· ++ [0]) hrest⟩

end Frame

section Safe

variable {g : Garbage} {s t : Arrivals UInt8} {frame : WSFrame} {a : Announcement}

/-- A call that stops is not safe. -/
theorem not_safeRead_of_error {e : Stop} (h : packetRead g s = .error e) : ¬SafeRead g s := by
  rintro ⟨r, t, hread, -⟩
  rw [h] at hread
  cases hread

/-- What is done with a frame. -/
theorem packetRead_of_frame (h : wsReadFrame g s = .ok (some frame, t)) :
    packetRead g s = (if frame.length = 0 then pure none else packetOfFrame frame :
      Exec (Arrivals UInt8) (Option Packet)) t := by
  rw [packetRead, Exec.bind_of_ok h]
  rfl

/-- A call with a frame that is as announced is safe if it is empty, or a data frame with room
for the header of a packet. -/
theorem safeRead_frame_iff (h : wsReadFrame g s = .ok (some frame, t)) (ha : Announced a frame) :
    SafeRead g s ↔ a.length7 = 0 ∨ a.Data ∧ packetSize ≤ a.size := by
  have hsize : packetSize = 9 := rfl
  have hread := packetRead_of_frame h
  have hlength : frame.length = 0 ↔ a.length7 = 0 := by
    rw [← ha.length7, ← BitVec.toNat_inj]
    rfl
  by_cases hempty : a.length7 = 0
  · rw [if_pos (hlength.mpr hempty)] at hread
    exact iff_of_true ⟨none, t, hread, fun packet h => absurd h (Option.some_ne_none packet).symm⟩
      (Or.inl hempty)
  rw [if_neg fun h => hempty (hlength.mp h)] at hread
  rw [or_iff_right hempty]
  by_cases hzero : a.size = 0
  · rw [packetOfFrame_none (ha.empty hzero)] at hread
    exact iff_of_false (not_safeRead_of_error hread) fun hroom => by omega
  obtain ⟨payload, hdata, hpayload⟩ := ha.body hzero
  have hsame : wsLength frame = payload.length := ha.size.trans hpayload.symm
  have hlt := ha.lt
  rw [← hpayload] at hlt ⊢
  by_cases hshort : payload.length < packetSize
  · rw [packetOfFrame_short hdata hsame hshort] at hread
    exact iff_of_false (not_safeRead_of_error hread) fun hroom => by omega
  have hroom : packetSize ≤ payload.length := not_lt.mp hshort
  obtain ⟨packet, hpacket, htaken⟩ := packetOfFrame_read (s := t) hdata hsame hroom hlt
  have hok := hread.trans hpacket
  constructor
  · rintro ⟨r, u, hok', hsafe⟩
    obtain ⟨rfl, rfl⟩ := Prod.mk.inj (Except.ok.inj (hok.symm.trans hok'))
    obtain ⟨frame', u', payload', hread', hopcode, -⟩ := hsafe packet rfl
    obtain ⟨hframe, -⟩ := Prod.mk.inj (Except.ok.inj (h.symm.trans hread'))
    rw [← Option.some.inj hframe, ha.opcode] at hopcode
    exact ⟨hopcode, hroom⟩
  · rintro ⟨hopcode, -⟩
    refine ⟨_, t, hok, fun packet' hpacket' => ?_⟩
    rw [← Option.some.inj hpacket']
    exact ⟨frame, t, payload, h, ha.opcode ▸ hopcode, htaken⟩

/-- A call is safe when the frame is one of the well-formed ones, and otherwise not. -/
theorem FrameOutcome.safeRead_iff (hout : FrameOutcome a (wsReadFrame g s)) :
    SafeRead g s ↔ a.WellFormed := by
  generalize hresult : wsReadFrame g s = result at hout
  have hsize : packetSize = 9 := rfl
  cases hout with
  | fault hlarge =>
    have hread : packetRead g s = .error .fault := by rw [packetRead, Exec.bind_of_error hresult]
    refine iff_of_false (not_safeRead_of_error hread) ?_
    rintro (⟨-, hempty⟩ | ⟨-, -, halloc, -⟩)
    · exact hlarge fun h => by omega
    · exact hlarge halloc
  | refused _ hbad =>
    have hread : packetRead g s = .error .fault := by
      rw [packetRead, Exec.bind_of_ok hresult, Exec.need_none_bind]
    refine iff_of_false (not_safeRead_of_error hread) ?_
    rintro (⟨hknown, hempty⟩ | ⟨hdata, -, -, hwithin⟩)
    · exact hbad ⟨hknown, fun h => by omega⟩
    · exact hbad ⟨Or.inl hdata, hwithin⟩
  | read halloc hknown hwithin hannounced =>
    rw [safeRead_frame_iff hresult hannounced, Announcement.WellFormed]
    constructor
    · rintro (hempty | ⟨hdata, hroom⟩)
      · exact Or.inl ⟨hknown, hempty⟩
      · exact Or.inr ⟨hdata, hroom, halloc, hwithin⟩
    · rintro (⟨-, hempty⟩ | ⟨hdata, hroom, -⟩)
      · exact Or.inl hempty
      · exact Or.inr ⟨hdata, hroom⟩

end Safe

/-- **When `packet_read` is safe.**  For everything that can be on the socket, however it
arrives, and whatever the memory held before: a call is safe exactly when the frame that
is announced is empty and of a known kind, or is a data frame of at least nine bytes and
not too large for the form of its length. -/
theorem packetRead_safe_iff (g : Garbage) (s : Arrivals UInt8) :
    SafeRead g s ↔ (announcement g s).WellFormed :=
  (frameOutcome g s).safeRead_iff

/-- A masked binary frame with a body of one byte. -/
def oneByteFrame : Arrivals UInt8 := Arrivals.ofList [0x82, 0x81, 1, 2, 3, 4, 0]

/-- **A body of one byte is read behind its end.** -/
theorem not_safeRead_oneByteFrame : ¬∀ g s, SafeRead g s := by
  have hheader : readOver [0, 0] oneByteFrame = [0x82, 0x81] := by
    rw [readOver, Arrivals.readLoop_of_le (by decide)]
    rfl
  have hannounced : announcement zeroGarbage oneByteFrame = ⟨2, 1, 1⟩ := by
    simp [announcement, hheader]
  intro h
  have hwell := (frameOutcome zeroGarbage oneByteFrame).safeRead_iff.mp (h _ _)
  rw [hannounced] at hwell
  exact absurd hwell (by decide)

/-! ## The round trip

A packet that a client flattens and sends as one masked frame is read as the same
packet, below the length at which the 16-bit form stops working. -/

/-- One final binary frame with a mask. -/
def maskedPacket (key : Vector UInt8 4) (packet : Packet) : Rfc6455.Frame :=
  ⟨true, 0, 2, some key, packetFlatten packet⟩

/-- The call returned the packet that was sent, with a zero byte behind its data, and
consumed exactly the bytes of the frame. -/
def ReadsPacket (g : Garbage) (key : Vector UInt8 4) (packet : Packet)
    (s : Arrivals UInt8) : Prop :=
  ∃ found t, packetRead g s = .ok (some found, t) ∧ found.opcode = packet.opcode ∧
    found.id = packet.id ∧ found.length = packet.length ∧
    found.data = packet.data.take packet.length.toNat ++ [0] ∧
    Arrivals.Later s (Rfc6455.encode (maskedPacket key packet)) t

/-- The fields of a flattened packet stand where `packet_read` looks for them. -/
theorem packetFlatten_fields (packet : Packet) :
    (packetFlatten packet)[0]? = some packet.opcode ∧
      ((packetFlatten packet).drop 1).take 4 = leBytes 4 packet.id.toNat ∧
      (packetFlatten packet).drop packetSize = packet.data.take packet.length.toNat := by
  refine ⟨rfl, ?_, ?_⟩
  · show (leBytes 4 packet.id.toNat ++ leBytes 4 packet.length.toNat ++ _).take 4 = _
    rw [List.append_assoc, List.take_left' (length_leBytes 4 _)]
  · refine List.drop_left' ?_
    rw [List.length_append, List.length_append, length_leBytes, length_leBytes]
    rfl

/-- The packet that is taken out of a frame with a flattened packet is that packet. -/
theorem TakenFrom.packet_eq {frame : WSFrame} {packet found : Packet}
    (h : TakenFrom frame (packetFlatten packet) found) :
    found.opcode = packet.opcode ∧ found.id = packet.id ∧ found.length = packet.length ∧
      found.data = packet.data.take packet.length.toNat ++ [0] := by
  obtain ⟨hopcode, hid, hbody⟩ := packetFlatten_fields packet
  refine ⟨Option.some.inj (h.opcode.symm.trans hopcode), ?_, ?_, ?_⟩
  · rw [h.id, hid, leNat_leBytes, Nat.mod_eq_of_lt (lt_of_lt_of_eq packet.id.isLt (by norm_num)),
      BitVec.ofNat_toNat, BitVec.setWidth_eq]
  · apply BitVec.eq_of_toNat_eq
    rw [h.length, length_packetFlatten, Nat.add_sub_cancel_left]
  · rw [h.body, hbody]

/-- One final binary frame with a mask, around any payload. -/
def maskedFrame (key : Vector UInt8 4) (payload : List UInt8) : Rfc6455.Frame :=
  ⟨true, 0, 2, some key, payload⟩

/-- **Every payload with room for a header is accepted**, below the length at which the
16-bit form stops working. -/
theorem packetRead_maskedFrame (g : Garbage) (key : Vector UInt8 4) {payload : List UInt8}
    (hroom : packetSize ≤ payload.length) (hshort : payload.length < 32768)
    {rest : List UInt8} {s : Arrivals UInt8}
    (hs : s.ready = Rfc6455.encode (maskedFrame key payload) ++ rest) :
    ∃ frame found t, wsReadFrame g s = .ok (some frame, t) ∧
      packetRead g s = .ok (some found, t) ∧ TakenFrom frame payload found ∧
      Arrivals.Later s (Rfc6455.encode (maskedFrame key payload)) t := by
  have hsize : packetSize = 9 := rfl
  obtain ⟨t, r', hread, hlater, -⟩ :=
    wsReadFrame_encode (f := maskedFrame key payload) g rfl (Or.inl (le_refl 2)) hshort hs
  have hlength : wsLength (received g (maskedFrame key payload) key) = payload.length :=
    wsLength_received (f := maskedFrame key payload) g key hshort
  have hdata : (received g (maskedFrame key payload) key).data = some payload := by
    show bodyOf payload = _
    rw [bodyOf, if_pos (by omega)]
  have hnonempty : (received g (maskedFrame key payload) key).length ≠ 0 := by
    obtain ⟨-, -, -, hl7⟩ := headerFields_encode (maskedFrame key payload) g
    intro hzero
    have hl7' : (received g (maskedFrame key payload) key).length.toNat
        = Rfc6455.length7 payload.length := hl7
    rw [hzero, Rfc6455.length7] at hl7'
    have hnat : (0 : BitVec 7).toNat = 0 := rfl
    split at hl7'
    · omega
    split at hl7' <;> omega
  obtain ⟨found, hfound, htaken⟩ := packetOfFrame_read (s := t) hdata hlength hroom (by omega)
  refine ⟨_, found, t, hread, ?_, htaken, hlater⟩
  rw [packetRead, Exec.bind_of_ok hread, Exec.need_some_bind, if_neg hnonempty, hfound]

/-- **The round trip of a packet.**  Every packet whose flattened form is shorter than
`32768` bytes is read back from the masked frame that carries it, whatever the key and
whatever follows the frame. -/
theorem packetRead_maskedPacket (g : Garbage) (key : Vector UInt8 4) (packet : Packet)
    (hlen : packet.length.toNat + 9 < 32768) {rest : List UInt8} {s : Arrivals UInt8}
    (hs : s.ready = Rfc6455.encode (maskedPacket key packet) ++ rest) :
    ReadsPacket g key packet s := by
  have hsize : packetSize = 9 := rfl
  have hflat := length_packetFlatten packet
  obtain ⟨frame, found, t, -, hread, htaken, hlater⟩ :=
    packetRead_maskedFrame g key (by omega) (by omega) hs
  obtain ⟨hopcode, hid, hlen', hbody⟩ := htaken.packet_eq
  exact ⟨found, t, hread, hopcode, hid, hlen', hbody, hlater⟩

/-- A packet with two bytes of data, and something behind its frame. -/
def twoBytePacket : Packet := ⟨17, 5, 2, [1, 2], by decide⟩

theorem packetRead_twoBytePacket :
    ReadsPacket zeroGarbage ⟨#[1, 2, 3, 4], rfl⟩ twoBytePacket
      (Arrivals.ofList
        (Rfc6455.encode (maskedPacket ⟨#[1, 2, 3, 4], rfl⟩ twoBytePacket) ++ [0x82])) :=
  packetRead_maskedPacket _ _ _ (by decide) rfl

end Communication
end MmoBackend
