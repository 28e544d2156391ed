import MmoBackend.Library.Bytes

/-!
# `web-socket.c`: the frame, and how it is written

`WSFrame` is the struct the server keeps a frame in.  Its flags are C bit-fields,
so assigning a number to one keeps the low bits only, and its extended length is
a union: `short_len` is the low half-word of the eight bytes of `long_len` on a
little-endian machine.

`wsBinFrame` builds a frame and `wsWriteFrame` sends it.  A frame is not sent in
one piece: `ws_write_frame` calls `ws_write` once for the two header bytes, once
more for the extended length if there is one, and once for the body.
`wsWriteFrame` is the list of the buffers of those calls, in order; what the
socket does with each of them is a separate question, and `frameBytes` is the
answer when it accepts them all.
-/

namespace MmoBackend
namespace Networking

open Bytes

/-- `htons`, on a little-endian machine. -/
def htons (n : ℕ) : ℕ := byteSwap 2 n

/-- `ntohs`, on a little-endian machine. -/
def ntohs (n : ℕ) : ℕ := byteSwap 2 n

/-- `htonl`, on a little-endian machine.  Its argument has 32 bits. -/
def htonl (n : ℕ) : ℕ := byteSwap 4 n

/-- `ntohl`, on a little-endian machine.  Its argument has 32 bits. -/
def ntohl (n : ℕ) : ℕ := byteSwap 4 n

/-- `WS_Frame`. -/
structure WSFrame where
  fin : BitVec 1
  rsv1 : BitVec 1
  rsv2 : BitVec 1
  rsv3 : BitVec 1
  opcode : BitVec 4
  mask : BitVec 1
  length : BitVec 7
  key : BitVec 32
  /-- The union `length_ext`. -/
  lengthExt : BitVec 64
  /-- The body; a null pointer is `none`. -/
  data : Option (List UInt8)
  deriving DecidableEq

namespace WSFrame

/-- A struct of zero bytes. -/
def zero : WSFrame := ⟨0, 0, 0, 0, 0, 0, 0, 0, 0, none⟩

/-- `length_ext.short_len`. -/
def shortLen (frame : WSFrame) : BitVec 16 := frame.lengthExt.setWidth 16

/-- Assigning `length_ext.short_len` leaves the other six bytes of the union. -/
def setShortLen (ext : BitVec 64) (len : ℕ) : BitVec 64 :=
  (ext >>> 16) <<< 16 ||| (BitVec.ofNat 16 len).setWidth 64

@[simp] theorem setWidth_setShortLen (ext : BitVec 64) (len : ℕ) :
    (setShortLen ext len).setWidth 16 = BitVec.ofNat 16 len := by
  apply BitVec.eq_of_getLsbD_eq
  intro i hi
  simp [setShortLen, hi]

end WSFrame

/-- `WS_FRAME_SIZE`: four megabytes. -/
def wsFrameSize : ℕ := 4 * 1048576

/-- `ws_length`.  The short form is signed and is widened with its sign. -/
def wsLength (frame : WSFrame) : ℕ :=
  if frame.length.toNat = 126 then (frame.shortLen.signExtend 64).toNat
  else if frame.length.toNat = 127 then frame.lengthExt.toNat
  else frame.length.toNat

/-! ## Writing -/

/-- `ws_transcribe_headers`. -/
def wsTranscribeHeaders (frame : WSFrame) : BitVec 16 :=
  frame.fin.setWidth 16 <<< 7 ||| frame.rsv1.setWidth 16 <<< 6 |||
    frame.rsv2.setWidth 16 <<< 5 ||| frame.rsv3.setWidth 16 <<< 4 |||
    frame.opcode.setWidth 16 ||| frame.mask.setWidth 16 <<< (7 + 8) |||
    frame.length.setWidth 16 <<< 8

/-- `ws_bin_frame`.  `junk` is the content of the freshly allocated struct; the
fields the function does not assign keep it. -/
def wsBinFrame (junk : WSFrame) (data : List UInt8) (len : ℕ) : WSFrame :=
  { junk with
    length :=
      if len < 126 then BitVec.ofNat 7 len else if len < 32767 then 126 else 127
    lengthExt :=
      if len < 126 then junk.lengthExt
      else if len < 32767 then WSFrame.setShortLen junk.lengthExt (htons len)
      else BitVec.ofNat 64 (htonl len)
    fin := 1
    rsv1 := 0
    rsv2 := 0
    rsv3 := 0
    opcode := 2
    mask := 0
    data := some (data.take len) }

/-- `ws_write_frame`: the buffers of its calls of `ws_write`, in order. -/
def wsWriteFrame (frame : WSFrame) : List (List UInt8) :=
  let headers := leBytes 2 (wsTranscribeHeaders frame).toNat
  let ext :=
    if frame.length.toNat = 126 then [leBytes 2 frame.shortLen.toNat]
    else if frame.length.toNat = 127 then [leBytes 8 frame.lengthExt.toNat]
    else []
  let dataLength :=
    if frame.length.toNat = 126 then ntohs frame.shortLen.toNat
    else if frame.length.toNat = 127 then ntohl frame.lengthExt.toNat
    else frame.length.toNat
  let key := if frame.mask.toNat = 0 then [] else [leBytes 4 frame.key.toNat]
  headers :: ext ++ key ++ [(frame.data.getD []).take dataLength]

/-- The bytes of a frame that is written completely. -/
def frameBytes (frame : WSFrame) : List UInt8 := (wsWriteFrame frame).flatten

/-! ## The bytes of a binary frame

A binary frame is written as its header, the extended length of its form, and
the body.  The three forms are those of `ws_bin_frame`, and nothing of the
uninitialised struct reaches the wire. -/

/-- The header of a final, unmasked binary frame. -/
theorem leBytes_wsTranscribeHeaders (junk : WSFrame) (data : List UInt8) (len : ℕ) :
    leBytes 2 (wsTranscribeHeaders (wsBinFrame junk data len)).toNat
      = [0x82, UInt8.ofNat (wsBinFrame junk data len).length.toNat] := by
  have hbits : ∀ l : BitVec 7,
      leBytes 2 ((1 : BitVec 1).setWidth 16 <<< 7 ||| (0 : BitVec 1).setWidth 16 <<< 6 |||
        (0 : BitVec 1).setWidth 16 <<< 5 ||| (0 : BitVec 1).setWidth 16 <<< 4 |||
        (2 : BitVec 4).setWidth 16 ||| (0 : BitVec 1).setWidth 16 <<< (7 + 8) |||
        l.setWidth 16 <<< 8).toNat = [0x82, UInt8.ofNat l.toNat] := by
    decide
  exact hbits _

/-- What `ws_write` is called with for the extended length of a binary frame. -/
def binLengthExt (len : ℕ) : List (List UInt8) :=
  if len < 126 then []
  else if len < 32767 then [beBytes 2 len]
  else [beBytes 4 len ++ [0, 0, 0, 0]]

/-- The 7-bit length of a binary frame. -/
def binLength7 (len : ℕ) : ℕ := if len < 126 then len else if len < 32767 then 126 else 127

theorem toNat_length_wsBinFrame (junk : WSFrame) (data : List UInt8) (len : ℕ) :
    (wsBinFrame junk data len).length.toNat = binLength7 len := by
  unfold wsBinFrame binLength7
  split
  · rename_i h
    exact (BitVec.toNat_ofNat len 7).trans (Nat.mod_eq_of_lt (lt_trans h (by norm_num)))
  · split <;> rfl

/-- A 32-bit number stored in eight bytes ends in four zero bytes. -/
theorem leBytes_eight_of_lt {n : ℕ} (h : n < 256 ^ 4) :
    leBytes 8 n = leBytes 4 n ++ [0, 0, 0, 0] := by
  have h4 : n / 256 / 256 / 256 / 256 = 0 := by omega
  simp only [leBytes_succ, leBytes_zero, h4, List.cons_append, List.nil_append]
  rfl

/-- **The buffers of a binary frame.**  The two header bytes, the extended length
and the body are separate calls. -/
theorem wsWriteFrame_wsBinFrame (junk : WSFrame) (data : List UInt8) {len : ℕ}
    (hlen : len < 2 ^ 32) :
    wsWriteFrame (wsBinFrame junk data len)
      = [0x82, UInt8.ofNat (binLength7 len)] :: binLengthExt len ++ [data.take len] := by
  have hhead := leBytes_wsTranscribeHeaders junk data len
  have hmask : (wsBinFrame junk data len).mask.toNat = 0 := rfl
  have hdata : ((wsBinFrame junk data len).data.getD []).take len = data.take len := by
    rw [wsBinFrame, Option.getD_some, List.take_take, min_self]
  rw [toNat_length_wsBinFrame] at hhead
  simp only [wsWriteFrame, toNat_length_wsBinFrame, hhead, hmask, if_true]
  by_cases h7 : len < 126
  · have h126 : len ≠ 126 := by omega
    have h127 : len ≠ 127 := by omega
    simp [binLength7, binLengthExt, h7, h126, h127, hdata]
  by_cases h16 : len < 32767
  · have hshort : (wsBinFrame junk data len).shortLen.toNat = byteSwap 2 len := by
      have hlt := byteSwap_lt 2 len
      simp only [WSFrame.shortLen, wsBinFrame, h7, h16, if_false, if_true,
        WSFrame.setWidth_setShortLen, BitVec.toNat_ofNat, htons]
      exact Nat.mod_eq_of_lt (lt_of_lt_of_eq hlt (by norm_num))
    have hback : byteSwap 2 (byteSwap 2 len) = len := by
      rw [byteSwap_byteSwap]
      exact Nat.mod_eq_of_lt (lt_trans h16 (by norm_num))
    simp [binLength7, binLengthExt, h7, h16, hshort, ntohs, hback, leBytes_byteSwap, hdata]
  · have hlong : (wsBinFrame junk data len).lengthExt.toNat = byteSwap 4 len := by
      have hlt := byteSwap_lt 4 len
      simp only [wsBinFrame, h7, h16, if_false, BitVec.toNat_ofNat, htonl]
      exact Nat.mod_eq_of_lt (lt_trans hlt (by norm_num))
    have hback : byteSwap 4 (byteSwap 4 len) = len := by
      rw [byteSwap_byteSwap]
      exact Nat.mod_eq_of_lt (lt_of_lt_of_eq hlen (by norm_num))
    have hext : leBytes 8 (byteSwap 4 len) = beBytes 4 len ++ [0, 0, 0, 0] := by
      rw [leBytes_eight_of_lt (byteSwap_lt 4 len), leBytes_byteSwap]
    simp [binLength7, binLengthExt, h7, h16, hlong, ntohl, hback, hext, hdata]

/-- The bytes of a binary frame. -/
theorem frameBytes_wsBinFrame (junk : WSFrame) (data : List UInt8) {len : ℕ}
    (hlen : len < 2 ^ 32) :
    frameBytes (wsBinFrame junk data len)
      = 0x82 :: UInt8.ofNat (binLength7 len) ::
        ((binLengthExt len).flatten ++ data.take len) := by
  rw [frameBytes, wsWriteFrame_wsBinFrame junk data hlen]
  simp

end Networking
end MmoBackend
