import Mathlib.Data.List.GetD
import MmoBackend.Library.Arrivals
import MmoBackend.Library.Exec
import MmoBackend.Library.Rfc6455
import MmoBackend.Networking.WebSocket

/-!
# `web-socket.c`: reading a frame

`wsReadFrame` is `ws_read_frame` on a non-blocking socket.  The function reads
into a struct on its stack and into freshly allocated memory, neither of which it
clears; `Garbage` is what they contain before, so that a read that comes up short
leaves visible what was there.  `ws_read` reports nothing, and its callers go on
either way.
-/

namespace MmoBackend
namespace Networking

open Bytes

/-- What the memory used by one call of `ws_read_frame` contains before it. -/
structure Garbage where
  key : BitVec 32
  lengthExt : BitVec 64
  body : ℕ → UInt8

/-- `ws_read` into memory that contains `old`. -/
def wsRead (old : List UInt8) : Exec (Arrivals UInt8) (List UInt8) := fun s =>
  .ok ((s.readLoop old.length).1 ++ old.drop (s.readLoop old.length).1.length,
    (s.readLoop old.length).2)

/-- `sizeof(WS_Frame)`. -/
def sizeofWSFrame : ℕ := 24

/-- `frame = malloc(sizeof(WS_Frame) + extra)` and the copy of the struct into it.
The sum is taken in 64 bits.  A request of `2 ^ 63` bytes or more returns a null
pointer and one below the size of the struct is too small for the copy. -/
def allocFrame (extra : BitVec 64) : Exec (Arrivals UInt8) Unit :=
  let size := (BitVec.ofNat 64 sizeofWSFrame + extra).toNat
  if 2 ^ 63 ≤ size ∨ size < sizeofWSFrame then Exec.stop .fault else pure ()

/-- `ws_apply_key`.  The key is an `int` in host order, so its bytes are taken from
the top. -/
def wsApplyKey (key : BitVec 32) (data : List UInt8) : List UInt8 :=
  data.mapIdx fun i b => b ^^^ (leBytes 4 key.toNat).getD (3 - i % 4) 0

/-- The mask key in host order, from the four bytes of the struct that hold it. -/
def hostKey (keyBytes : List UInt8) : BitVec 32 := BitVec.ofNat 32 (ntohl (leNat keyBytes))

/-- The mask key.  It is converted whether or not the frame has one. -/
def wsReadKey (g : Garbage) (temp : WSFrame) : Exec (Arrivals UInt8) (BitVec 32) :=
  if temp.mask = 1 then do
    let keyBytes ← wsRead (leBytes 4 g.key.toNat)
    pure (hostKey keyBytes)
  else pure (hostKey (leBytes 4 g.key.toNat))

/-- The body, unmasked in place. -/
def wsReadBody (g : Garbage) (key : BitVec 32) (frameSize : ℕ) :
    Exec (Arrivals UInt8) (Option (List UInt8)) :=
  if frameSize ≠ 0 then do
    let body ← wsRead ((List.range frameSize).map g.body)
    pure (some (wsApplyKey key body))
  else pure none

/-- `ws_read_frame` after the size of the frame is known: the mask, the body and
the check of the opcode. -/
def wsReadRest (g : Garbage) (temp : WSFrame) (frameSize : ℕ) :
    Exec (Arrivals UInt8) (Option WSFrame) := do
  let key ← wsReadKey g temp
  let data ← wsReadBody g key frameSize
  if (2 < temp.opcode.toNat ∧ temp.opcode.toNat < 8) ∨ 10 < temp.opcode.toNat then
    pure none
  else pure (some { temp with key := key, data := data })

/-- The flags `ws_read_frame` takes from the two header bytes. -/
def headerFields (headers : BitVec 16) (g : Garbage) : WSFrame :=
  { fin := (headers >>> (7 + 8)).setWidth 1
    rsv1 := (headers >>> (6 + 8)).setWidth 1
    rsv2 := (headers >>> (5 + 8)).setWidth 1
    rsv3 := (headers >>> (4 + 8)).setWidth 1
    opcode := (headers >>> 8).setWidth 4
    mask := (headers >>> 7).setWidth 1
    length := (headers &&& 127).setWidth 7
    key := g.key
    lengthExt := g.lengthExt
    data := none }

/-- `ws_read_frame` after the header: the length in its three forms. -/
def wsReadSize (g : Garbage) (temp : WSFrame) :
    Exec (Arrivals UInt8) (Option WSFrame) := do
  if temp.length.toNat = 126 then do
    let shortBytes ← wsRead (leBytes 2 g.lengthExt.toNat)
    let frameSize := ntohs (leNat shortBytes)
    let temp := { temp with lengthExt := WSFrame.setShortLen g.lengthExt frameSize }
    -- the allocation adds `short_len`, which is signed
    allocFrame (temp.shortLen.signExtend 64)
    wsReadRest g temp frameSize
  else if temp.length.toNat = 127 then do
    let longBytes ← wsRead (leBytes 8 g.lengthExt.toNat)
    let frameSize := ntohl (leNat longBytes)
    if wsFrameSize < frameSize then pure none
    else do
      let temp := { temp with lengthExt := BitVec.ofNat 64 frameSize }
      allocFrame temp.lengthExt
      wsReadRest g temp frameSize
  else do
    allocFrame (temp.length.setWidth 64)
    wsReadRest g temp temp.length.toNat

/-- `ws_read_frame`. -/
def wsReadFrame (g : Garbage) : Exec (Arrivals UInt8) (Option WSFrame) := do
  let headerBytes ← wsRead [0, 0]
  wsReadSize g (headerFields (BitVec.ofNat 16 (ntohs (leNat headerBytes))) g)

/-! ## Reading what has arrived -/

theorem wsRead_eq (old : List UInt8) (s : Arrivals UInt8) :
    wsRead old s = .ok ((s.readLoop old.length).1 ++ old.drop (s.readLoop old.length).1.length,
      (s.readLoop old.length).2) := rfl

/-- A read whose bytes have arrived fills its buffer with them.  What arrives
meanwhile goes behind what is left. -/
theorem wsRead_front (old : List UInt8) {a r : List UInt8} {s : Arrivals UInt8}
    (hs : s.ready = a ++ r)
    (hlen : old.length = a.length) :
    ∃ t r', wsRead old s = .ok (a, t) ∧ Arrivals.Later s a t ∧ t.ready = r ++ r' := by
  have hle : old.length ≤ s.ready.length := by
    rw [hs, List.length_append]
    omega
  have hgot : (s.readLoop old.length).1 = a := by
    rw [Arrivals.readLoop_of_le hle, hs, hlen, List.take_left]
  have hlater := Arrivals.later_readLoop old.length s
  rw [hgot] at hlater
  obtain ⟨k, hk, hkc⟩ := id hlater
  refine ⟨(s.readLoop old.length).2, (s.coming.take k).flatten, ?_, hlater, ?_⟩
  · rw [wsRead_eq, hgot, ← hlen, List.drop_length, List.append_nil]
  · rw [hs, List.append_assoc] at hk
    exact List.append_cancel_left hk

/-! ## The mask key

The key is loaded as a little-endian word, swapped by `ntohl`, and then read from
its top byte down.  The two reversals cancel. -/

theorem leBytes_hostKey {l : List UInt8} (hlen : l.length = 4) :
    leBytes 4 (hostKey l).toNat = l.reverse := by
  have hswap := byteSwap_leNat l
  have hlt := beNat_lt l
  have hbytes := beBytes_beNat l
  rw [hlen] at hswap hlt hbytes
  rw [hostKey, ntohl, hswap, BitVec.toNat_ofNat,
    Nat.mod_eq_of_lt (lt_of_lt_of_eq hlt (by norm_num))]
  rw [beBytes, List.reverse_eq_iff] at hbytes
  exact hbytes

/-- **The body is unmasked.** -/
theorem wsApplyKey_applyMask (key : Vector UInt8 4) (data : List UInt8) :
    wsApplyKey (hostKey key.toList) (Rfc6455.applyMask key data) = data := by
  have hlen : key.toList.length = 4 := Vector.length_toList
  have hkey : ∀ i, (key.toList.reverse).getD (3 - i % 4) 0 = key[i % 4] := by
    intro i
    have hi : i % 4 < 4 := Nat.mod_lt i (by decide)
    rw [List.getD_eq_getElem _ _ (by rw [List.length_reverse, hlen]; omega),
      List.getElem_reverse]
    simp only [hlen, Vector.getElem_toList]
    congr 1
    omega
  have hmask : wsApplyKey (hostKey key.toList) (Rfc6455.applyMask key data)
      = Rfc6455.applyMask key (Rfc6455.applyMask key data) := by
    rw [wsApplyKey, leBytes_hostKey hlen, Rfc6455.applyMask]
    simp only [hkey]
    rfl
  rw [hmask, Rfc6455.applyMask_applyMask]

/-! ## The header -/

/-- The two header bytes are swapped into one word. -/
theorem ntohs_leNat_pair (a b : UInt8) : ntohs (leNat [a, b]) = a.toNat * 256 + b.toNat := by
  have h := byteSwap_leNat [a, b]
  rw [ntohs, show (2 : ℕ) = [a, b].length from rfl, h, beNat]
  simp only [List.reverse_cons, List.reverse_nil, List.nil_append, List.cons_append,
    leNat_cons, leNat_nil]
  omega

/-- A single bit of the header word. -/
theorem setWidth_one_shiftRight (headers : BitVec 16) (k : ℕ) :
    ((headers >>> k).setWidth 1).toNat = headers.toNat / 2 ^ k % 2 := by
  rw [BitVec.toNat_setWidth, BitVec.toNat_ushiftRight, Nat.shiftRight_eq_div_pow, pow_one]

/-- **The flags are read back.** -/
theorem headerFields_encode (f : Rfc6455.Frame) (g : Garbage) :
    let temp := headerFields (BitVec.ofNat 16 (Rfc6455.byte0 f * 256 + Rfc6455.byte1 f)) g
    temp.fin = BitVec.ofBool f.fin ∧ temp.opcode = f.opcode ∧
      temp.mask = BitVec.ofBool f.maskKey.isSome ∧
      temp.length.toNat = Rfc6455.length7 f.payload.length := by
  have h0 := Rfc6455.byte0_lt f
  have h1 := Rfc6455.byte1_lt f
  have hl7 := Rfc6455.length7_lt f.payload.length
  have hword : (BitVec.ofNat 16 (Rfc6455.byte0 f * 256 + Rfc6455.byte1 f)).toNat
      = Rfc6455.byte0 f * 256 + Rfc6455.byte1 f := by
    rw [BitVec.toNat_ofNat, Nat.mod_eq_of_lt (by omega)]
  have hrsv := f.rsv.isLt
  have hop := f.opcode.isLt
  have hfin : f.fin.toNat ≤ 1 := Bool.toNat_le f.fin
  have hmask : f.maskKey.isSome.toNat ≤ 1 := Bool.toNat_le _
  refine ⟨?_, ?_, ?_, ?_⟩
  · apply BitVec.eq_of_toNat_eq
    rw [headerFields, setWidth_one_shiftRight, hword, BitVec.toNat_ofBool]
    unfold Rfc6455.byte0 at h0 ⊢
    omega
  · apply BitVec.eq_of_toNat_eq
    rw [headerFields, BitVec.toNat_setWidth, BitVec.toNat_ushiftRight,
      Nat.shiftRight_eq_div_pow, hword]
    unfold Rfc6455.byte0 at h0 ⊢
    omega
  · apply BitVec.eq_of_toNat_eq
    rw [headerFields, setWidth_one_shiftRight, hword, BitVec.toNat_ofBool]
    unfold Rfc6455.byte1 at h1 ⊢
    omega
  · have hand : ((127 : BitVec 16)).toNat = 2 ^ 7 - 1 := rfl
    rw [headerFields, BitVec.toNat_setWidth, BitVec.toNat_and, hword, hand,
      Nat.and_two_pow_sub_one_eq_mod]
    unfold Rfc6455.byte1 at h1 ⊢
    omega

/-! ## The mask and the body -/

/-- The opcodes the reader lets through. -/
def AcceptedOpcode (opcode : BitVec 4) : Prop :=
  opcode.toNat ≤ 2 ∨ 8 ≤ opcode.toNat ∧ opcode.toNat ≤ 10

/-- A body of length zero is a null pointer. -/
def bodyOf (payload : List UInt8) : Option (List UInt8) :=
  if payload.length ≠ 0 then some payload else none

theorem wsReadKey_front (g : Garbage) {temp : WSFrame} {key : Vector UInt8 4}
    {rest : List UInt8} {s : Arrivals UInt8} (hmask : temp.mask = 1)
    (hs : s.ready = key.toList ++ rest) :
    ∃ t r', wsReadKey g temp s = .ok (hostKey key.toList, t) ∧
      Arrivals.Later s key.toList t ∧ t.ready = rest ++ r' := by
  have hold : (leBytes 4 g.key.toNat).length = key.toList.length := by
    rw [length_leBytes, Vector.length_toList]
  obtain ⟨t, r', hread, hlater, ht⟩ := wsRead_front _ hs hold
  refine ⟨t, r', ?_, hlater, ht⟩
  rw [wsReadKey, if_pos hmask, Exec.bind_of_ok hread]
  rfl

theorem wsReadBody_front (g : Garbage) (key : Vector UInt8 4) {payload rest : List UInt8}
    {s : Arrivals UInt8} (hs : s.ready = Rfc6455.applyMask key payload ++ rest) :
    ∃ t r', wsReadBody g (hostKey key.toList) payload.length s = .ok (bodyOf payload, t) ∧
      Arrivals.Later s (Rfc6455.applyMask key payload) t ∧ t.ready = rest ++ r' := by
  by_cases hlen : payload.length = 0
  · have hpay : payload = [] := List.eq_nil_of_length_eq_zero hlen
    have hnil : Rfc6455.applyMask key payload = [] := by
      rw [hpay]
      rfl
    refine ⟨s, [], ?_, ?_, ?_⟩
    · rw [wsReadBody, if_neg (not_not.mpr hlen), bodyOf, if_neg (not_not.mpr hlen)]
      rfl
    · exact hnil ▸ Arrivals.Later.refl s
    · rw [hs, hnil, List.nil_append, List.append_nil]
  · have hbuf : ((List.range payload.length).map g.body).length
        = (Rfc6455.applyMask key payload).length := by
      rw [List.length_map, List.length_range, Rfc6455.length_applyMask]
    obtain ⟨t, r', hread, hlater, ht⟩ := wsRead_front _ hs hbuf
    refine ⟨t, r', ?_, hlater, ht⟩
    rw [wsReadBody, if_pos hlen, Exec.bind_of_ok hread, wsApplyKey_applyMask, bodyOf,
      if_pos hlen]
    rfl

/-- **The mask and the body, when they have arrived.** -/
theorem wsReadRest_front (g : Garbage) (temp : WSFrame) {key : Vector UInt8 4}
    {payload rest : List UInt8} {s : Arrivals UInt8} (hmask : temp.mask = 1)
    (hop : AcceptedOpcode temp.opcode)
    (hs : s.ready = key.toList ++ (Rfc6455.applyMask key payload ++ rest)) :
    ∃ t r', wsReadRest g temp payload.length s
        = .ok (some { temp with key := hostKey key.toList, data := bodyOf payload }, t) ∧
      Arrivals.Later s (key.toList ++ Rfc6455.applyMask key payload) t ∧
      t.ready = rest ++ r' := by
  have hop' : ¬((2 < temp.opcode.toNat ∧ temp.opcode.toNat < 8) ∨ 10 < temp.opcode.toNat) := by
    unfold AcceptedOpcode at hop
    omega
  obtain ⟨t, r₁, hkey, hlater, ht⟩ := wsReadKey_front g hmask hs
  rw [List.append_assoc] at ht
  obtain ⟨u, r₂, hbody, hlater', hu⟩ := wsReadBody_front g key ht
  refine ⟨u, r₁ ++ r₂, ?_, hlater.trans hlater', ?_⟩
  · rw [wsReadRest, Exec.bind_of_ok hkey, Exec.bind_of_ok hbody, if_neg hop']
    rfl
  · rw [hu, List.append_assoc]

/-! ## The length

The allocation is what separates the forms: a length of `32768` or more is
negative as a `short`. -/

/-- A 16-bit length is converted to host order. -/
theorem ntohs_leNat_beBytes {n : ℕ} (h : n < 65536) : ntohs (leNat (beBytes 2 n)) = n := by
  have hswap := byteSwap_leNat (beBytes 2 n)
  rw [length_beBytes] at hswap
  rw [ntohs, hswap, beNat_beBytes_of_lt h]

/-- The allocation succeeds below `2 ^ 62` bytes. -/
theorem allocFrame_of_lt {extra : BitVec 64} (h : extra.toNat < 2 ^ 62) (s : Arrivals UInt8) :
    allocFrame extra s = .ok ((), s) := by
  have hsize : (BitVec.ofNat 64 sizeofWSFrame + extra).toNat = 24 + extra.toNat := by
    rw [BitVec.toNat_add, BitVec.toNat_ofNat, sizeofWSFrame]
    omega
  have hok : ¬(2 ^ 63 ≤ 24 + extra.toNat ∨ 24 + extra.toNat < sizeofWSFrame) := by
    rw [sizeofWSFrame]
    omega
  rw [allocFrame, hsize, if_neg hok]
  rfl

/-- A request that is negative as a signed number fails. -/
theorem allocFrame_of_neg {extra : BitVec 64} (h : 2 ^ 64 - 2 ^ 15 ≤ extra.toNat)
    (s : Arrivals UInt8) : allocFrame extra s = .error .fault := by
  have hlt := extra.isLt
  have hsize : (BitVec.ofNat 64 sizeofWSFrame + extra).toNat = (24 + extra.toNat) % 2 ^ 64 := by
    rw [BitVec.toNat_add, BitVec.toNat_ofNat, sizeofWSFrame]
  have hbad : 2 ^ 63 ≤ (24 + extra.toNat) % 2 ^ 64 ∨
      (24 + extra.toNat) % 2 ^ 64 < sizeofWSFrame := by
    rw [sizeofWSFrame]
    omega
  rw [allocFrame, hsize, if_pos hbad]
  rfl

/-- A 16-bit length widened with its sign. -/
theorem toNat_signExtend_ofNat {n : ℕ} (h : n < 65536) :
    ((BitVec.ofNat 16 n).signExtend 64).toNat = if n < 32768 then n else n + (2 ^ 64 - 2 ^ 16) := by
  have hn : (BitVec.ofNat 16 n).toNat = n := by
    rw [BitVec.toNat_ofNat, Nat.mod_eq_of_lt h]
  rw [BitVec.toNat_signExtend, BitVec.toNat_setWidth, BitVec.msb_eq_decide, hn,
    Nat.mod_eq_of_lt (by omega)]
  by_cases hlt : n < 32768
  · rw [if_pos hlt, if_neg (by simpa using hlt), Nat.add_zero]
  · rw [if_neg hlt, if_pos (by simpa using not_lt.mp hlt)]

/-- A length in the header itself. -/
theorem wsReadSize_inline (g : Garbage) {temp : WSFrame} (h : temp.length.toNat < 126)
    (s : Arrivals UInt8) : wsReadSize g temp s = wsReadRest g temp temp.length.toNat s := by
  have halloc : (temp.length.setWidth 64).toNat < 2 ^ 62 := by
    rw [BitVec.toNat_setWidth]
    omega
  rw [wsReadSize, if_neg (by omega), if_neg (by omega), Exec.bind_of_ok (allocFrame_of_lt halloc s)]

/-- A length of two bytes, which the allocation takes for a signed number. -/
theorem wsReadSize_short (g : Garbage) {temp : WSFrame} (h : temp.length.toNat = 126)
    {l : List UInt8} {n : ℕ} {s t : Arrivals UInt8}
    (hread : wsRead (leBytes 2 g.lengthExt.toNat) s = .ok (l, t)) (hsize : ntohs (leNat l) = n)
    (hn : n < 65536) :
    wsReadSize g temp s = if n < 32768 then
      wsReadRest g { temp with lengthExt := WSFrame.setShortLen g.lengthExt n } n t
    else .error .fault := by
  have hshort : ((WSFrame.shortLen
      { temp with lengthExt := WSFrame.setShortLen g.lengthExt n }).signExtend 64).toNat
        = if n < 32768 then n else n + (2 ^ 64 - 2 ^ 16) := by
    rw [WSFrame.shortLen, WSFrame.setWidth_setShortLen, toNat_signExtend_ofNat hn]
  rw [wsReadSize, if_pos h, Exec.bind_of_ok hread]
  simp only [hsize]
  split
  · rename_i hlt
    rw [if_pos hlt] at hshort
    exact Exec.bind_of_ok (allocFrame_of_lt (by omega) t)
  · rename_i hge
    rw [if_neg hge] at hshort
    exact Exec.bind_of_error (allocFrame_of_neg (by omega) t)

/-- A length of eight bytes. -/
theorem wsReadSize_long (g : Garbage) {temp : WSFrame} (h : temp.length.toNat = 127)
    {l : List UInt8} {n : ℕ} {s t : Arrivals UInt8}
    (hread : wsRead (leBytes 8 g.lengthExt.toNat) s = .ok (l, t)) (hsize : ntohl (leNat l) = n) :
    wsReadSize g temp s = if wsFrameSize < n then .ok (none, t) else
      wsReadRest g { temp with lengthExt := BitVec.ofNat 64 n } n t := by
  rw [wsReadSize, if_neg (by omega), if_pos h, Exec.bind_of_ok hread]
  simp only [hsize]
  split
  · rfl
  · rename_i hle
    rw [wsFrameSize] at hle
    have halloc : (BitVec.ofNat 64 n).toNat < 2 ^ 62 := by
      rw [BitVec.toNat_ofNat]
      omega
    exact Exec.bind_of_ok (allocFrame_of_lt halloc t)

/-- The bytes of a masked frame behind its header. -/
theorem encode_masked {f : Rfc6455.Frame} {key : Vector UInt8 4} (hkey : f.maskKey = some key) :
    Rfc6455.encode f = [UInt8.ofNat (Rfc6455.byte0 f), UInt8.ofNat (Rfc6455.byte1 f)] ++
      (Rfc6455.lengthExt f.payload.length ++
        (key.toList ++ Rfc6455.applyMask key f.payload)) := by
  rw [Rfc6455.encode, Rfc6455.wirePayload, hkey]
  rfl

/-- The flags of a frame as `ws_read_frame` holds them after the header. -/
def headerOf (g : Garbage) (f : Rfc6455.Frame) : WSFrame :=
  headerFields (BitVec.ofNat 16 (Rfc6455.byte0 f * 256 + Rfc6455.byte1 f)) g

theorem wsReadFrame_header (g : Garbage) {f : Rfc6455.Frame} {rest : List UInt8}
    {s : Arrivals UInt8}
    (hs : s.ready = [UInt8.ofNat (Rfc6455.byte0 f), UInt8.ofNat (Rfc6455.byte1 f)] ++ rest) :
    ∃ t r', wsReadFrame g s = wsReadSize g (headerOf g f) t ∧
      Arrivals.Later s [UInt8.ofNat (Rfc6455.byte0 f), UInt8.ofNat (Rfc6455.byte1 f)] t ∧
      t.ready = rest ++ r' := by
  obtain ⟨t, r', hread, hlater, ht⟩ := wsRead_front [0, 0] hs rfl
  refine ⟨t, r', ?_, hlater, ht⟩
  rw [wsReadFrame, Exec.bind_of_ok hread, ntohs_leNat_pair,
    Rfc6455.toNat_ofNat_of_lt (Rfc6455.byte0_lt f), Rfc6455.toNat_ofNat_of_lt (Rfc6455.byte1_lt f)]
  rfl

/-- The union `length_ext` after a frame of fewer than `32768` bytes was read. -/
def extAfter (ext : BitVec 64) (n : ℕ) : BitVec 64 :=
  if n < 126 then ext else WSFrame.setShortLen ext n

/-- The frame `ws_read_frame` makes of a masked frame of fewer than `32768` bytes. -/
def received (g : Garbage) (f : Rfc6455.Frame) (key : Vector UInt8 4) : WSFrame :=
  { headerOf g f with
    key := hostKey key.toList
    lengthExt := extAfter g.lengthExt f.payload.length
    data := bodyOf f.payload }

/-- The length, the mask and the body of a frame of fewer than `32768` bytes. -/
theorem wsReadSize_front (g : Garbage) {f : Rfc6455.Frame} {key : Vector UInt8 4}
    (hkey : f.maskKey = some key) (hop : AcceptedOpcode f.opcode)
    (hlen : f.payload.length < 32768) {rest : List UInt8} {s : Arrivals UInt8}
    (hs : s.ready = Rfc6455.lengthExt f.payload.length ++
      (key.toList ++ (Rfc6455.applyMask key f.payload ++ rest))) :
    ∃ t r', wsReadSize g (headerOf g f) s = .ok (some (received g f key), t) ∧
      Arrivals.Later s (Rfc6455.lengthExt f.payload.length ++
        (key.toList ++ Rfc6455.applyMask key f.payload)) t ∧
      t.ready = rest ++ r' := by
  obtain ⟨-, hopcode, hmask, hl7⟩ := headerFields_encode f g
  rw [hkey, Option.isSome_some] at hmask
  rw [← hopcode] at hop
  by_cases h7 : f.payload.length < 126
  · have hl : (headerOf g f).length.toNat = f.payload.length := by
      rw [headerOf, hl7, Rfc6455.length7, if_pos h7]
    have hext : Rfc6455.lengthExt f.payload.length = [] := by
      rw [Rfc6455.lengthExt, if_pos h7]
    rw [hext, List.nil_append] at hs ⊢
    obtain ⟨t, r', hrest, hlater, ht⟩ :=
      wsReadRest_front g (headerOf g f) hmask hop hs
    refine ⟨t, r', ?_, hlater, ht⟩
    rw [wsReadSize_inline g (by omega) s, hl, hrest, received, extAfter, if_pos h7]
    rfl
  · have h16 : f.payload.length < 65536 := by omega
    have hl : (headerOf g f).length.toNat = 126 := by
      rw [headerOf, hl7, Rfc6455.length7, if_neg h7, if_pos h16]
    have hext : Rfc6455.lengthExt f.payload.length = beBytes 2 f.payload.length := by
      rw [Rfc6455.lengthExt, if_neg h7, if_pos h16]
    rw [hext] at hs ⊢
    have hold : (leBytes 2 g.lengthExt.toNat).length
        = (beBytes 2 f.payload.length).length := by
      rw [length_leBytes, length_beBytes]
    obtain ⟨t, r₁, hread, hlater, ht⟩ := wsRead_front _ hs hold
    rw [List.append_assoc, List.append_assoc] at ht
    obtain ⟨u, r₂, hrest, hlater', hu⟩ :=
      wsReadRest_front g { headerOf g f with
        lengthExt := WSFrame.setShortLen g.lengthExt f.payload.length } hmask hop ht
    refine ⟨u, r₁ ++ r₂, ?_, hlater.trans hlater', by rw [hu, List.append_assoc]⟩
    rw [wsReadSize_short g hl hread (ntohs_leNat_beBytes h16) h16, if_pos hlen, hrest, received,
      extAfter, if_neg h7]

/-- **A frame of fewer than `32768` bytes is read.** -/
theorem wsReadFrame_encode (g : Garbage) {f : Rfc6455.Frame} {key : Vector UInt8 4}
    (hkey : f.maskKey = some key) (hop : AcceptedOpcode f.opcode)
    (hlen : f.payload.length < 32768) {rest : List UInt8} {s : Arrivals UInt8}
    (hs : s.ready = Rfc6455.encode f ++ rest) :
    ∃ t r', wsReadFrame g s = .ok (some (received g f key), t) ∧
      Arrivals.Later s (Rfc6455.encode f) t ∧ t.ready = rest ++ r' := by
  rw [encode_masked hkey] at hs ⊢
  rw [List.append_assoc, List.append_assoc, List.append_assoc] at hs
  obtain ⟨t, r₁, hhead, hlater, ht⟩ := wsReadFrame_header g hs
  rw [List.append_assoc, List.append_assoc, List.append_assoc] at ht
  obtain ⟨u, r₂, hsize, hlater', hu⟩ := wsReadSize_front g hkey hop hlen ht
  refine ⟨u, r₁ ++ r₂, ?_, hlater.trans hlater', by rw [hu, List.append_assoc]⟩
  rw [hhead, hsize]

/-! ## What a call consumes

However a call goes, it consumes no more than the frame it returns announces. -/

/-- What the length field, the mask bit and the body of a frame say about its size
on the wire. -/
def extSize (frame : WSFrame) : ℕ :=
  if frame.length.toNat = 126 then 2 else if frame.length.toNat = 127 then 8 else 0

@[inherit_doc extSize]
def keySize (frame : WSFrame) : ℕ := if frame.mask = 1 then 4 else 0

@[inherit_doc extSize]
def wireSize (frame : WSFrame) : ℕ :=
  2 + (extSize frame + (keySize frame + (frame.data.getD []).length))

theorem wsRead_reads {old l : List UInt8} {s t : Arrivals UInt8}
    (h : wsRead old s = .ok (l, t)) : l.length = old.length ∧ Arrivals.Reads s t old.length := by
  rw [wsRead_eq, Except.ok.injEq, Prod.mk.injEq] at h
  obtain ⟨rfl, rfl⟩ := h
  have hle := Arrivals.length_readLoop_le old.length s
  refine ⟨?_, Arrivals.reads_readLoop old.length s⟩
  rw [List.length_append, List.length_drop]
  omega

theorem allocFrame_reads {extra : BitVec 64} {s t : Arrivals UInt8} {u : Unit}
    (h : allocFrame extra s = .ok (u, t)) : s = t := by
  simp only [allocFrame, Exec.ite_eq_ok, Exec.stop_eq_ok, Exec.pure_eq_ok, and_false,
    false_or] at h
  exact h.2.2

theorem wsReadKey_reads {g : Garbage} {temp : WSFrame} {key : BitVec 32}
    {s t : Arrivals UInt8} (h : wsReadKey g temp s = .ok (key, t)) :
    Arrivals.Reads s t (keySize temp) := by
  unfold wsReadKey at h
  unfold keySize
  split at h
  · rename_i hmask
    rw [Exec.bind_eq_ok] at h
    obtain ⟨l, u, hread, hpure⟩ := h
    obtain ⟨-, rfl⟩ := Exec.pure_eq_ok.mp hpure
    rw [if_pos hmask]
    exact length_leBytes 4 g.key.toNat ▸ (wsRead_reads hread).2
  · obtain ⟨-, rfl⟩ := Exec.pure_eq_ok.mp h
    exact Arrivals.Reads.refl s _

theorem wsReadBody_reads {g : Garbage} {key : BitVec 32} {n : ℕ}
    {data : Option (List UInt8)} {s t : Arrivals UInt8}
    (h : wsReadBody g key n s = .ok (data, t)) :
    (data.getD []).length = n ∧ Arrivals.Reads s t n := by
  unfold wsReadBody at h
  split at h
  · rw [Exec.bind_eq_ok] at h
    obtain ⟨body, u, hread, hpure⟩ := h
    obtain ⟨rfl, rfl⟩ := Exec.pure_eq_ok.mp hpure
    obtain ⟨hlen, hreads⟩ := wsRead_reads hread
    rw [List.length_map, List.length_range] at hlen hreads
    refine ⟨?_, hreads⟩
    rw [Option.getD_some, wsApplyKey, List.length_mapIdx, hlen]
  · rename_i hn
    obtain ⟨rfl, rfl⟩ := Exec.pure_eq_ok.mp h
    exact ⟨(not_not.mp hn).symm, Arrivals.Reads.refl s n⟩

theorem wsReadRest_reads {g : Garbage} {temp frame : WSFrame} {n : ℕ} {s t : Arrivals UInt8}
    (h : wsReadRest g temp n s = .ok (some frame, t)) :
    frame.length = temp.length ∧ frame.mask = temp.mask ∧ (frame.data.getD []).length = n ∧
      Arrivals.Reads s t (keySize temp + n) := by
  rw [wsReadRest, Exec.bind_eq_ok] at h
  obtain ⟨key, u, hkey, h⟩ := h
  rw [Exec.bind_eq_ok] at h
  obtain ⟨data, v, hbody, h⟩ := h
  obtain ⟨hn, hreads⟩ := wsReadBody_reads hbody
  rw [Exec.ite_eq_ok] at h
  rcases h with ⟨-, h⟩ | ⟨-, h⟩
  · exact absurd (Exec.pure_eq_ok.mp h).1 (by simp)
  · obtain ⟨hframe, rfl⟩ := Exec.pure_eq_ok.mp h
    rw [← Option.some.inj hframe]
    exact ⟨rfl, rfl, hn, (wsReadKey_reads hkey).trans hreads⟩

/-- The frame is allocated, which takes nothing from the stream, and its rest is read. -/
theorem allocRest_reads {g : Garbage} {extra : BitVec 64} {temp frame : WSFrame} {n : ℕ}
    {s t : Arrivals UInt8}
    (h : (do allocFrame extra; wsReadRest g temp n) s = .ok (some frame, t)) :
    frame.length = temp.length ∧
      Arrivals.Reads s t (keySize frame + (frame.data.getD []).length) := by
  rw [Exec.bind_eq_ok] at h
  obtain ⟨⟨⟩, u, halloc, h⟩ := h
  obtain rfl := allocFrame_reads halloc
  obtain ⟨hlength, hmask, hdata, hreads⟩ := wsReadRest_reads h
  rw [hdata, keySize, hmask]
  exact ⟨hlength, hreads⟩

theorem wsReadSize_reads {g : Garbage} {temp frame : WSFrame} {s t : Arrivals UInt8}
    (h : wsReadSize g temp s = .ok (some frame, t)) :
    Arrivals.Reads s t (extSize frame + (keySize frame + (frame.data.getD []).length)) := by
  unfold wsReadSize at h
  split at h
  · rename_i h126
    rw [Exec.bind_eq_ok] at h
    obtain ⟨l, u, hread, h⟩ := h
    obtain ⟨hlength, hreads⟩ := allocRest_reads h
    have hext := (wsRead_reads hread).2
    rw [length_leBytes] at hext
    rw [extSize, hlength, if_pos h126]
    exact hext.trans hreads
  split at h
  · rename_i h126 h127
    rw [Exec.bind_eq_ok] at h
    obtain ⟨l, u, hread, h⟩ := h
    rw [Exec.ite_eq_ok] at h
    rcases h with ⟨-, h⟩ | ⟨-, h⟩
    · exact absurd (Exec.pure_eq_ok.mp h).1 (by simp)
    obtain ⟨hlength, hreads⟩ := allocRest_reads h
    have hext := (wsRead_reads hread).2
    rw [length_leBytes] at hext
    rw [extSize, hlength, if_neg h126, if_pos h127]
    exact hext.trans hreads
  · rename_i h126 h127
    obtain ⟨hlength, hreads⟩ := allocRest_reads h
    rw [extSize, hlength, if_neg h126, if_neg h127, Nat.zero_add]
    exact hreads

/-- **A call consumes no more than the frame it returns announces.** -/
theorem wsReadFrame_reads {g : Garbage} {frame : WSFrame} {s t : Arrivals UInt8}
    (h : wsReadFrame g s = .ok (some frame, t)) : Arrivals.Reads s t (wireSize frame) := by
  rw [wsReadFrame, Exec.bind_eq_ok] at h
  obtain ⟨l, u, hread, h⟩ := h
  exact (wsRead_reads hread).2.trans (wsReadSize_reads h)

/-! ## Which frames are read

What a caller is promised: the flags, the unmasked payload and its length, and
that the stream is left just behind the frame. -/

/-- The call returned the frame `f` and consumed exactly its bytes. -/
def ReadsFrame (g : Garbage) (f : Rfc6455.Frame) (s : Arrivals UInt8) : Prop :=
  ∃ frame t, wsReadFrame g s = .ok (some frame, t) ∧
    frame.fin = BitVec.ofBool f.fin ∧ frame.opcode = f.opcode ∧
    frame.data.getD [] = f.payload ∧ wsLength frame = f.payload.length ∧
    Arrivals.Later s (Rfc6455.encode f) t

theorem bodyOf_getD (payload : List UInt8) : (bodyOf payload).getD [] = payload := by
  unfold bodyOf
  split
  · rfl
  · rename_i h
    rw [List.eq_nil_of_length_eq_zero (not_not.mp h), Option.getD_none]

theorem wsLength_received (g : Garbage) {f : Rfc6455.Frame} (key : Vector UInt8 4)
    (hlen : f.payload.length < 32768) : wsLength (received g f key) = f.payload.length := by
  obtain ⟨-, -, -, hl7⟩ := headerFields_encode f g
  have hl : (received g f key).length.toNat = Rfc6455.length7 f.payload.length := hl7
  rw [wsLength, hl, Rfc6455.length7]
  by_cases h7 : f.payload.length < 126
  · rw [if_pos h7, if_neg (by omega), if_neg (by omega)]
  · have h16 : f.payload.length < 65536 := by omega
    rw [if_neg h7, if_pos h16, if_pos rfl, WSFrame.shortLen, received, extAfter, if_neg h7,
      WSFrame.setWidth_setShortLen, toNat_signExtend_ofNat h16, if_pos hlen]

/-- From `32768` to `65535` bytes the allocation fails. -/
theorem wsReadFrame_fault (g : Garbage) {f : Rfc6455.Frame} {key : Vector UInt8 4}
    (hkey : f.maskKey = some key) (hge : 32768 ≤ f.payload.length)
    (hlt : f.payload.length < 65536) {rest : List UInt8} {s : Arrivals UInt8}
    (hs : s.ready = Rfc6455.encode f ++ rest) : wsReadFrame g s = .error .fault := by
  obtain ⟨-, -, -, hl7⟩ := headerFields_encode f g
  have h7 : ¬f.payload.length < 126 := by omega
  have hl : (headerOf g f).length.toNat = 126 := by
    rw [headerOf, hl7, Rfc6455.length7, if_neg h7, if_pos hlt]
  have hext : Rfc6455.lengthExt f.payload.length = beBytes 2 f.payload.length := by
    rw [Rfc6455.lengthExt, if_neg h7, if_pos hlt]
  rw [encode_masked hkey, hext, List.append_assoc, List.append_assoc] at hs
  obtain ⟨t, r₁, hhead, -, ht⟩ := wsReadFrame_header g hs
  rw [List.append_assoc] at ht
  have hold : (leBytes 2 g.lengthExt.toNat).length = (beBytes 2 f.payload.length).length := by
    rw [length_leBytes, length_beBytes]
  obtain ⟨u, r₂, hread, -, -⟩ := wsRead_front _ ht hold
  rw [hhead, wsReadSize_short g hl hread (ntohs_leNat_beBytes hlt) hlt, if_neg (by omega)]

/-- The four bytes `ntohl` is given of a 64-bit length are its high ones. -/
theorem ntohl_leNat_beBytes {n : ℕ} (h : n < 2 ^ 32) : ntohl (leNat (beBytes 8 n)) = 0 := by
  have hn : n < 256 ^ 4 := lt_of_lt_of_eq h (by norm_num)
  have hbytes : beBytes 8 n = [0, 0, 0, 0] ++ beBytes 4 n := by
    rw [beBytes, leBytes_eight_of_lt hn, List.reverse_append]
    rfl
  have hlow : leBytes 4 (leNat (beBytes 8 n)) = [0, 0, 0, 0] := by
    have hmod : leNat (beBytes 8 n) = 256 * (256 * (256 * (256 * leNat (beBytes 4 n)))) := by
      rw [hbytes]
      simp only [List.cons_append, List.nil_append, leNat_cons, UInt8.toNat_zero, Nat.zero_add]
    rw [hmod]
    simp only [leBytes_succ, leBytes_zero, Nat.mul_div_cancel_left _ (by decide : 0 < 256),
      UInt8.ofNat_mul]
    simp
  rw [ntohl, byteSwap, hlow]
  rfl

/-- From `65536` bytes on the body is not read at all. -/
theorem wsReadFrame_no_body (g : Garbage) {f : Rfc6455.Frame} {key : Vector UInt8 4}
    (hkey : f.maskKey = some key) (hge : 65536 ≤ f.payload.length)
    (hsize : f.payload.length ≤ wsFrameSize) {rest : List UInt8} {s t : Arrivals UInt8}
    {frame : WSFrame} (hs : s.ready = Rfc6455.encode f ++ rest)
    (h : wsReadFrame g s = .ok (some frame, t)) : frame.data.getD [] = [] := by
  obtain ⟨-, -, -, hl7⟩ := headerFields_encode f g
  have hl : (headerOf g f).length.toNat = 127 := by
    rw [headerOf, hl7, Rfc6455.length7, if_neg (by omega), if_neg (by omega)]
  have hext : Rfc6455.lengthExt f.payload.length = beBytes 8 f.payload.length := by
    rw [Rfc6455.lengthExt, if_neg (by omega), if_neg (by omega)]
  rw [encode_masked hkey, hext, List.append_assoc, List.append_assoc] at hs
  obtain ⟨u, r₁, hhead, -, hu⟩ := wsReadFrame_header g hs
  rw [List.append_assoc] at hu
  have hold : (leBytes 8 g.lengthExt.toNat).length = (beBytes 8 f.payload.length).length := by
    rw [length_leBytes, length_beBytes]
  obtain ⟨v, r₂, hread, -, -⟩ := wsRead_front _ hu hold
  have hlong : ntohl (leNat (beBytes 8 f.payload.length)) = 0 := by
    refine ntohl_leNat_beBytes (lt_of_le_of_lt hsize ?_)
    rw [wsFrameSize]
    norm_num
  rw [hhead, wsReadSize_long g hl hread hlong, if_neg (Nat.not_lt_zero _)] at h
  exact List.eq_nil_of_length_eq_zero (wsReadRest_reads h).2.2.1

/-- **Which frames are read.**  A masked frame that has arrived completely is read
exactly when its payload is shorter than `32768` bytes, the lengths a signed
`short` can hold. -/
theorem readsFrame_iff (g : Garbage) {f : Rfc6455.Frame} (hkey : f.maskKey.isSome)
    (hop : AcceptedOpcode f.opcode) (hsize : f.payload.length ≤ wsFrameSize)
    {rest : List UInt8} {s : Arrivals UInt8} (hs : s.ready = Rfc6455.encode f ++ rest) :
    ReadsFrame g f s ↔ f.payload.length < 32768 := by
  obtain ⟨key, hkey⟩ := Option.isSome_iff_exists.mp hkey
  constructor
  · rintro ⟨frame, t, hread, -, -, hdata, -, -⟩
    by_contra hge
    by_cases h16 : f.payload.length < 65536
    · rw [wsReadFrame_fault g hkey (not_lt.mp hge) h16 hs] at hread
      exact absurd hread (by simp)
    · have hnil := wsReadFrame_no_body g hkey (not_lt.mp h16) hsize hs hread
      rw [← hdata, hnil, List.length_nil] at h16
      omega
  · intro hlen
    obtain ⟨t, r', hread, hlater, -⟩ := wsReadFrame_encode g hkey hop hlen hs
    obtain ⟨hfin, hopcode, -, -⟩ := headerFields_encode f g
    exact ⟨received g f key, t, hread, hfin, hopcode, bodyOf_getD f.payload,
      wsLength_received g key hlen, hlater⟩

/-- Memory of zero bytes. -/
def zeroGarbage : Garbage := ⟨0, 0, fun _ => 0⟩

/-- A final binary frame with the key `1 2 3 4`. -/
def maskedBinary (payload : List UInt8) : Rfc6455.Frame :=
  ⟨true, 0, 2, some ⟨#[1, 2, 3, 4], rfl⟩, payload⟩

/-- A frame of three bytes is read. -/
theorem readsFrame_three :
    ReadsFrame zeroGarbage (maskedBinary [7, 8, 9])
      (Arrivals.ofList (Rfc6455.encode (maskedBinary [7, 8, 9]))) :=
  (readsFrame_iff zeroGarbage (f := maskedBinary [7, 8, 9]) rfl (Or.inl (by decide))
    (by decide) (List.append_nil _).symm).mpr (by decide)

/-- **A frame of `40000` bytes is not.** -/
theorem not_readsFrame_large :
    (maskedBinary (List.replicate 40000 7)).payload.length ≤ wsFrameSize ∧
      ¬ReadsFrame zeroGarbage (maskedBinary (List.replicate 40000 7))
        (Arrivals.ofList (Rfc6455.encode (maskedBinary (List.replicate 40000 7)))) := by
  have hlen : (maskedBinary (List.replicate 40000 7)).payload.length = 40000 :=
    List.length_replicate
  refine ⟨by rw [hlen, wsFrameSize]; omega, ?_⟩
  rintro ⟨frame, t, hread, -⟩
  have hfault := wsReadFrame_fault zeroGarbage (f := maskedBinary (List.replicate 40000 7))
    rfl (by omega) (by omega)
    (s := Arrivals.ofList (Rfc6455.encode (maskedBinary (List.replicate 40000 7))))
    (List.append_nil _).symm
  rw [hfault] at hread
  exact absurd hread (by simp)

end Networking
end MmoBackend
