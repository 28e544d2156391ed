import MmoBackend.Library.Bytes

/-!
# The base framing protocol of RFC 6455

A WebSocket frame as the standard lays it out, independently of any program that
sends or receives one: two bytes of flags and a 7-bit length, a 16- or 64-bit
length in network order when the 7-bit field is `126` or `127`, four bytes of
mask key when the mask bit is set, and the payload, masked byte by byte with the
key in rotation.

`decode` is strict.  It refuses a length that is not written in the shortest of
the three forms and a 64-bit length whose top bit is set, as the standard
requires of a receiver, and it refuses a frame whose bytes have not all arrived.
`decode_encode` is the round trip: what `encode` writes is read back, whatever
follows it on the stream.
-/

namespace MmoBackend
namespace Rfc6455

open Bytes

/-- A frame: its flags, its opcode, its mask key if it is masked, and its
payload before masking. -/
structure Frame where
  fin : Bool
  rsv : BitVec 3
  opcode : BitVec 4
  maskKey : Option (Vector UInt8 4)
  payload : List UInt8
  deriving DecidableEq

/-- One final, unmasked binary frame. -/
def binary (payload : List UInt8) : Frame := ⟨true, 0, 2, none, payload⟩

/-- Mask, or unmask, a payload: byte `i` is combined with byte `i mod 4` of the
key. -/
def applyMask (key : Vector UInt8 4) (data : List UInt8) : List UInt8 :=
  data.mapIdx fun i b => b ^^^ key[i % 4]

@[simp] theorem length_applyMask (key : Vector UInt8 4) (data : List UInt8) :
    (applyMask key data).length = data.length := by
  rw [applyMask, List.length_mapIdx]

/-- Masking is its own inverse. -/
theorem applyMask_applyMask (key : Vector UInt8 4) (data : List UInt8) :
    applyMask key (applyMask key data) = data := by
  rw [applyMask, applyMask, List.mapIdx_mapIdx]
  refine List.ext_getElem (by simp) fun i _ _ => ?_
  simp only [List.getElem_mapIdx, Function.comp_apply, UInt8.xor_assoc, UInt8.xor_self,
    UInt8.xor_zero]

/-! ## Encoding -/

/-- The 7-bit length field. -/
def length7 (n : ℕ) : ℕ := if n < 126 then n else if n < 65536 then 126 else 127

/-- The extended length. -/
def lengthExt (n : ℕ) : List UInt8 :=
  if n < 126 then [] else if n < 65536 then beBytes 2 n else beBytes 8 n

/-- The first byte: the flags and the opcode. -/
def byte0 (f : Frame) : ℕ := f.fin.toNat * 128 + f.rsv.toNat * 16 + f.opcode.toNat

/-- The second byte: the mask bit and the 7-bit length. -/
def byte1 (f : Frame) : ℕ := f.maskKey.isSome.toNat * 128 + length7 f.payload.length

/-- The payload as it is sent. -/
def wirePayload (f : Frame) : List UInt8 :=
  match f.maskKey with
  | none => f.payload
  | some key => applyMask key f.payload

/-- The bytes of a frame. -/
def encode (f : Frame) : List UInt8 :=
  UInt8.ofNat (byte0 f) :: UInt8.ofNat (byte1 f) ::
    (lengthExt f.payload.length ++
      ((f.maskKey.map Vector.toList).getD [] ++ wirePayload f))

/-! ## Decoding -/

/-- The payload length, given the 7-bit field and what follows the first two
bytes; and what follows the length. -/
def decodeLength (len7 : ℕ) (l : List UInt8) : Option (ℕ × List UInt8) :=
  if len7 < 126 then some (len7, l)
  else if len7 = 126 then
    let n := beNat (l.take 2)
    if 2 ≤ l.length ∧ 126 ≤ n then some (n, l.drop 2) else none
  else
    let n := beNat (l.take 8)
    if 8 ≤ l.length ∧ 65536 ≤ n ∧ n < 2 ^ 63 then some (n, l.drop 8) else none

/-- The mask key, if the mask bit is set, and what follows it. -/
def decodeKey (masked : Bool) (l : List UInt8) :
    Option (Option (Vector UInt8 4) × List UInt8) :=
  if masked then
    if h : (l.take 4).length = 4 then some (some ⟨(l.take 4).toArray, h⟩, l.drop 4) else none
  else some (none, l)

/-- One frame from the front of a stream, and the rest of the stream. -/
def decode : List UInt8 → Option (Frame × List UInt8)
  | b0 :: b1 :: l => do
    let (n, l) ← decodeLength (b1.toNat % 128) l
    let (key, l) ← decodeKey (decide (128 ≤ b1.toNat)) l
    if n ≤ l.length then
      some ({ fin := decide (128 ≤ b0.toNat)
              rsv := BitVec.ofNat 3 (b0.toNat / 16)
              opcode := BitVec.ofNat 4 b0.toNat
              maskKey := key
              payload := (key.map fun k => applyMask k (l.take n)).getD (l.take n) },
            l.drop n)
    else none
  | _ => none

/-- What follows the mask key is no longer than what follows the length. -/
theorem length_le_of_decodeKey {masked : Bool} {l l' : List UInt8}
    {key : Option (Vector UInt8 4)} (h : decodeKey masked l = some (key, l')) :
    l'.length ≤ l.length := by
  unfold decodeKey at h
  split at h
  · split at h
    · rw [Option.some.injEq, Prod.mk.injEq] at h
      rw [← h.2, List.length_drop]
      omega
    · exact absurd h (by simp)
  · rw [Option.some.injEq, Prod.mk.injEq] at h
    rw [h.2]

/-- A frame that announces more bytes than follow is not decoded. -/
theorem decode_eq_none_of_short {b0 b1 : UInt8} {l : List UInt8}
    (h : ∀ n l', decodeLength (b1.toNat % 128) l = some (n, l') → l'.length < n) :
    decode (b0 :: b1 :: l) = none := by
  rw [Option.eq_none_iff_forall_ne_some]
  intro r hr
  simp only [decode, Option.bind_eq_bind, Option.bind_eq_some_iff] at hr
  obtain ⟨⟨n, l'⟩, hlen, ⟨key, l''⟩, hkey, hr⟩ := hr
  have hshort := h n l' hlen
  have hle : l''.length ≤ l'.length := length_le_of_decodeKey hkey
  have hnot : ¬n ≤ l''.length := by omega
  rw [if_neg hnot] at hr
  exact absurd hr (by simp)

/-! ## The round trip -/

theorem length7_lt (n : ℕ) : length7 n < 128 := by
  unfold length7
  split
  · omega
  split <;> omega

theorem byte0_lt (f : Frame) : byte0 f < 256 := by
  have hfin : f.fin.toNat ≤ 1 := Bool.toNat_le f.fin
  have hrsv := f.rsv.isLt
  have hop := f.opcode.isLt
  unfold byte0
  omega

theorem byte1_lt (f : Frame) : byte1 f < 256 := by
  have hmask : f.maskKey.isSome.toNat ≤ 1 := Bool.toNat_le _
  have hlen := length7_lt f.payload.length
  unfold byte1
  omega

/-- A natural below `256` is read back from the byte that stores it. -/
theorem toNat_ofNat_of_lt {n : ℕ} (h : n < 256) : (UInt8.ofNat n).toNat = n :=
  UInt8.toNat_ofNat_of_lt' h

/-- The length is read back, in whichever of the three forms it was written. -/
theorem decodeLength_lengthExt {n : ℕ} (hn : n < 2 ^ 63) (l : List UInt8) :
    decodeLength (length7 n) (lengthExt n ++ l) = some (n, l) := by
  by_cases h7 : n < 126
  · simp [decodeLength, length7, lengthExt, h7]
  by_cases h16 : n < 65536
  · have htake : (beBytes 2 n ++ l).take 2 = beBytes 2 n :=
      List.take_left' (length_beBytes 2 n)
    have hval : beNat (beBytes 2 n) = n := beNat_beBytes_of_lt h16
    have hmin : 126 ≤ n := not_lt.mp h7
    simp only [decodeLength, length7, lengthExt, h7, h16, if_false, if_true,
      (by decide : ¬126 < 126), htake, hval, List.length_append, length_beBytes,
      List.drop_left' (length_beBytes 2 n)]
    rw [if_pos ⟨by omega, hmin⟩]
  · have htake : (beBytes 8 n ++ l).take 8 = beBytes 8 n :=
      List.take_left' (length_beBytes 8 n)
    have hval : beNat (beBytes 8 n) = n :=
      beNat_beBytes_of_lt (lt_trans hn (by norm_num))
    have hmin : 65536 ≤ n := not_lt.mp h16
    simp only [decodeLength, length7, lengthExt, h7, h16, if_false,
      (by decide : ¬127 < 126), (by decide : ¬127 = 126), htake, hval, List.length_append,
      length_beBytes, List.drop_left' (length_beBytes 8 n)]
    rw [if_pos ⟨by omega, hmin, hn⟩]

/-- The mask key is read back. -/
theorem decodeKey_toList (key : Option (Vector UInt8 4)) (l : List UInt8) :
    decodeKey key.isSome ((key.map Vector.toList).getD [] ++ l) = some (key, l) := by
  cases key with
  | none => simp [decodeKey]
  | some k =>
    have hlen : k.toList.length = 4 := Vector.length_toList
    have htake : (k.toList ++ l).take 4 = k.toList := List.take_left' hlen
    have harr : k.toList.toArray = k.toArray := Array.toArray_toList
    simp [decodeKey, htake, List.drop_left' hlen, harr]

/-- **The round trip.**  An encoded frame is read back from the front of any
stream, and what follows it is left in place. -/
theorem decode_encode (f : Frame) (hlen : f.payload.length < 2 ^ 63) (l : List UInt8) :
    decode (encode f ++ l) = some (f, l) := by
  have h0 := toNat_ofNat_of_lt (byte0_lt f)
  have h1 := toNat_ofNat_of_lt (byte1_lt f)
  have hl7 := length7_lt f.payload.length
  have hmod : byte1 f % 128 = length7 f.payload.length := by
    unfold byte1
    omega
  have hmask : decide (128 ≤ byte1 f) = f.maskKey.isSome := by
    unfold byte1
    cases f.maskKey.isSome
    · simp [hl7]
    · simp
  have hwire : (wirePayload f).length = f.payload.length := by
    cases hk : f.maskKey <;> simp [wirePayload, hk]
  have htake : (wirePayload f ++ l).take f.payload.length = wirePayload f :=
    List.take_left' hwire
  have hpay : (f.maskKey.map fun k => applyMask k (wirePayload f)).getD (wirePayload f)
      = f.payload := by
    cases hk : f.maskKey <;> simp [wirePayload, hk, applyMask_applyMask]
  have hfin : decide (128 ≤ byte0 f) = f.fin := by
    have hrsv := f.rsv.isLt
    have hop := f.opcode.isLt
    unfold byte0
    cases f.fin
    · simp
      omega
    · simp
      omega
  have hrsv : BitVec.ofNat 3 (byte0 f / 16) = f.rsv := by
    have hr := f.rsv.isLt
    have hop := f.opcode.isLt
    apply BitVec.eq_of_toNat_eq
    rw [BitVec.toNat_ofNat]
    unfold byte0
    cases f.fin <;> simp <;> omega
  have hop : BitVec.ofNat 4 (byte0 f) = f.opcode := by
    have hr := f.rsv.isLt
    have hop := f.opcode.isLt
    apply BitVec.eq_of_toNat_eq
    rw [BitVec.toNat_ofNat]
    unfold byte0
    omega
  simp only [encode, List.cons_append, List.append_assoc, decode, h0, h1, hmod, hmask,
    decodeLength_lengthExt hlen, decodeKey_toList, Option.bind_eq_bind, Option.bind_some,
    List.length_append, hwire, htake, hpay, hfin, hrsv, hop]
  rw [if_pos (by omega), List.drop_left' hwire]

/-! ## Streams of frames -/

/-- At most `n` frames from the front of a stream, up to one that is not complete or not
well-formed. -/
def framesWith : ℕ → List UInt8 → List Frame
  | 0, _ => []
  | n + 1, l =>
    match decode l with
    | none => []
    | some (f, rest) => f :: framesWith n rest

/-- The frames of a stream. -/
def frames (l : List UInt8) : List Frame := framesWith l.length l

theorem framesWith_encode {fs : List Frame} {n : ℕ} (hn : fs.length ≤ n)
    (hlen : ∀ f ∈ fs, f.payload.length < 2 ^ 63) :
    framesWith n (fs.map encode).flatten = fs := by
  induction fs generalizing n with
  | nil => cases n <;> rfl
  | cons f fs ih =>
    obtain ⟨n, rfl⟩ := Nat.exists_eq_add_of_lt (Nat.lt_of_lt_of_le (Nat.succ_pos _) hn)
    rw [Nat.zero_add, List.map_cons, List.flatten_cons, framesWith,
      decode_encode f (hlen f List.mem_cons_self)]
    dsimp only
    rw [ih (by simpa using hn) fun g hg => hlen g (List.mem_cons_of_mem f hg)]

/-- **A stream is read back** frame by frame. -/
theorem frames_encode {fs : List Frame} (hlen : ∀ f ∈ fs, f.payload.length < 2 ^ 63) :
    frames (fs.map encode).flatten = fs := by
  refine framesWith_encode ?_ hlen
  -- every frame has at least its header
  induction fs with
  | nil => simp
  | cons f fs ih =>
    have hrest := ih fun g hg => hlen g (List.mem_cons_of_mem f hg)
    simp only [List.map_cons, List.flatten_cons, List.length_append, List.length_cons, encode]
    omega

end Rfc6455
end MmoBackend
