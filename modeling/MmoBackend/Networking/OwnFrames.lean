import MmoBackend.Networking.ReadFrame

/-!
# Reading what the server writes

`ws_write_frame` and `ws_read_frame` do not agree with the standard on every length,
but they agree with each other.  From `32767` bytes on the writer stores a length that
was swapped as a number of 32 bits in a field of 64, and the reader swaps the same 32
bits of the same field back; the 16-bit form is used for fewer bytes than a signed
`short` can hold, so the reader's allocation never fails.

What is recovered are the flags and the boundaries.  The body is not: the reader
applies a mask key to it although none was sent.  `wsReadFrame_binFrame` is the
statement for one frame with anything behind it, and `readsBack_writeBinFrames` follows
for a list of them by induction, since a call leaves the stream where the next frame
begins.
-/

namespace MmoBackend
namespace Networking

open Bytes

/-! ## The parts of a frame -/

/-- The flags of a binary frame, from its two header bytes. -/
theorem headerFields_binary (g : Garbage) (len : ℕ) :
    let temp := headerFields (BitVec.ofNat 16
      (ntohs (leNat [0x82, UInt8.ofNat (binLength7 len)]))) g
    temp.fin = 1 ∧ temp.opcode = 2 ∧ temp.mask = 0 ∧ temp.length.toNat = binLength7 len := by
  have hl7 : binLength7 len < 128 := by
    unfold binLength7
    split
    · omega
    split <;> omega
  have hbyte : (UInt8.ofNat (binLength7 len)).toNat = binLength7 len :=
    Rfc6455.toNat_ofNat_of_lt (by omega)
  have hhead : (0x82 : UInt8).toNat = 130 := rfl
  have hword : (BitVec.ofNat 16 (130 * 256 + binLength7 len)).toNat
      = 130 * 256 + binLength7 len := by
    rw [BitVec.toNat_ofNat, Nat.mod_eq_of_lt (by omega)]
  have hand : ((127 : BitVec 16)).toNat = 2 ^ 7 - 1 := rfl
  rw [ntohs_leNat_pair, hbyte, hhead]
  refine ⟨?_, ?_, ?_, ?_⟩
  · apply BitVec.eq_of_toNat_eq
    rw [headerFields, setWidth_one_shiftRight, hword]
    show _ = 1
    omega
  · apply BitVec.eq_of_toNat_eq
    rw [headerFields, BitVec.toNat_setWidth, BitVec.toNat_ushiftRight,
      Nat.shiftRight_eq_div_pow, hword]
    show _ = 2
    omega
  · apply BitVec.eq_of_toNat_eq
    rw [headerFields, setWidth_one_shiftRight, hword]
    show _ = 0
    omega
  · rw [headerFields, BitVec.toNat_setWidth, BitVec.toNat_and, hword, hand,
      Nat.and_two_pow_sub_one_eq_mod]
    omega

/-- The body of an unmasked frame.  It is combined with the key the memory held. -/
theorem wsReadRest_unmasked (g : Garbage) (temp : WSFrame) {payload rest : List UInt8}
    {s : Arrivals UInt8} (hmask : temp.mask = 0) (hop : AcceptedOpcode temp.opcode)
    (hs : s.ready = payload ++ rest) :
    ∃ frame t r', wsReadRest g temp payload.length s = .ok (some frame, t) ∧
      frame.fin = temp.fin ∧ frame.opcode = temp.opcode ∧ frame.mask = temp.mask ∧
      (frame.data.getD []).length = payload.length ∧ Arrivals.Later s payload t ∧
      t.ready = rest ++ r' := by
  have hop' : ¬((2 < temp.opcode.toNat ∧ temp.opcode.toNat < 8) ∨ 10 < temp.opcode.toNat) := by
    unfold AcceptedOpcode at hop
    omega
  have hkey : wsReadKey g temp s = .ok (hostKey (leBytes 4 g.key.toNat), s) := by
    rw [wsReadKey, if_neg (by rw [hmask]; decide)]
    rfl
  by_cases hlen : payload.length = 0
  · have hnil : payload = [] := List.eq_nil_of_length_eq_zero hlen
    refine ⟨{ temp with key := hostKey (leBytes 4 g.key.toNat), data := none }, s, [], ?_, rfl,
      rfl, rfl, hlen.symm, hnil ▸ Arrivals.Later.refl s, by
        rw [hs, hnil, List.nil_append, List.append_nil]⟩
    rw [wsReadRest, Exec.bind_of_ok hkey, wsReadBody, if_neg (not_not.mpr hlen)]
    show (if _ then _ else _ : Exec (Arrivals UInt8) (Option WSFrame)) s = _
    rw [if_neg hop']
    rfl
  · have hbuf : ((List.range payload.length).map g.body).length = payload.length := by
      rw [List.length_map, List.length_range]
    obtain ⟨t, r', hread, hlater, ht⟩ := wsRead_front _ hs hbuf
    have hbody : wsReadBody g (hostKey (leBytes 4 g.key.toNat)) payload.length s
        = .ok (some (wsApplyKey (hostKey (leBytes 4 g.key.toNat)) payload), t) := by
      rw [wsReadBody, if_pos hlen, Exec.bind_of_ok hread]
      rfl
    refine ⟨{ temp with
        key := hostKey (leBytes 4 g.key.toNat)
        data := some (wsApplyKey (hostKey (leBytes 4 g.key.toNat)) payload) },
      t, r', ?_, rfl, rfl, rfl, ?_, hlater, ht⟩
    · rw [wsReadRest, Exec.bind_of_ok hkey, Exec.bind_of_ok hbody, if_neg hop']
      rfl
    · rw [Option.getD_some, wsApplyKey, List.length_mapIdx]

/-- The long form: the reader converts the four bytes the writer filled. -/
theorem ntohl_leNat_binLengthExt {n : ℕ} (h : n < 2 ^ 32) :
    ntohl (leNat (beBytes 4 n ++ [0, 0, 0, 0])) = n := by
  have hlen : 4 ≤ (beBytes 4 n ++ [0, 0, 0, 0]).length := by simp
  rw [ntohl, byteSwap, leBytes_leNat_take hlen, List.take_left' (length_beBytes 4 n)]
  exact beNat_beBytes_of_lt (lt_of_lt_of_eq h (by norm_num))

/-- **The length, in the form the writer chose, and the body.** -/
theorem wsReadSize_binary (g : Garbage) {temp : WSFrame} {payload rest : List UInt8}
    {s : Arrivals UInt8} (hmask : temp.mask = 0) (hop : AcceptedOpcode temp.opcode)
    (hl7 : temp.length.toNat = binLength7 payload.length)
    (hsize : payload.length ≤ wsFrameSize)
    (hs : s.ready = (binLengthExt payload.length).flatten ++ (payload ++ rest)) :
    ∃ frame t r', wsReadSize g temp s = .ok (some frame, t) ∧
      frame.fin = temp.fin ∧ frame.opcode = temp.opcode ∧ frame.mask = temp.mask ∧
      (frame.data.getD []).length = payload.length ∧
      Arrivals.Later s ((binLengthExt payload.length).flatten ++ payload) t ∧
      t.ready = rest ++ r' := by
  by_cases h7 : payload.length < 126
  · have hext : (binLengthExt payload.length).flatten = [] := by
      rw [binLengthExt, if_pos h7, List.flatten_nil]
    rw [binLength7, if_pos h7] at hl7
    rw [hext, List.nil_append] at hs ⊢
    rw [wsReadSize_inline g (by omega) s, hl7]
    exact wsReadRest_unmasked g temp hmask hop hs
  by_cases h16 : payload.length < 32767
  · have hext : (binLengthExt payload.length).flatten = beBytes 2 payload.length := by
      rw [binLengthExt, if_neg h7, if_pos h16, List.flatten_singleton]
    rw [binLength7, if_neg h7, if_pos h16] at hl7
    rw [hext] at hs ⊢
    have hold : (leBytes 2 g.lengthExt.toNat).length = (beBytes 2 payload.length).length := by
      rw [length_leBytes, length_beBytes]
    obtain ⟨t, r₁, hread, hlater, ht⟩ := wsRead_front _ hs hold
    have hlt : payload.length < 65536 := by omega
    rw [List.append_assoc] at ht
    obtain ⟨frame, u, r₂, hrest, hfin, hopcode, hzero, hlen, hlater', hu⟩ :=
      wsReadRest_unmasked g
        { temp with lengthExt := WSFrame.setShortLen g.lengthExt payload.length } hmask hop ht
    refine ⟨frame, u, r₁ ++ r₂, ?_, hfin, hopcode, hzero, hlen, hlater.trans hlater', ?_⟩
    · rw [wsReadSize_short g hl7 hread (ntohs_leNat_beBytes hlt) hlt, if_pos (by omega)]
      exact hrest
    · rw [hu, List.append_assoc]
  · have hext : (binLengthExt payload.length).flatten
        = beBytes 4 payload.length ++ [0, 0, 0, 0] := by
      rw [binLengthExt, if_neg h7, if_neg h16, List.flatten_singleton]
    rw [binLength7, if_neg h7, if_neg h16] at hl7
    rw [hext] at hs ⊢
    have hold : (leBytes 8 g.lengthExt.toNat).length
        = (beBytes 4 payload.length ++ [0, 0, 0, 0]).length := by
      rw [length_leBytes, List.length_append, length_beBytes]
      rfl
    obtain ⟨t, r₁, hread, hlater, ht⟩ := wsRead_front _ hs hold
    have hlt : payload.length < 2 ^ 32 := by
      rw [wsFrameSize] at hsize
      omega
    rw [List.append_assoc] at ht
    obtain ⟨frame, u, r₂, hrest, hfin, hopcode, hzero, hlen, hlater', hu⟩ :=
      wsReadRest_unmasked g
        { temp with lengthExt := BitVec.ofNat 64 payload.length } hmask hop ht
    refine ⟨frame, u, r₁ ++ r₂, ?_, hfin, hopcode, hzero, hlen, hlater.trans hlater', ?_⟩
    · rw [wsReadSize_long g hl7 hread (ntohl_leNat_binLengthExt hlt), if_neg (not_lt.mpr hsize)]
      exact hrest
    · rw [hu, List.append_assoc]

/-! ## One frame -/

/-- The call returned a final, unmasked binary frame with a body as long as the payload,
and consumed exactly the bytes of the frame that `ws_write_frame` made of the payload. -/
structure ReadsOwn (g : Garbage) (junk : WSFrame) (payload : List UInt8)
    (s t : Arrivals UInt8) (frame : WSFrame) : Prop where
  read : wsReadFrame g s = .ok (some frame, t)
  fin : frame.fin = 1
  opcode : frame.opcode = 2
  mask : frame.mask = 0
  length : (frame.data.getD []).length = payload.length
  later : Arrivals.Later s (frameBytes (wsBinFrame junk payload payload.length)) t

/-- **A frame the server wrote is read back**, at every length up to the limit and
whatever stands behind it. -/
theorem wsReadFrame_binFrame (g : Garbage) (junk : WSFrame) {payload rest : List UInt8}
    {s : Arrivals UInt8} (hsize : payload.length ≤ wsFrameSize)
    (hs : s.ready = frameBytes (wsBinFrame junk payload payload.length) ++ rest) :
    ∃ frame t r', ReadsOwn g junk payload s t frame ∧ t.ready = rest ++ r' := by
  have hlt : payload.length < 2 ^ 32 := by
    rw [wsFrameSize] at hsize
    omega
  have hbytes : frameBytes (wsBinFrame junk payload payload.length)
      = [0x82, UInt8.ofNat (binLength7 payload.length)] ++
        ((binLengthExt payload.length).flatten ++ payload) := by
    rw [frameBytes_wsBinFrame junk payload hlt, List.take_length]
    rfl
  obtain ⟨hfin, hopcode, hmask, hl7⟩ := headerFields_binary g payload.length
  have haccepted : AcceptedOpcode (2 : BitVec 4) := Or.inl (by decide)
  rw [hbytes, List.append_assoc, List.append_assoc] at hs
  obtain ⟨t, r₁, hhead, hlater, ht⟩ := wsRead_front [0, 0] hs rfl
  rw [List.append_assoc, List.append_assoc] at ht
  obtain ⟨frame, u, r₂, hread, hfin', hopcode', hmask', hlen, hlater', hu⟩ :=
    wsReadSize_binary g hmask (hopcode.symm ▸ haccepted) hl7 hsize ht
  refine ⟨frame, u, r₁ ++ r₂, ⟨?_, hfin'.trans hfin, hopcode'.trans hopcode,
    hmask'.trans hmask, hlen, hbytes ▸ hlater.trans hlater'⟩, by rw [hu, List.append_assoc]⟩
  rw [wsReadFrame, Exec.bind_of_ok hhead]
  exact hread

/-! ## A list of frames -/

/-- The bytes on the wire after each payload was written as a binary frame.  A payload
is paired with the content of the struct that is allocated for its frame. -/
def writeBinFrames (written : List (WSFrame × List UInt8)) : List UInt8 :=
  (written.map fun w => frameBytes (wsBinFrame w.1 w.2 w.2.length)).flatten

/-- One call of `ws_read_frame` for each payload, from the stream `s` to the stream `t`.
`g i` is the memory the `i`-th call finds. -/
inductive ReadsBack : (ℕ → Garbage) → List (WSFrame × List UInt8) → Arrivals UInt8 →
    Arrivals UInt8 → Prop
  | nil (g : ℕ → Garbage) (s : Arrivals UInt8) : ReadsBack g [] s s
  | cons {g : ℕ → Garbage} {junk : WSFrame} {payload : List UInt8}
      {written : List (WSFrame × List UInt8)} {s t u : Arrivals UInt8} {frame : WSFrame} :
      ReadsOwn (g 0) junk payload s t frame → ReadsBack (fun i => g (i + 1)) written t u →
      ReadsBack g ((junk, payload) :: written) s u

/-- The calls on a stream with anything behind the frames, and what they leave. -/
theorem readsBack_append (g : ℕ → Garbage) {written : List (WSFrame × List UInt8)}
    {rest : List UInt8} {s : Arrivals UInt8} (hsize : ∀ w ∈ written, w.2.length ≤ wsFrameSize)
    (hs : s.ready = writeBinFrames written ++ rest) :
    ∃ t r', ReadsBack g written s t ∧ Arrivals.Later s (writeBinFrames written) t ∧
      t.ready = rest ++ r' := by
  induction written generalizing g s rest with
  | nil =>
    exact ⟨s, [], .nil g s, Arrivals.Later.refl s, by rw [hs, List.append_nil]; rfl⟩
  | cons w written ih =>
    obtain ⟨junk, payload⟩ := w
    have hcons : writeBinFrames ((junk, payload) :: written)
        = frameBytes (wsBinFrame junk payload payload.length) ++ writeBinFrames written := rfl
    rw [hcons, List.append_assoc] at hs
    obtain ⟨frame, t, r₁, hown, ht⟩ :=
      wsReadFrame_binFrame (g 0) junk (hsize _ List.mem_cons_self) hs
    rw [List.append_assoc] at ht
    obtain ⟨u, r₂, hback, hlater, hu⟩ :=
      ih (fun i => g (i + 1)) (fun w hw => hsize w (List.mem_cons_of_mem _ hw)) ht
    exact ⟨u, r₁ ++ r₂, .cons hown hback, hcons ▸ hown.later.trans hlater,
      by rw [hu, List.append_assoc]⟩

/-- **Writer and reader agree on the frame boundaries.**  Every list of payloads up to the
limit, each written as a binary frame, is read back with one call for each payload.  A
call consumes exactly the bytes of its frame, and nothing is left after the last. -/
theorem readsBack_writeBinFrames (g : ℕ → Garbage) (written : List (WSFrame × List UInt8))
    (hsize : ∀ w ∈ written, w.2.length ≤ wsFrameSize) {s : Arrivals UInt8}
    (hs : s.ready = writeBinFrames written) (hall : s.coming = []) :
    ∃ t, ReadsBack g written s t ∧ t.all = [] := by
  have hready : s.ready = writeBinFrames written ++ [] := by rw [hs, List.append_nil]
  obtain ⟨t, r', hback, hlater, -⟩ := readsBack_append g hsize hready
  refine ⟨t, hback, ?_⟩
  have happ := hlater.append_all
  rw [Arrivals.all, Arrivals.all, hs, hall, List.flatten_nil] at happ
  exact List.append_cancel_left happ

/-- Two payloads, one of them empty. -/
theorem readsBack_two : ∃ t, ReadsBack (fun _ => zeroGarbage)
    [(WSFrame.zero, [1, 2, 3]), (WSFrame.zero, [])]
    (Arrivals.ofList (writeBinFrames [(WSFrame.zero, [1, 2, 3]), (WSFrame.zero, [])])) t ∧
      t.all = [] :=
  readsBack_writeBinFrames _ _ (by decide) rfl rfl

end Networking
end MmoBackend
