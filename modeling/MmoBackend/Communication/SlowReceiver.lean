import MmoBackend.Communication.Packet
import MmoBackend.Library.Exec

/-!
# Writing packets to a slow receiver

The socket is non-blocking, so a `write()` may accept less than it is given, or
nothing at all when the send buffer is full.  `ws_write` goes on after a short
count and gives up at the first refusal; it reports neither, and `ws_write_frame`
goes on with the next part of the frame.

`writeAll` sends a list of buffers against a list of answers of the socket and
counts what was accepted of each.  If a refusal is followed by nothing but
refusals, what was accepted is a prefix of what was to be sent.  If it is followed
by a single acceptance, some later part or packet was sent behind a hole.
`unbroken_iff` says that this is the only way the stream breaks.
-/

namespace MmoBackend
namespace Communication

open Networking

/-- What one `write()` of a buffer that is not empty does. -/
inductive WriteResult where
  /-- It accepts `n + 1` bytes, or all that is left if that is less. -/
  | accepted (n : ℕ)
  /-- The send buffer is full. -/
  | wouldBlock
  deriving DecidableEq

/-- What is left of a buffer is written, `total` bytes of it being accepted already.
The state is the list of answers the socket will give.  A `write()` of nothing
returns zero and ends the loop.  `total` is an `int`; counting further than it can
is undefined. -/
def wsWriteFrom (len : ℕ) : ℕ → List WriteResult → Except Stop (ℕ × List WriteResult)
  | total, [] => if len ≤ total then .ok (total, []) else .error .fuel
  | total, result :: results =>
    if len ≤ total then .ok (total, result :: results)
    else
      match result with
      | .wouldBlock => .ok (total, results)
      | .accepted n =>
        if 2 ^ 31 ≤ total + min (n + 1) (len - total) then .error .fault
        else wsWriteFrom len (total + min (n + 1) (len - total)) results

/-- `ws_write`.  The result is the number of bytes accepted, which the source does
not return. -/
def wsWrite (buf : List UInt8) : Exec (List WriteResult) ℕ := wsWriteFrom buf.length 0

/-- Buffer after buffer is written; the result is what was accepted of each. -/
def writeAll : List (List UInt8) → Exec (List WriteResult) (List ℕ)
  | [] => pure []
  | buf :: bufs => do
    let count ← wsWrite buf
    let counts ← writeAll bufs
    pure (count :: counts)

/-- What the socket has accepted. -/
def wire (bufs : List (List UInt8)) (counts : List ℕ) : List UInt8 :=
  (List.zipWith List.take counts bufs).flatten

/-! ## One buffer -/

/-- What `ws_write` does: either it accepts everything, or it meets a refusal
first.  `acc` are the answers before that. -/
theorem wsWriteFrom_eq_ok {len total count : ℕ} {results rest : List WriteResult}
    (htotal : total ≤ len) (h : wsWriteFrom len total results = .ok (count, rest)) :
    ∃ acc : List WriteResult, (∀ r ∈ acc, r ≠ .wouldBlock) ∧ total + acc.length ≤ count ∧
      (acc = [] → count = total) ∧ (count = len ∧ results = acc ++ rest ∨
        count < len ∧ results = acc ++ .wouldBlock :: rest) := by
  induction results generalizing total with
  | nil =>
    simp only [wsWriteFrom] at h
    split at h
    · rw [Except.ok.injEq, Prod.mk.injEq] at h
      obtain ⟨rfl, rfl⟩ := h
      exact ⟨[], by simp, le_refl _, fun _ => rfl, Or.inl ⟨by omega, rfl⟩⟩
    · exact absurd h (by simp)
  | cons result results ih =>
    simp only [wsWriteFrom] at h
    split at h
    · rw [Except.ok.injEq, Prod.mk.injEq] at h
      obtain ⟨rfl, rfl⟩ := h
      exact ⟨[], by simp, le_refl _, fun _ => rfl, Or.inl ⟨by omega, rfl⟩⟩
    · rename_i hlt
      cases result with
      | wouldBlock =>
        rw [Except.ok.injEq, Prod.mk.injEq] at h
        obtain ⟨rfl, rfl⟩ := h
        exact ⟨[], by simp, le_refl _, fun _ => rfl, Or.inr ⟨by omega, rfl⟩⟩
      | accepted n =>
        dsimp only at h
        split at h
        · exact absurd h (by simp)
        · obtain ⟨acc, hacc, hcount, -, hcase⟩ := ih (by omega) h
          refine ⟨.accepted n :: acc, ?_, ?_, fun hnil => absurd hnil (List.cons_ne_nil _ _),
            ?_⟩
          · rintro r (_ | ⟨_, hr⟩)
            · exact WriteResult.noConfusion
            · exact hacc r hr
          · rw [List.length_cons]
            omega
          · rcases hcase with ⟨hc, rfl⟩ | ⟨hc, rfl⟩
            · exact Or.inl ⟨hc, rfl⟩
            · exact Or.inr ⟨hc, rfl⟩

/-- The loop ends with an answer for every byte, and it never counts too far if the
buffer is shorter than `2 ^ 31` bytes. -/
theorem wsWriteFrom_returns (total : ℕ) {len : ℕ} {results : List WriteResult}
    (hlen : len < 2 ^ 31) (hresults : len - total ≤ results.length) :
    ∃ count rest, wsWriteFrom len total results = .ok (count, rest) ∧
      results.length ≤ rest.length + (len - total) := by
  induction results generalizing total with
  | nil => exact ⟨total, [], by
      rw [wsWriteFrom, if_pos (Nat.sub_eq_zero_iff_le.mp (Nat.le_zero.mp hresults))], by simp⟩
  | cons result results ih =>
    by_cases hdone : len ≤ total
    · exact ⟨total, result :: results, by simp only [wsWriteFrom, if_pos hdone], by omega⟩
    · cases result with
      | wouldBlock =>
        refine ⟨total, results, by simp only [wsWriteFrom, if_neg hdone], ?_⟩
        rw [List.length_cons]
        omega
      | accepted n =>
        rw [List.length_cons] at hresults
        obtain ⟨count, rest, hrun, hrest⟩ :=
          ih (total + min (n + 1) (len - total)) (by omega)
        refine ⟨count, rest, ?_, ?_⟩
        · simp only [wsWriteFrom, if_neg hdone]
          rw [if_neg (by omega), hrun]
        · rw [List.length_cons]
          omega

/-! ## Buffer after buffer -/

@[simp] theorem writeAll_nil (results : List WriteResult) :
    writeAll [] results = .ok ([], results) := rfl

theorem writeAll_cons_eq_ok {buf : List UInt8} {bufs : List (List UInt8)}
    {results rest : List WriteResult} {counts : List ℕ} :
    writeAll (buf :: bufs) results = .ok (counts, rest) ↔
      ∃ count counts' mid, counts = count :: counts' ∧ wsWrite buf results = .ok (count, mid) ∧
        writeAll bufs mid = .ok (counts', rest) := by
  simp only [writeAll, Exec.bind_eq_ok, Exec.pure_eq_ok]
  constructor
  · rintro ⟨count, mid, hbuf, counts', u, hbufs, rfl, rfl⟩
    exact ⟨count, counts', mid, rfl, hbuf, hbufs⟩
  · rintro ⟨count, counts', mid, rfl, hbuf, hbufs⟩
    exact ⟨count, mid, hbuf, counts', rest, hbufs, rfl, rfl⟩

/-- Enough answers bring every list of buffers below `2 ^ 31` bytes to its end. -/
theorem writeAll_returns {bufs : List (List UInt8)} (hbufs : ∀ buf ∈ bufs, buf.length < 2 ^ 31)
    {results : List WriteResult} (hresults : bufs.flatten.length ≤ results.length) :
    ∃ counts rest, writeAll bufs results = .ok (counts, rest) := by
  induction bufs generalizing results with
  | nil => exact ⟨[], results, rfl⟩
  | cons buf bufs ih =>
    rw [List.flatten_cons, List.length_append] at hresults
    obtain ⟨count, mid, hbuf, hmid⟩ := wsWriteFrom_returns 0
      (hbufs buf List.mem_cons_self) (by omega : buf.length - 0 ≤ results.length)
    obtain ⟨counts, rest, hrest⟩ :=
      ih (fun b hb => hbufs b (List.mem_cons_of_mem buf hb)) (by omega : _ ≤ mid.length)
    exact ⟨count :: counts, rest, writeAll_cons_eq_ok.mpr ⟨count, counts, mid, rfl, hbuf, hrest⟩⟩

/-- Once the socket refuses, it refuses everything after that. -/
def StaysBlocked (results : List WriteResult) : Prop :=
  results.Pairwise fun r r' => r = .wouldBlock → r' = .wouldBlock

/-- Nothing is accepted behind a buffer that was not accepted completely. -/
def StopsAtHole (bufs : List (List UInt8)) (counts : List ℕ) : Prop :=
  (counts.zip bufs).Pairwise fun p q => p.1 < p.2.length → q.1 = 0

/-- A buffer that is not empty is left out exactly when its first `write()` is
refused; so nothing is accepted of any buffer exactly when every answer is a
refusal. -/
theorem forall_wouldBlock_iff {bufs : List (List UInt8)} (hbufs : ∀ buf ∈ bufs, buf ≠ [])
    {results : List WriteResult} {counts : List ℕ} (h : writeAll bufs results = .ok (counts, [])) :
    (∀ r ∈ results, r = .wouldBlock) ↔ ∀ p ∈ counts.zip bufs, p.1 = 0 := by
  induction bufs generalizing results counts with
  | nil =>
    rw [writeAll_nil, Except.ok.injEq, Prod.mk.injEq] at h
    rw [h.2, ← h.1]
    simp
  | cons buf bufs ih =>
    obtain ⟨count, counts, mid, rfl, hbuf, hrest⟩ := writeAll_cons_eq_ok.mp h
    obtain ⟨acc, hacc, hcount, hzero, hcase⟩ := wsWriteFrom_eq_ok (Nat.zero_le _) hbuf
    have hpos : 0 < buf.length := List.length_pos_of_ne_nil (hbufs buf List.mem_cons_self)
    have htail := ih (fun b hb => hbufs b (List.mem_cons_of_mem buf hb)) hrest
    rw [List.zip_cons_cons, List.forall_mem_cons, ← htail]
    cases acc with
    | nil =>
      have hc : count = 0 := hzero rfl
      rcases hcase with ⟨hfull, -⟩ | ⟨-, hresults⟩
      · omega
      · rw [hresults, List.nil_append, List.forall_mem_cons, hc]
        simp
    | cons a acc =>
      have ha : a ≠ .wouldBlock := hacc a List.mem_cons_self
      have hmem : a ∈ results := by
        rcases hcase with ⟨-, rfl⟩ | ⟨-, rfl⟩
        · exact List.mem_append_left _ List.mem_cons_self
        · exact List.mem_append_left _ List.mem_cons_self
      rw [List.length_cons] at hcount
      exact iff_of_false (fun hall => ha (hall a hmem)) (fun hall => by
        have := hall.1
        omega)

/-- **The hole is where the first refusal is.** -/
theorem stopsAtHole_iff {bufs : List (List UInt8)} (hbufs : ∀ buf ∈ bufs, buf ≠ [])
    {results : List WriteResult} {counts : List ℕ} (h : writeAll bufs results = .ok (counts, [])) :
    StopsAtHole bufs counts ↔ StaysBlocked results := by
  induction bufs generalizing results counts with
  | nil =>
    rw [writeAll_nil, Except.ok.injEq, Prod.mk.injEq] at h
    rw [h.2, ← h.1]
    exact iff_of_true List.Pairwise.nil List.Pairwise.nil
  | cons buf bufs ih =>
    obtain ⟨count, counts, mid, rfl, hbuf, hrest⟩ := writeAll_cons_eq_ok.mp h
    obtain ⟨acc, hacc, -, -, hcase⟩ := wsWriteFrom_eq_ok (Nat.zero_le _) hbuf
    have hbufs' : ∀ b ∈ bufs, b ≠ [] := fun b hb => hbufs b (List.mem_cons_of_mem buf hb)
    have htail := ih hbufs' hrest
    have hacc' : ∀ l, StaysBlocked (acc ++ l) ↔ StaysBlocked l := by
      intro l
      rw [StaysBlocked, List.pairwise_append]
      refine ⟨fun hp => hp.2.1, fun hp => ⟨?_, hp, ?_⟩⟩
      · exact List.pairwise_of_forall_mem_list fun a ha _ _ hblock => absurd hblock (hacc a ha)
      · exact fun a ha _ _ hblock => absurd hblock (hacc a ha)
    rw [StopsAtHole, List.zip_cons_cons, List.pairwise_cons]
    rcases hcase with ⟨hfull, rfl⟩ | ⟨hpart, rfl⟩
    · rw [hacc' mid, ← htail]
      exact ⟨fun hp => hp.2, fun hp => ⟨fun q _ hlt => absurd hlt (by simp [hfull]), hp⟩⟩
    · have hzero := forall_wouldBlock_iff hbufs' hrest
      rw [hacc', StaysBlocked, List.pairwise_cons]
      constructor
      · rintro ⟨hhole, hp⟩
        exact ⟨fun r hr _ => hzero.mpr (fun q hq => hhole q hq hpart) r hr, htail.mp hp⟩
      · rintro ⟨hblock, hp⟩
        exact ⟨fun q hq _ => hzero.mp (fun r hr => hblock r hr rfl) q hq, htail.mpr hp⟩

/-- Without bytes behind a hole, what is accepted is a prefix of what is sent. -/
theorem wire_isPrefix {bufs : List (List UInt8)} {counts : List ℕ}
    (h : StopsAtHole bufs counts) : wire bufs counts <+: bufs.flatten := by
  induction bufs generalizing counts with
  | nil => simp [wire]
  | cons buf bufs ih =>
    cases counts with
    | nil => exact List.nil_prefix
    | cons count counts =>
      rw [StopsAtHole, List.zip_cons_cons, List.pairwise_cons] at h
      obtain ⟨hhole, hrest⟩ := h
      have hwire : wire (buf :: bufs) (count :: counts) = buf.take count ++ wire bufs counts := rfl
      rw [hwire, List.flatten_cons]
      rcases Nat.lt_or_ge count buf.length with hlt | hge
      · have hnil : wire bufs counts = [] := by
          rw [wire, List.flatten_eq_nil_iff]
          intro l hl
          rw [List.mem_iff_getElem] at hl
          obtain ⟨i, hi, rfl⟩ := hl
          have hizip : i < (counts.zip bufs).length := by
            rwa [List.length_zip, ← List.length_zipWith]
          have hcount := hhole _ (List.getElem_mem hizip) hlt
          rw [List.getElem_zip] at hcount
          dsimp only at hcount
          rw [List.getElem_zipWith, hcount, List.take_zero]
        rw [hnil, List.append_nil]
        exact (List.take_prefix count buf).trans (List.prefix_append buf _)
      · rw [List.take_of_length_le hge]
        exact (List.prefix_append_right_inj buf).mpr (ih hrest)

/-! ## Packets -/

/-- The buffers of a list of packets written one after another.  With each packet
comes the content of its freshly allocated frame. -/
def packetsWrite (packets : List (WSFrame × Packet)) : List (List UInt8) :=
  packets.flatMap fun p => packetWrite p.1 p.2

/-- The complete encodings of the packets. -/
def packetsBytes (packets : List (WSFrame × Packet)) : List UInt8 :=
  packets.flatMap fun p => frameBytes (packetFrame p.1 p.2)

theorem flatten_packetsWrite (packets : List (WSFrame × Packet)) :
    (packetsWrite packets).flatten = packetsBytes packets := by
  induction packets with
  | nil => rfl
  | cons p packets ih =>
    rw [packetsWrite, List.flatMap_cons, List.flatten_append, packetsBytes, List.flatMap_cons]
    exact congrArg _ ih

/-- The buffers of a packet: the header, the extended length if there is one, and
the flattened packet. -/
theorem packetWrite_eq (junk : WSFrame) {packet : Packet}
    (hsize : packetSize + packet.length.toNat < 2 ^ 32) :
    packetWrite junk packet =
      [0x82, UInt8.ofNat (binLength7 (packetSize + packet.length.toNat))] ::
        binLengthExt (packetSize + packet.length.toNat) ++ [packetFlatten packet] := by
  rw [packetWrite, packetFrame, Nat.mod_eq_of_lt hsize, wsWriteFrame_wsBinFrame _ _ hsize,
    ← length_packetFlatten packet, List.take_length]

/-- No buffer of a packet is empty, and none is longer than the flattened packet. -/
theorem length_of_mem_packetWrite {junk : WSFrame} {packet : Packet}
    (hsize : packetSize + packet.length.toNat < 2 ^ 32) {buf : List UInt8}
    (hbuf : buf ∈ packetWrite junk packet) :
    0 < buf.length ∧ buf.length ≤ packetSize + packet.length.toNat := by
  rw [packetWrite_eq junk hsize] at hbuf
  have hflat := length_packetFlatten packet
  rw [packetSize] at hsize hflat ⊢
  rcases List.mem_append.mp hbuf with hbuf | hbuf
  · rcases List.mem_cons.mp hbuf with rfl | hbuf
    · rw [List.length_cons, List.length_singleton]
      omega
    · unfold binLengthExt at hbuf
      split at hbuf
      · exact absurd hbuf (by simp)
      split at hbuf
      · rw [List.mem_singleton.mp hbuf, Bytes.length_beBytes]
        omega
      · rw [List.mem_singleton.mp hbuf, List.length_append, Bytes.length_beBytes]
        exact ⟨by decide, by rw [List.length_cons, List.length_cons]; simp; omega⟩
  · rw [List.mem_singleton.mp hbuf]
    omega

/-- The flattened packets are shorter than `n` bytes. -/
def ShorterThan (n : ℕ) (packets : List (WSFrame × Packet)) : Prop :=
  ∀ p ∈ packets, packetSize + p.2.length.toNat < n

theorem length_of_mem_packetsWrite {n : ℕ} (hn : n ≤ 2 ^ 32)
    {packets : List (WSFrame × Packet)} (h : ShorterThan n packets) {buf : List UInt8}
    (hbuf : buf ∈ packetsWrite packets) : 0 < buf.length ∧ buf.length < n := by
  obtain ⟨p, hp, hbuf⟩ := List.mem_flatMap.mp hbuf
  have hsize := h p hp
  obtain ⟨hpos, hle⟩ := length_of_mem_packetWrite (by omega) hbuf
  exact ⟨hpos, by omega⟩

/-- What a receiver relies on: the stream is a prefix of the packets' encodings,
and nothing follows a part that was not sent completely. -/
structure Unbroken (packets : List (WSFrame × Packet)) (counts : List ℕ) : Prop where
  isPrefix : wire (packetsWrite packets) counts <+: packetsBytes packets
  stops : StopsAtHole (packetsWrite packets) counts

/-- Every list of packets that fit the counter of `ws_write` is written to its end,
however the socket answers. -/
theorem packetsWrite_returns {packets : List (WSFrame × Packet)}
    (h : ShorterThan (2 ^ 31) packets) {results : List WriteResult}
    (hresults : (packetsBytes packets).length ≤ results.length) :
    ∃ counts rest, writeAll (packetsWrite packets) results = .ok (counts, rest) :=
  writeAll_returns (fun _ hbuf => (length_of_mem_packetsWrite (by norm_num) h hbuf).2)
    (flatten_packetsWrite packets ▸ hresults)

/-- **When a slow receiver does no harm.**  `results` are the answers the socket
gives while the packets are written.  The stream stays unbroken exactly when the
socket, once it refuses a `write()`, refuses every later one. -/
theorem unbroken_iff {packets : List (WSFrame × Packet)}
    (hpackets : ShorterThan (2 ^ 32) packets) {results : List WriteResult} {counts : List ℕ}
    (h : writeAll (packetsWrite packets) results = .ok (counts, [])) :
    Unbroken packets counts ↔ StaysBlocked results := by
  have hbufs : ∀ buf ∈ packetsWrite packets, buf ≠ [] := fun buf hbuf =>
    List.ne_nil_of_length_pos (length_of_mem_packetsWrite (le_refl _) hpackets hbuf).1
  have hstops := stopsAtHole_iff hbufs h
  constructor
  · exact fun hunbroken => hstops.mp hunbroken.stops
  · intro hblocked
    have hhole := hstops.mpr hblocked
    exact ⟨flatten_packetsWrite packets ▸ wire_isPrefix hhole, hhole⟩

/-- The header is accepted, and the send buffer is full before the body. -/
theorem unbroken_success :
    Unbroken [(WSFrame.zero, successPacket)] [2, 0] := by
  have hshort : ShorterThan (2 ^ 32) [(WSFrame.zero, successPacket)] := by
    intro p hp
    rw [List.mem_singleton.mp hp]
    decide
  have hrun : writeAll (packetsWrite [(WSFrame.zero, successPacket)])
      [.accepted 1, .wouldBlock] = .ok ([2, 0], []) := by decide
  have hblocked : StaysBlocked [.accepted 1, .wouldBlock] := by
    rw [StaysBlocked]
    decide
  exact (unbroken_iff hshort hrun).mpr hblocked

/-- **A header is lost and its body is sent.**  The socket refuses the two bytes of
the header and has room again for the body. -/
theorem not_unbroken_success :
    ShorterThan (2 ^ 32) [(WSFrame.zero, successPacket)] ∧
      writeAll (packetsWrite [(WSFrame.zero, successPacket)]) [.wouldBlock, .accepted 8]
        = .ok ([0, 9], []) ∧
      wire (packetsWrite [(WSFrame.zero, successPacket)]) [0, 9] = [3, 1, 0, 0, 0, 0, 0, 0, 0] ∧
      ¬Unbroken [(WSFrame.zero, successPacket)] [0, 9] := by
  refine ⟨?_, by decide, by decide, fun h => ?_⟩
  · intro p hp
    rw [List.mem_singleton.mp hp]
    decide
  · exact absurd h.isPrefix (by decide)

end Communication
end MmoBackend
