import MmoBackend.World.ClientsAgree
import MmoBackend.World.Tidy
import MmoBackend.World.Twins

/-!
# What a client reads from the bytes

The server keeps what it has written to a socket as packets, `sentTo`.  What goes over the
connection are bytes, `wireBytes`: every packet is flattened and framed by `packet_write`, and
every close by `ws_close`, each in a frame of its own whose memory held something else before.

A client that knows the framing of RFC 6455 and the layout of a packet takes these bytes
apart.  It reads what was written, in order and nothing else, and so it knows where the players
of its map are from the bytes alone.
-/

namespace MmoBackend

open Authentication Bytes Communication Db Maps Networking

namespace World

/-! ## From packets to bytes -/

/-- The bytes of a write.  `junk` is what was in the memory of its frame. -/
def sentBytes (junk : WSFrame) : Sent → List UInt8
  | .packet packet => (Communication.packetWrite junk packet.toPacket).flatten
  | .close code => (Communication.wsClose junk code).flatten

/-- The bytes on a socket. -/
def wireBytes (junk : ℕ → WSFrame) (fd : ℕ) (w : World) : List UInt8 :=
  ((sentTo fd w).mapIdx fun i sent => sentBytes (junk i) sent).flatten

/-- The frame of a write. -/
def sentFrame : Sent → Rfc6455.Frame
  | .packet packet => Rfc6455.binary (packetFlatten packet.toPacket)
  | .close code => closeFrame code

variable {sent : Sent} {w : World} {fd : ℕ}

/-- Whatever was in its memory, the bytes are those of the frame. -/
theorem sentBytes_eq (h : sent.Fits) (junk : WSFrame) :
    sentBytes junk sent = Rfc6455.encode (sentFrame sent) := by
  cases sent with
  | packet packet => exact ServerPacket.Fits.frameBytes_eq h junk
  | close code => exact Communication.wsClose_flatten junk code

theorem payload_sentFrame_lt (h : sent.Fits) : (sentFrame sent).payload.length < 2 ^ 63 := by
  cases sent with
  | packet packet =>
    have hsize := ServerPacket.Fits.size h
    have hlength : packet.toPacket.length.toNat ≤ packet.toPacket.data.length :=
      packet.toPacket.length_le
    simp only [sentFrame, Rfc6455.binary, length_packetFlatten]
    omega
  | close code => simp [sentFrame, closeFrame]

theorem Tidy.fits (h : Tidy w) (hsent : sent ∈ sentTo fd w) : sent.Fits := by
  obtain ⟨e, he, hfd⟩ := List.mem_filterMap.mp hsent
  split at hfd
  · rw [← Option.some.inj hfd]
    exact h.out e he
  · exact absurd hfd (Option.some_ne_none _).symm

/-- The bytes are the frames of what was written, one after the other. -/
theorem Tidy.wireBytes_eq (h : Tidy w) (junk : ℕ → WSFrame) (fd : ℕ) :
    wireBytes junk fd w = (((sentTo fd w).map sentFrame).map Rfc6455.encode).flatten := by
  refine congrArg List.flatten (List.ext_getElem (by simp) fun i hi _ => ?_)
  have hlen : i < (sentTo fd w).length := by simpa using hi
  simp only [List.getElem_mapIdx, List.getElem_map]
  exact sentBytes_eq (h.fits (List.getElem_mem hlen)) (junk i)

/-! ## From bytes to packets -/

/-- What a client reads from a frame. -/
def receiveFrame (frame : Rfc6455.Frame) : Option Sent :=
  if frame.opcode = 2 then ((parsePacket frame.payload).bind readServerPacket).map .packet
  else if frame.opcode = 8 then some (.close (beNat frame.payload))
  else none

theorem receiveFrame_sentFrame (h : sent.Fits) : receiveFrame (sentFrame sent) = some sent := by
  cases sent with
  | packet packet =>
    simp [receiveFrame, sentFrame, Rfc6455.binary, ServerPacket.Fits.parse h]
  | close code =>
    have hcode : code < 65536 := h
    simpa [receiveFrame, sentFrame, closeFrame, beNat_beBytes] using hcode

/-- The frames of the bytes are those of what was written. -/
theorem Tidy.frames_wireBytes (h : Tidy w) (junk : ℕ → WSFrame) (fd : ℕ) :
    Rfc6455.frames (wireBytes junk fd w) = (sentTo fd w).map sentFrame := by
  rw [h.wireBytes_eq]
  refine Rfc6455.frames_encode fun frame hframe => ?_
  obtain ⟨sent, hsent, rfl⟩ := List.mem_map.mp hframe
  exact payload_sentFrame_lt (h.fits hsent)

/-- What a tidy server has written is read. -/
theorem Tidy.receiveFrame_frames (h : Tidy w) (junk : ℕ → WSFrame) (fd : ℕ) :
    (Rfc6455.frames (wireBytes junk fd w)).map receiveFrame = (sentTo fd w).map some := by
  rw [h.frames_wireBytes, List.map_map]
  exact List.map_congr_left fun sent hsent => receiveFrame_sentFrame (h.fits hsent)

variable {defs : MapDefs} {playerdata : List Document} {l : List (Request × World)}

/-- **The bytes on a socket**, after any run, are read back as what was written to it: the same
packets and closes in the same order, with everything their templates were called with.  The
frames that are read are all that is there. -/
theorem received_of_wireBytes (hdefs : TidyDefs defs)
    (hdata : ∀ doc ∈ playerdata, TidyRecord doc)
    (h : Trace (Step defs) (boot playerdata) l w) (junk : ℕ → WSFrame) (fd : ℕ) :
    ((Rfc6455.frames (wireBytes junk fd w)).map Rfc6455.encode).flatten = wireBytes junk fd w ∧
      (Rfc6455.frames (wireBytes junk fd w)).map receiveFrame = (sentTo fd w).map some := by
  have htidy : Tidy w := tidy_run hdefs hdata h
  refine ⟨?_, htidy.receiveFrame_frames junk fd⟩
  rw [htidy.frames_wireBytes, htidy.wireBytes_eq]

/-! ## What a client knows -/

/-- What a client holds that has read these bytes and nothing else. -/
def byteView (bytes : List UInt8) : CString → Option (ℤ × ℤ) :=
  Message.replay ((Rfc6455.frames bytes).filterMap fun frame =>
    (receiveFrame frame).bind messageOf)

/-- The bytes of a tidy server say what it has written. -/
theorem Tidy.byteView_wireBytes (h : Tidy w) (junk : ℕ → WSFrame) (fd : ℕ) :
    byteView (wireBytes junk fd w) = clientView fd w.out := by
  have hframes : (Rfc6455.frames (wireBytes junk fd w)).filterMap
        (fun frame => (receiveFrame frame).bind messageOf)
      = ((Rfc6455.frames (wireBytes junk fd w)).map receiveFrame).filterMap
        fun received => received.bind messageOf := by
    rw [List.filterMap_map]
    rfl
  have hsent : (sentTo fd w).filterMap messageOf = messagesTo fd w.out := by
    rw [sentTo, messagesTo, List.filterMap_filterMap]
    refine List.filterMap_congr fun e _ => ?_
    split <;> rfl
  rw [byteView, hframes, h.receiveFrame_frames, List.filterMap_map, clientView, ← hsent]
  rfl

/-- **What a client knows from the bytes alone.**  After every run without a second login to an
account, the bytes on the socket of a session that may move say where the players of its map
are: exactly those listed on it, each at the position it has now. -/
theorem byteView_eq {s : ℕ} {session : Session} (hdefs : TidyDefs defs)
    (hportals : GoodPortals defs) (hdata : ∀ doc ∈ playerdata, TidyRecord doc)
    (hrecords : ValidRecords defs playerdata)
    (h : Trace (Guarded (Step defs) DistinctLogin) (boot playerdata) l w)
    (hsession : w.sessions.get s = some session) (hstate : session.state = .roaming)
    (junk : ℕ → WSFrame) :
    ∃ p player m map, session.player = some p ∧ w.players.get p = some player ∧
      player.map = some m ∧ w.maps.get m = some map ∧ p ∈ map.players ∧
      (∀ q ∈ map.players, ∃ other k, w.players.get q = some other ∧ other.id = some k) ∧
      ∀ k c, byteView (wireBytes junk session.fd w) k = some c ↔ ∃ q ∈ map.players, ∃ other,
        w.players.get q = some other ∧ other.id = some k ∧ (other.x, other.y) = c := by
  have hinv : Settled defs w ∧ Tidy w :=
    h.invariant (I := fun w => Settled defs w ∧ Tidy w)
      (fun _ _ _ hw hstep => ⟨hw.1.step hportals hstep.1 hstep.2, hw.2.step hdefs hstep.1⟩)
      ⟨settled_boot hrecords, tidy_boot hdata⟩
  rw [hinv.2.byteView_wireBytes]
  exact hinv.1.session_view hsession hstate

/-! ## The maps and a record of the repository -/

theorem tidyDefs_mapLoaders : TidyDefs mapLoaders := by
  intro base hbase
  rcases List.mem_cons.mp hbase with rfl | hbase
  · exact ⟨⟨by decide +kernel, by decide +kernel⟩, by decide +kernel⟩
  · rw [List.mem_singleton.mp hbase]
    exact ⟨⟨by decide +kernel, by decide +kernel⟩, by decide +kernel⟩

theorem tidyRecord_gateRecord : TidyRecord gateRecord where
  short field hfield s hs := by
    simp only [gateRecord, List.mem_cons, List.not_mem_nil, or_false] at hfield
    rcases hfield with rfl | rfl | rfl | rfl | rfl <;> cases hs
    exact (by decide : [97].length ≤ 32000)
  ints field hfield n hn := by
    simp only [gateRecord, List.mem_cons, List.not_mem_nil, or_false] at hfield
    rcases hfield with rfl | rfl | rfl | rfl | rfl <;> cases hn <;> decide

theorem tidyRecord_farRecord : TidyRecord farRecord where
  short field hfield s hs := by
    simp only [farRecord, List.mem_cons, List.not_mem_nil, or_false] at hfield
    rcases hfield with rfl | rfl | rfl | rfl | rfl <;> cases hs
    exact (by decide : [98].length ≤ 32000)
  ints field hfield n hn := by
    simp only [farRecord, List.mem_cons, List.not_mem_nil, or_false] at hfield
    rcases hfield with rfl | rfl | rfl | rfl | rfl <;> cases hn <;> decide

theorem tidyRecord_of_mem : ∀ doc ∈ [gateRecord, farRecord], TidyRecord doc :=
  List.forall_mem_cons.mpr
    ⟨tidyRecord_gateRecord, List.forall_mem_singleton.mpr tidyRecord_farRecord⟩

theorem BothArrived.length_sentTo (h : w.BothArrived) : (sentTo 4 w).length = 5 := by
  have hlength : ∀ out : List (ℕ × Sent),
      (out.filterMap fun e => if e.1 = 4 then some e.2 else none).length
        = (out.filter fun e => e.1 = 4).length := by
    intro out
    induction out with
    | nil => rfl
    | cons e out ih => by_cases he : e.1 = 4 <;> simp [he, ih]
  exact (hlength w.out).trans h.written

/-- What is read after the run through the portal, when five packets have been written to the
second client. -/
theorem received_of_wireBytes_throughPortal : ∃ l w,
    Trace (Step mapLoaders) (boot [gateRecord, farRecord]) l w ∧ (sentTo 4 w).length = 5 ∧
      ∀ junk fd,
        ((Rfc6455.frames (wireBytes junk fd w)).map Rfc6455.encode).flatten = wireBytes junk fd w ∧
        (Rfc6455.frames (wireBytes junk fd w)).map receiveFrame = (sentTo fd w).map some := by
  obtain ⟨l, w, hrun, harrived⟩ := trace_distinctLogin
  exact ⟨l, w, hrun.of_guarded, harrived.length_sentTo,
    received_of_wireBytes tidyDefs_mapLoaders tidyRecord_of_mem hrun.of_guarded⟩

/-- What the two clients know. -/
theorem byteView_eq_throughPortal : ∃ l w,
    Trace (Guarded (Step mapLoaders) DistinctLogin) (boot [gateRecord, farRecord]) l w ∧
      BothArrived w ∧ ∀ junk,
      (byteView (wireBytes junk 3 w) [97] = some (0, 5) ∧
        byteView (wireBytes junk 3 w) [98] = some (1, 1)) ∧
      byteView (wireBytes junk 4 w) [97] = some (0, 5) ∧
        byteView (wireBytes junk 4 w) [98] = some (1, 1) := by
  obtain ⟨l, w, hrun, harrived⟩ := trace_distinctLogin
  exact ⟨l, w, hrun, harrived, fun junk =>
    ⟨harrived.view_eq (.inl rfl) (byteView_eq tidyDefs_mapLoaders goodPortals_mapLoaders
        tidyRecord_of_mem validRecords_gateRecord hrun harrived.first_session rfl junk),
      harrived.view_eq (.inr rfl) (byteView_eq tidyDefs_mapLoaders goodPortals_mapLoaders
        tidyRecord_of_mem validRecords_gateRecord hrun harrived.second_session rfl junk)⟩⟩

end World
end MmoBackend
