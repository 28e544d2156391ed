import MmoBackend.Communication.PacketRead
import MmoBackend.Library.Trace
import MmoBackend.World.Login

/-!
# The server on its connections

`Step` has a session receive a packet.  What really arrives are bytes, cut into segments that
come when they come, and `event_loop_start` waits in `poll` until something is there and takes a
packet off with `packet_read`.  `NetworkStep` is the server with these streams.

It refines `Step` as long as every client sends its packets in masked frames that no segment
cuts.  Every round of a session then takes the next packet of its client, whatever the other
sessions do in between and whatever was in the memory that is read into: nothing is lost,
nothing is handled twice and nothing is handled out of order.
-/

namespace MmoBackend

open Authentication Bytes Communication Maps Networking

namespace World

/-! ## What a client sends -/

/-- A payload, and the key it is masked with. -/
abbrev ClientMessage : Type := Vector UInt8 4 × List UInt8

/-- The bytes of a message. -/
def ClientMessage.bytes (m : ClientMessage) : List UInt8 :=
  Rfc6455.encode (maskedFrame m.1 m.2)

/-- The message has room for the header of a packet, and its length is not one of those at which
the 16-bit form stops working. -/
def ClientMessage.Readable (m : ClientMessage) : Prop :=
  packetSize ≤ m.2.length ∧ m.2.length < 32768

/-- The packet in a message.  The length in its header is not looked at. -/
def ClientMessage.packet (m : ClientMessage) : Packet where
  opcode := m.2.headD 0
  id := BitVec.ofNat 32 (leNat ((m.2.drop 1).take 4))
  length := BitVec.ofNat 32 (m.2.length - packetSize)
  data := m.2.drop packetSize ++ [0]
  length_le := by
    rw [BitVec.toNat_ofNat, List.length_append, List.length_drop]
    exact (Nat.mod_le _ _).trans (Nat.le_succ _)

/-- What is taken from the frame of a message is its packet. -/
theorem packet_eq_of_takenFrom {m : ClientMessage} {frame : WSFrame} {packet : Packet}
    (h : TakenFrom frame m.2 packet) : packet = m.packet := by
  have hopcode : packet.opcode = m.2.headD 0 := by
    rw [List.headD_eq_head?_getD, List.head?_eq_getElem?, h.opcode, Option.getD_some]
  have hlength : packet.length = BitVec.ofNat 32 (m.2.length - packetSize) := by
    rw [← h.length, BitVec.ofNat_toNat, BitVec.setWidth_eq]
  have hid := h.id
  have hbody := h.body
  obtain ⟨opcode, id, length, data, hle⟩ := packet
  obtain rfl := hopcode
  obtain rfl := hlength
  obtain rfl := hid
  obtain rfl := hbody
  rfl

/-! ## The server and its streams -/

/-- The server, and what is still to be read from each of its sockets. -/
structure Network where
  world : World
  streams : ℕ → Arrivals UInt8

/-- What can happen. -/
inductive Event where
  /-- A client connects. -/
  | connect (fd : ℕ)
  /-- The auth receiver stores a token. -/
  | token (token id : CString) (now : ℕ)
  /-- A round of a session, which has read a packet from its socket. -/
  | round (s fd : ℕ) (packet : Packet)

/-- The event without the socket. -/
def Event.request : Event → Request
  | .connect fd => .connect fd
  | .token code id now => .token code id now
  | .round s _ packet => .packet s packet

variable (defs : MapDefs)

/-- The steps of the server.  A round waits, reads and handles what was read.  If that is null,
the loop uses it all the same, so there is no such step. -/
inductive NetworkStep : Network → Event → Network → Prop
  | connect {n : Network} {w' : World} {fd s : ℕ} :
      (∀ s session, n.world.sessions.get s = some session → session.fd ≠ fd) →
      sessionCreate fd n.world = .ok (s, w') → NetworkStep n (.connect fd) ⟨w', n.streams⟩
  | token {n : Network} {w' : World} {token id : CString} {now : ℕ} {inserted : Bool} :
      onTable (AwaitingTable.insert token id now) n.world = .ok (inserted, w') →
      NetworkStep n (.token token id now) ⟨w', n.streams⟩
  | round {n : Network} {w' : World} {s fuel : ℕ} {session : Session} {g : Garbage}
      {t t' : Arrivals UInt8} {packet : Packet} :
      n.world.sessions.get s = some session → (n.streams session.fd).wait = some t →
      packetRead g t = .ok (some packet, t') →
      eventLoop defs fuel s (some packet) n.world = .ok ((), w') →
      NetworkStep n (.round s session.fd packet) ⟨w', Function.update n.streams session.fd t'⟩

/-- The packets that were read from a socket. -/
def handled (fd : ℕ) (l : List (Event × Network)) : List Packet :=
  l.filterMap fun e =>
    match e.1 with
    | .round _ fd' packet => if fd' = fd then some packet else none
    | _ => none

/-- What the client on each socket will still send. -/
def Network.Carries (n : Network) (sent : ℕ → List ClientMessage) : Prop :=
  ∀ fd, (n.streams fd).InBlocks ClientMessage.bytes (sent fd) ∧ ∀ m ∈ sent fd, m.Readable

variable {defs} {n n' : Network} {sent : ℕ → List ClientMessage}

theorem ClientMessage.bytes_ne_nil (m : ClientMessage) : m.bytes ≠ [] := List.cons_ne_nil _ _

/-- **The next message** is read as its packet, once something is there. -/
theorem packetRead_of_blocks {s t : Arrivals UInt8} {messages : List ClientMessage}
    (h : s.InBlocks ClientMessage.bytes messages) (hreadable : ∀ m ∈ messages, m.Readable)
    (ht : s.wait = some t) :
    ∃ m rest, messages = m :: rest ∧ ∀ g, ∃ t', packetRead g t = .ok (some m.packet, t') ∧
      t'.InBlocks ClientMessage.bytes rest := by
  obtain ⟨m, rest, after, hsent, hready, hnext⟩ :=
    (h.arrive (Arrivals.later_wait ht)).next (Arrivals.ready_ne_nil_of_wait ht)
  obtain ⟨hroom, hshort⟩ := hreadable m (hsent ▸ List.mem_cons_self)
  refine ⟨m, rest, hsent, fun g => ?_⟩
  obtain ⟨frame, packet, t', -, hread, htaken, hlater⟩ :=
    packetRead_maskedFrame g m.1 hroom hshort hready
  exact ⟨t', packet_eq_of_takenFrom htaken ▸ hread, hnext t' hlater⟩

theorem Network.Carries.next {fd : ℕ} {t : Arrivals UInt8} (h : n.Carries sent)
    (ht : (n.streams fd).wait = some t) :
    ∃ m rest, sent fd = m :: rest ∧ ∀ g, ∃ t', packetRead g t = .ok (some m.packet, t') ∧
      t'.InBlocks ClientMessage.bytes rest :=
  packetRead_of_blocks (h fd).1 (h fd).2 ht

/-- A step without the streams. -/
theorem NetworkStep.step {e : Event} (h : NetworkStep defs n e n') :
    Step defs n.world e.request n'.world := by
  cases h with
  | connect hfd h => exact .connect hfd h
  | token h => exact .token h
  | round _ _ _ h => exact .packet h

/-- A message of the client is taken. -/
theorem Network.Carries.taken {fd : ℕ} {rest : List ClientMessage} {m : ClientMessage}
    {t' : Arrivals UInt8} {w' : World} (h : n.Carries sent) (hsent : sent fd = m :: rest)
    (ht' : t'.InBlocks ClientMessage.bytes rest) :
    Network.Carries ⟨w', Function.update n.streams fd t'⟩ (Function.update sent fd rest) := by
  intro fd'
  by_cases hfd : fd' = fd
  · subst hfd
    simp only [Function.update_self]
    exact ⟨ht', fun m' hm' => (h fd').2 m' (hsent ▸ List.mem_cons_of_mem m hm')⟩
  · simp only [Function.update_of_ne hfd]
    exact h fd'

/-- What a step handles is the next message of the client, and nobody else's. -/
theorem NetworkStep.carries {e : Event} (h : NetworkStep defs n e n') (hn : n.Carries sent) :
    ∃ sent', n'.Carries sent' ∧ ∀ fd, (sent fd).map ClientMessage.packet
      = handled fd [(e, n')] ++ (sent' fd).map ClientMessage.packet := by
  cases h with
  | connect _ _ => exact ⟨sent, hn, fun _ => rfl⟩
  | token _ => exact ⟨sent, hn, fun _ => rfl⟩
  | @round w' s fuel session g t t' packet hs ht hread _ =>
    obtain ⟨m, rest, hsent, hm⟩ := hn.next ht
    obtain ⟨t₁, hread', hrest⟩ := hm g
    obtain ⟨hpacket, rfl⟩ := Prod.mk.inj (Except.ok.inj (hread.symm.trans hread'))
    obtain rfl := Option.some.inj hpacket
    refine ⟨_, hn.taken hsent hrest, fun fd => ?_⟩
    by_cases hfd : session.fd = fd
    · subst hfd
      simp [handled, hsent]
    · simp [handled, hfd, Function.update_of_ne (Ne.symm hfd)]

/-- **A round goes through** whenever the server can handle the next message. -/
theorem round_of_blocks {w' : World} {s fuel : ℕ} {session : Session} {m : ClientMessage}
    {rest : List ClientMessage}
    (h : (n.streams session.fd).InBlocks ClientMessage.bytes (m :: rest))
    (hreadable : ∀ m' ∈ m :: rest, m'.Readable) (hs : n.world.sessions.get s = some session)
    (hstep : eventLoop defs fuel s (some m.packet) n.world = .ok ((), w')) (g : Garbage) :
    ∃ t t', (n.streams session.fd).wait = some t ∧ packetRead g t = .ok (some m.packet, t') ∧
      NetworkStep defs n (.round s session.fd m.packet)
        ⟨w', Function.update n.streams session.fd t'⟩ := by
  obtain ⟨t, ht⟩ := h.wait (List.cons_ne_nil m rest) ClientMessage.bytes_ne_nil
  obtain ⟨m', rest', heq, hread⟩ := packetRead_of_blocks h hreadable ht
  obtain ⟨rfl, -⟩ := List.cons.inj heq
  obtain ⟨t', hread', -⟩ := hread g
  exact ⟨t, t', ht, hread', .round hs ht hread' hstep⟩

theorem Network.Carries.proceeds {w' : World} {s fuel : ℕ} {session : Session} {packet : Packet}
    {later : List Packet} (hn : n.Carries sent) (hs : n.world.sessions.get s = some session)
    (hsent : (sent session.fd).map ClientMessage.packet = packet :: later)
    (hstep : eventLoop defs fuel s (some packet) n.world = .ok ((), w')) (g : Garbage) :
    ∃ t t', (n.streams session.fd).wait = some t ∧ packetRead g t = .ok (some packet, t') ∧
      NetworkStep defs n (.round s session.fd packet)
        ⟨w', Function.update n.streams session.fd t'⟩ := by
  obtain ⟨m, rest, hm, rfl, -⟩ := List.map_eq_cons_iff.mp hsent
  obtain ⟨hblocks, hreadable⟩ := hn session.fd
  rw [hm] at hblocks hreadable
  exact round_of_blocks hblocks hreadable hs hstep g

theorem handled_append (fd : ℕ) (l l' : List (Event × Network)) :
    handled fd (l ++ l') = handled fd l ++ handled fd l' := List.filterMap_append

/-- After a run, what was handled is what was sent so far. -/
theorem Network.Carries.run {l : List (Event × Network)} (hn : n.Carries sent)
    (h : Trace (NetworkStep defs) n l n') :
    ∃ rest, n'.Carries rest ∧ ∀ fd, (sent fd).map ClientMessage.packet
      = handled fd l ++ (rest fd).map ClientMessage.packet := by
  induction h with
  | nil => exact ⟨sent, hn, fun _ => rfl⟩
  | snoc _ hlast ih =>
    obtain ⟨rest, hrest, heq⟩ := ih
    obtain ⟨rest', hrest', heq'⟩ := hlast.carries hrest
    exact ⟨rest', hrest', fun fd => by rw [heq fd, heq' fd, handled_append, List.append_assoc]⟩

/-! ## A login and a move

The client has sent both messages in one segment. -/

/-- A login message with a code of one digit. -/
def loginMessage : ClientMessage := (Vector.replicate 4 7, [1, 7, 0, 0, 0, 1, 0, 0, 0, 49])

/-- A move to the cell (2, 1). -/
def eastMessage : ClientMessage :=
  (Vector.replicate 4 9, [5, 8, 0, 0, 0, 8, 0, 0, 0, 2, 0, 0, 0, 1, 0, 0, 0])

/-- The messages on every socket. -/
def bothMessages : ℕ → Arrivals UInt8 :=
  fun _ => Arrivals.ofList (loginMessage.bytes ++ eastMessage.bytes)

theorem readable_messages : ∀ m ∈ [loginMessage, eastMessage], m.Readable :=
  List.forall_mem_cons.mpr ⟨(by decide : 9 ≤ 10 ∧ 10 < 32768),
    List.forall_mem_singleton.mpr (by decide : 9 ≤ 17 ∧ 17 < 32768)⟩

theorem carries_bothMessages (w : World) :
    Network.Carries ⟨w, bothMessages⟩ fun _ => [loginMessage, eastMessage] :=
  fun _ => ⟨⟨[loginMessage, eastMessage], [], by simp [bothMessages, Arrivals.ofList], rfl, rfl⟩,
    readable_messages⟩

theorem eventLoop_messages : ∃ w₁ w₂,
    eventLoop mapLoaders 1 0 (some loginMessage.packet) afterToken = .ok ((), w₁) ∧
    eventLoop mapLoaders 1 0 (some eastMessage.packet) w₁ = .ok ((), w₂) ∧
    w₁.sessions.get 0 = some ⟨3, .roaming, some 0⟩ := by
  have hrun : Exec.value (do
      eventLoop mapLoaders 1 0 (some loginMessage.packet)
      let w₁ ← Exec.get
      eventLoop mapLoaders 1 0 (some eastMessage.packet)
      pure (decide (w₁.sessions.get 0 = some ⟨3, .roaming, some 0⟩))) afterToken = some true := by
    decide +kernel
  obtain ⟨_, hrun⟩ := Exec.value_eq_some.mp hrun
  simp only [Exec.bind_eq_ok, Exec.get_eq_ok, Exec.pure_eq_ok, decide_eq_true_iff] at hrun
  obtain ⟨_, w₁, hlogin, _, _, ⟨rfl, rfl⟩, _, w₂, hmove, hs, -⟩ := hrun
  exact ⟨w₁, w₂, hlogin, hmove, hs⟩

/-- The first message has been handled, and the second one can be. -/
theorem trace_bothMessages : ∃ l n w,
    Trace (NetworkStep mapLoaders) ⟨boot [firstRecord], bothMessages⟩ l n ∧
    handled 3 l = [loginMessage.packet] ∧ n.world.sessions.get 0 = some ⟨3, .roaming, some 0⟩ ∧
    eventLoop mapLoaders 1 0 (some eastMessage.packet) n.world = .ok ((), w) := by
  obtain ⟨w₁, w₂, hlogin, hmove, hs⟩ := eventLoop_messages
  obtain ⟨t, t', -, -, hround⟩ := (carries_bothMessages afterToken).proceeds
    (show afterToken.sessions.get 0 = some ⟨3, .disabled, none⟩ from rfl) rfl hlogin zeroGarbage
  have hconnect : NetworkStep mapLoaders ⟨boot [firstRecord], bothMessages⟩ (.connect 3)
      ⟨afterConnect, bothMessages⟩ :=
    .connect (fun _ _ h => absurd h.symm (Option.some_ne_none _)) (s := 0) rfl
  have htoken : NetworkStep mapLoaders ⟨afterConnect, bothMessages⟩ (.token [49] [97] 0)
      ⟨afterToken, bothMessages⟩ :=
    .token (show onTable _ _ = .ok (true, _) from rfl)
  exact ⟨_, _, w₂, ((Trace.nil.snoc hconnect).snoc htoken).snoc hround, rfl, hs, hmove⟩

/-! ## Refinement -/

/-- **The server with its connections refines the server.**  Take any run in which every client
sends its packets in masked frames that no segment cuts.  Without the streams it is a run of the
server, and what a session has handled is what its client has sent so far, in this order; the
rest is still to be read. -/
theorem network_refines {w : World} {streams : ℕ → Arrivals UInt8} {l : List (Event × Network)}
    (hsent : Network.Carries ⟨w, streams⟩ sent)
    (h : Trace (NetworkStep defs) ⟨w, streams⟩ l n) :
    Trace (Step defs) w (l.map (Prod.map Event.request Network.world)) n.world ∧
      ∃ rest, n.Carries rest ∧ ∀ fd, (sent fd).map ClientMessage.packet
        = handled fd l ++ (rest fd).map ClientMessage.packet :=
  ⟨h.map (I := fun _ => True) (fun _ _ _ _ _ => trivial) (fun _ _ _ _ hstep => hstep.step) trivial,
    hsent.run h⟩

/-- What the server has done with the two messages. -/
theorem network_refines_bothMessages : ∃ l n,
    Trace (NetworkStep mapLoaders) ⟨boot [firstRecord], bothMessages⟩ l n ∧
      handled 3 l = [loginMessage.packet, eastMessage.packet] ∧
      Trace (Step mapLoaders) (boot [firstRecord])
        (l.map (Prod.map Event.request Network.world)) n.world ∧
      ∃ rest, n.Carries rest ∧ ∀ fd, [loginMessage, eastMessage].map ClientMessage.packet
        = handled fd l ++ (rest fd).map ClientMessage.packet := by
  obtain ⟨l, n, w, hrun, hhandled, hs, hmove⟩ := trace_bothMessages
  obtain ⟨rest, hrest, heq⟩ := (carries_bothMessages _).run hrun
  have hnext : (rest 3).map ClientMessage.packet = [eastMessage.packet] := by
    have hthree := heq 3
    rw [hhandled] at hthree
    exact (List.cons.inj hthree).2.symm
  obtain ⟨t, t', -, -, hround⟩ := hrest.proceeds hs hnext hmove zeroGarbage
  have hrun' := hrun.snoc hround
  refine ⟨_, _, hrun', ?_, network_refines (carries_bothMessages _) hrun'⟩
  rw [handled_append, hhandled]
  rfl

/-- **Nobody is kept waiting.**  After such a run, if the client of a session has sent more and
the server can handle the next packet, then the server on its connections can do this round,
whatever was in the memory it reads into. -/
theorem network_proceeds {w w' : World} {streams : ℕ → Arrivals UInt8}
    {l : List (Event × Network)} {s fuel : ℕ} {session : Session} {packet : Packet}
    {later : List Packet} (hsent : Network.Carries ⟨w, streams⟩ sent)
    (h : Trace (NetworkStep defs) ⟨w, streams⟩ l n)
    (hs : n.world.sessions.get s = some session)
    (hmore : (sent session.fd).map ClientMessage.packet
      = handled session.fd l ++ packet :: later)
    (hstep : eventLoop defs fuel s (some packet) n.world = .ok ((), w')) (g : Garbage) :
    ∃ t t', (n.streams session.fd).wait = some t ∧ packetRead g t = .ok (some packet, t') ∧
      NetworkStep defs n (.round s session.fd packet)
        ⟨w', Function.update n.streams session.fd t'⟩ := by
  obtain ⟨rest, hrest, heq⟩ := hsent.run h
  have hnext : (rest session.fd).map ClientMessage.packet = packet :: later :=
    List.append_cancel_left ((heq session.fd).symm.trans hmore)
  exact hrest.proceeds hs hnext hstep g

/-- The round of the second message. -/
theorem network_proceeds_bothMessages : ∃ l n w' t t',
    Trace (NetworkStep mapLoaders) ⟨boot [firstRecord], bothMessages⟩ l n ∧
      handled 3 l = [loginMessage.packet] ∧ (n.streams 3).wait = some t ∧
      packetRead zeroGarbage t = .ok (some eastMessage.packet, t') ∧
      NetworkStep mapLoaders n (.round 0 3 eastMessage.packet)
        ⟨w', Function.update n.streams 3 t'⟩ := by
  obtain ⟨l, n, w, hrun, hhandled, hs, hmove⟩ := trace_bothMessages
  have hmore : [loginMessage, eastMessage].map ClientMessage.packet
      = handled 3 l ++ [eastMessage.packet] := by
    rw [hhandled]
    rfl
  obtain ⟨t, t', hround⟩ :=
    network_proceeds (carries_bothMessages _) hrun hs hmore hmove zeroGarbage
  exact ⟨l, n, w, t, t', hrun, hhandled, hround⟩

end World
end MmoBackend
