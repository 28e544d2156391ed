import MmoBackend.Authentication.AuthReciever
import MmoBackend.World.LoginAgreement
import MmoBackend.World.Network

/-!
# The whole backend

The auth server writes tokens and accounts to one connection, and every client writes packets
to its own.  A thread reads each of these streams, takes messages off as their bytes come, and
changes the state that all threads share.  `Backend` is this state with all the streams.

`authenticated` is what a player is promised: whoever plays an account has sent a token that
the auth server had issued for this account, and nobody plays by the token of somebody else.
It speaks of what was written to the connections and of who is logged in, and of nothing in
between: neither of segments and timing nor of packets, tables and threads.

The auth receiver knows where an account ends from its length alone, so this is about accounts
of the full length and messages that no segment cuts.
-/

namespace MmoBackend

open Arrivals Authentication Bytes Communication Db Maps Networking

/-! ## Messages of the auth server -/

namespace Authentication

/-- The account fills its buffer and is a string. -/
def AuthMessage.Whole (m : AuthMessage) : Prop := m.id.length = idSize ∧ 0 ∉ m.id

/-- **The next message** of the auth server is stored as it was sent. -/
theorem receiveOne_of_blocks {s t : Arrivals UInt8} {messages : List AuthMessage}
    {pair : CString × CString} (h : s.InBlocks AuthMessage.bytes messages)
    (hwhole : ∀ m ∈ messages, m.Whole) (hreceive : receiveOne s = some (pair, t)) :
    ∃ m rest, messages = m :: rest ∧ pair = m.pair ∧ t.InBlocks AuthMessage.bytes rest := by
  obtain ⟨s₁, s₂, hwait, hwait', rfl, rfl⟩ := receiveOne_eq_some hreceive
  obtain ⟨m, rest, after, rfl, hready, hnext⟩ :=
    (h.arrive (later_wait hwait)).next (ready_ne_nil_of_wait hwait)
  obtain ⟨hid, hzero⟩ := hwhole m List.mem_cons_self
  rw [AuthMessage.bytes, List.append_assoc] at hready
  have hne : m.id ≠ [] := m.id_ne_nil
  obtain ⟨u, more, hread, hlater, hu⟩ := readLoop_front hready
  rw [m.length_token] at hread
  rw [List.append_assoc] at hu
  obtain ⟨u', more', hwait'', hlater', hu'⟩ := wait_front hu hne
  obtain ⟨v, _, hread', hlater'', -⟩ := readLoop_front hu'
  rw [hid] at hread'
  rw [hread] at hwait' ⊢
  obtain rfl := Option.some.inj (hwait''.symm.trans hwait')
  rw [hread']
  have hall : Later s₁ m.bytes v := by
    have hboth := (hlater.trans hlater').trans hlater''
    rwa [List.append_nil] at hboth
  refine ⟨m, rest, rfl, ?_, hnext v hall⟩
  rw [bufferString_of_notMem hzero,
    bufferString_of_notMem fun hmem => m.ne_zero_of_mem_token hmem rfl]
  rfl

end Authentication

namespace World

/-! ## The streams of the backend -/

/-- The state with all the connections. -/
structure Backend where
  network : Network
  /-- What is still to be read from the auth server. -/
  auth : Arrivals UInt8

variable (defs : MapDefs)

/-- The steps of the backend.  A token is what the auth receiver has read. -/
inductive BackendStep : Backend → Event → Backend → Prop
  | token {b : Backend} {n : Network} {code id : CString} {now : ℕ} {auth : Arrivals UInt8} :
      receiveOne b.auth = some ((code, id), auth) →
      NetworkStep defs b.network (.token code id now) n →
      BackendStep b (.token code id now) ⟨n, auth⟩
  | other {b : Backend} {n : Network} {e : Event} :
      (∀ code id now, e ≠ .token code id now) → NetworkStep defs b.network e n →
      BackendStep b e ⟨n, b.auth⟩

variable {defs} {b b' : Backend} {n n' : Network} {e : Event} {messages : List AuthMessage}
  {sent : ℕ → List ClientMessage} {s q fd : ℕ} {packet : Packet}

theorem BackendStep.network (h : BackendStep defs b e b') :
    NetworkStep defs b.network e b'.network := by
  cases h with
  | token _ h => exact h
  | other _ h => exact h

/-- The requests of a run of the server on its connections. -/
def requests (l : List (Event × Network)) : List (Request × World) :=
  l.map (Prod.map Event.request Network.world)

/-- The run without the stream of the auth server. -/
def onNetwork (l : List (Event × Backend)) : List (Event × Network) :=
  l.map (Prod.map id Backend.network)

theorem onNetwork_run {l : List (Event × Backend)} (h : Trace (BackendStep defs) b l b') :
    Trace (NetworkStep defs) b.network (onNetwork l) b'.network :=
  h.map (I := fun _ => True) (fun _ _ _ _ _ => trivial) (fun _ _ _ _ hstep => hstep.network) trivial

theorem requests_run {l : List (Event × Network)} (h : Trace (NetworkStep defs) n l n') :
    Trace (Step defs) n.world (requests l) n'.world :=
  h.map (I := fun _ => True) (fun _ _ _ _ _ => trivial) (fun _ _ _ _ hstep => hstep.step) trivial

/-! ## The tokens -/

/-- **The tokens of a run** are the messages that the auth server has sent so far. -/
theorem tokens_of_messages {l : List (Event × Backend)}
    (hauth : b.auth.InBlocks AuthMessage.bytes messages) (hwhole : ∀ m ∈ messages, m.Whole)
    (h : Trace (BackendStep defs) b l b') :
    ∃ stored rest, messages = stored ++ rest ∧ b'.auth.InBlocks AuthMessage.bytes rest ∧
      tokens (requests (onNetwork l)) = stored.map AuthMessage.pair := by
  induction h with
  | nil => exact ⟨[], messages, rfl, hauth, rfl⟩
  | @snoc l t u e hrun hlast ih =>
    obtain ⟨stored, rest, rfl, hrest, heq⟩ := ih
    have hsplit : tokens (requests (onNetwork (l ++ [(e, u)])))
        = stored.map AuthMessage.pair ++ tokens [(e.request, u.network.world)] := by
      rw [← heq, ← tokens_append]
      simp only [onNetwork, requests, List.map_append]
      rfl
    rw [hsplit]
    cases hlast with
    | @token _ code id now auth hreceive _ =>
      obtain ⟨m, rest, rfl, hpair, hauth'⟩ := receiveOne_of_blocks hrest
        (fun m hm => hwhole m (List.mem_append_right _ hm)) hreceive
      refine ⟨stored ++ [m], rest, by simp, hauth', ?_⟩
      rw [List.map_append, List.map_singleton, ← hpair]
      rfl
    | other hother _ =>
      refine ⟨stored, rest, rfl, hrest, ?_⟩
      rw [tokens_eq_nil fun tok id now ha => ?_, List.append_nil]
      cases e with
      | token code id now => exact hother code id now rfl
      | _ => cases ha

/-! ## The login packets -/

/-- Whoever has handled a packet still has the socket it came from. -/
theorem fd_of_round {l : List (Event × Network)} (hmember : Member defs n.world)
    (h : Trace (NetworkStep defs) n l n') : Member defs n'.world ∧
      ∀ m, (.round s fd packet, m) ∈ l →
        ∃ session, n'.world.sessions.get s = some session ∧ session.fd = fd := by
  induction h with
  | nil => exact ⟨hmember, fun _ hm => absurd hm List.not_mem_nil⟩
  | @snoc l t u e _ hlast ih =>
    obtain ⟨hmid, hold⟩ := ih
    refine ⟨(hmid.step hlast.step).1, fun m hm => ?_⟩
    have hhere : ∃ session, t.world.sessions.get s = some session ∧ session.fd = fd := by
      rcases List.mem_append.mp hm with hm | hm
      · exact hold m hm
      · obtain ⟨rfl, -⟩ := Prod.mk.inj (List.mem_singleton.mp hm)
        cases hlast with
        | round hs => exact ⟨_, hs, rfl⟩
    obtain ⟨session, hs, hfd⟩ := hhere
    obtain ⟨session', hs', hfd'⟩ := hmid.fd_kept hlast.step hs
    exact ⟨session', hs', hfd'.trans hfd⟩

/-- **What a session has sent** came from its client. -/
theorem message_of_packet {l : List (Event × Network)} {m : World} {session : Session}
    (hmember : Member defs n.world) (hsent : n.Carries sent)
    (h : Trace (NetworkStep defs) n l n') (hs : n'.world.sessions.get s = some session)
    (hpacket : (.packet s packet, m) ∈ requests l) :
    ∃ msg ∈ sent session.fd, msg.packet = packet := by
  obtain ⟨⟨e, u⟩, hmem, heq⟩ := List.mem_map.mp hpacket
  obtain ⟨fd, rfl⟩ : ∃ fd, e = .round s fd packet := by
    cases e with
    | round s' fd packet' =>
      obtain ⟨rfl, rfl⟩ := Request.packet.inj (Prod.mk.inj heq).1
      exact ⟨fd, rfl⟩
    | _ => cases heq
  obtain ⟨session', hs', rfl⟩ := (fd_of_round hmember h).2 u hmem
  obtain rfl := Option.some.inj (hs.symm.trans hs')
  obtain ⟨rest, -, hhandled⟩ := hsent.run h
  have hin : packet ∈ handled session.fd l :=
    List.mem_filterMap.mpr ⟨_, hmem, if_pos rfl⟩
  have hmap : packet ∈ (sent session.fd).map ClientMessage.packet := by
    rw [hhandled]
    exact List.mem_append_left _ hin
  exact List.mem_map.mp hmap

/-! ## The promise -/

/-- **Authentication**, from the bytes to the players.  Take any run of the backend, in which
the auth server and the clients send whole messages.  Then the sessions that roam can be told
apart by messages of the auth server: each plays the account of its message, and its client
has sent a login packet with the token of this message. -/
theorem authenticated {playerdata : List Document} {streams : ℕ → Arrivals UInt8}
    {auth : Arrivals UInt8} {l : List (Event × Backend)}
    (hauth : auth.InBlocks AuthMessage.bytes messages) (hwhole : ∀ m ∈ messages, m.Whole)
    (hsent : Network.Carries ⟨boot playerdata, streams⟩ sent)
    (h : Trace (BackendStep defs) ⟨⟨boot playerdata, streams⟩, auth⟩ l b) :
    ∃ f : ℕ → ℕ, (∀ s q id session, b.network.world.scene.Holds s q id →
        b.network.world.sessions.get s = some session →
        ∃ m msg, messages[f s]? = some m ∧ m.id = id ∧ msg ∈ sent session.fd ∧
          msg.packet.opcode = loginPacket ∧ cString msg.packet.data = some m.token) ∧
      ∀ s s' q q', b.network.world.scene.RoamsWith s q →
        b.network.world.scene.RoamsWith s' q' → f s = f s' → s = s' := by
  have hnetwork := onNetwork_run h
  have hworld := requests_run hnetwork
  obtain ⟨stored, rest, rfl, -, htokens⟩ := tokens_of_messages hauth hwhole h
  obtain ⟨f, hf⟩ := issued_run hworld
  refine ⟨f, fun s q id session hholds hs => ?_,
    fun s s' q q' hroams hroams' => hf.eq_of_roams (member_run hworld) hroams hroams'⟩
  obtain ⟨⟨code, hget, packet, v, hmem, hop, hcode⟩, -⟩ := hf.used s q id hholds
  rw [htokens, List.getElem?_map, Option.map_eq_some_iff] at hget
  obtain ⟨m, hm, hpair⟩ := hget
  obtain ⟨rfl, rfl⟩ := Prod.mk.inj hpair
  obtain ⟨msg, hmsg, rfl⟩ :=
    message_of_packet (member_boot playerdata) hsent hnetwork hs hmem
  refine ⟨m, msg, ?_, rfl, hmsg, hop, hcode⟩
  rw [List.getElem?_append_left (List.getElem?_eq_some_iff.mp hm).1, hm]

/-! ## Two logins with an account of full length -/

/-- A message of the auth server. -/
def wholeMessage : AuthMessage where
  token := List.replicate tokenSize 98
  id := List.replicate idSize 49
  length_token := List.length_replicate
  token_chars b hb := by
    rw [List.eq_of_mem_replicate hb]
    decide
  id_ne_nil := List.cons_ne_nil _ _
  length_id := Nat.le_refl _

/-- Another token for the same account. -/
def otherMessage : AuthMessage where
  token := List.replicate tokenSize 99
  id := List.replicate idSize 49
  length_token := List.length_replicate
  token_chars b hb := by
    rw [List.eq_of_mem_replicate hb]
    decide
  id_ne_nil := List.cons_ne_nil _ _
  length_id := Nat.le_refl _

/-- The record of the account. -/
def wholeRecord : Document where
  fields := [("id", .utf8 wholeMessage.id), ("map", .int32 0), ("x", .int32 1), ("y", .int32 1),
    ("max_move", .int32 1)]
  nodup := by decide

/-- A login packet with the token of a message. -/
def loginWith (m : AuthMessage) : ClientMessage :=
  (Vector.replicate 4 7, [1, 7, 0, 0, 0, 0, 1, 0, 0] ++ m.token)

/-- What the clients send: the one on the socket 3 the first token, the others the second one. -/
def wholeLogins (fd : ℕ) : List ClientMessage :=
  if fd = 3 then [loginWith wholeMessage] else [loginWith otherMessage]

/-- The sockets. -/
def wholeStreams (fd : ℕ) : Arrivals UInt8 :=
  Arrivals.ofList ((wholeLogins fd).map ClientMessage.bytes).flatten

/-- The connection of the auth server. -/
def wholeAuth : Arrivals UInt8 := Arrivals.ofList (wholeMessage.bytes ++ otherMessage.bytes)

theorem whole_messages : ∀ m ∈ [wholeMessage, otherMessage], m.Whole := by
  refine List.forall_mem_cons.mpr ⟨?_, List.forall_mem_singleton.mpr ?_⟩ <;>
    exact ⟨List.length_replicate, fun h => absurd (List.eq_of_mem_replicate h) (by decide)⟩

theorem inBlocks_wholeAuth :
    wholeAuth.InBlocks AuthMessage.bytes [wholeMessage, otherMessage] :=
  ⟨[wholeMessage, otherMessage], [], by simp [wholeAuth, Arrivals.ofList], rfl, rfl⟩

theorem readable_loginWith (m : AuthMessage) : (loginWith m).Readable := by
  have hlen : (loginWith m).2.length = 264 := by
    rw [loginWith, List.length_append, m.length_token]
    rfl
  rw [ClientMessage.Readable, hlen]
  decide

theorem carries_wholeLogins (w : World) : Network.Carries ⟨w, wholeStreams⟩ wholeLogins := by
  refine fun fd => ⟨⟨wholeLogins fd, [], by simp [wholeStreams, Arrivals.ofList], rfl, by simp⟩,
    fun m hm => ?_⟩
  rw [wholeLogins] at hm
  split at hm <;> rw [List.mem_singleton.mp hm] <;> exact readable_loginWith _

/-- The two tokens arrive one after the other. -/
theorem receive_wholeAuth : ∃ auth₁ auth₂,
    receiveOne wholeAuth = some (wholeMessage.pair, auth₁) ∧
    receiveOne auth₁ = some (otherMessage.pair, auth₂) := by
  have hnext : ∀ {s : Arrivals UInt8} {m : AuthMessage} {rest : List AuthMessage},
      s.InBlocks AuthMessage.bytes (m :: rest) → (∀ m' ∈ m :: rest, m'.Whole) →
      ∃ t, receiveOne s = some (m.pair, t) ∧ t.InBlocks AuthMessage.bytes rest := by
    intro s m rest hblocks hwhole
    have hlong : tokenSize < s.all.length := by
      rw [hblocks.all_eq, List.map_cons, List.flatten_cons, List.length_append, m.length_bytes]
      have hid := List.length_pos_iff.mpr m.id_ne_nil
      omega
    obtain ⟨⟨pair, t⟩, hreceive⟩ := Option.ne_none_iff_exists'.mp (receiveOne_ne_none hlong)
    obtain ⟨m', rest', heq, rfl, hrest⟩ := receiveOne_of_blocks hblocks hwhole hreceive
    obtain ⟨rfl, rfl⟩ := List.cons.inj heq
    exact ⟨t, hreceive, hrest⟩
  obtain ⟨auth₁, hfirst, hblocks⟩ := hnext inBlocks_wholeAuth whole_messages
  obtain ⟨auth₂, hsecond, -⟩ :=
    hnext hblocks fun m hm => whole_messages m (List.mem_cons_of_mem _ hm)
  exact ⟨auth₁, auth₂, hfirst, hsecond⟩

/-- The auth server issues two tokens, and two clients log in with them. -/
theorem run_wholeLogins : ∃ l b, Trace (BackendStep mapLoaders)
    ⟨⟨boot [wholeRecord], wholeStreams⟩, wholeAuth⟩ l b ∧
    b.network.world.sessions.get 0 = some ⟨3, .roaming, some 0⟩ ∧
    b.network.world.sessions.get 1 = some ⟨4, .roaming, some 1⟩ := by
  have hrun : Exec.value (do
      let _ ← sessionCreate 3
      let _ ← sessionCreate 4
      let _ ← onTable (AwaitingTable.insert wholeMessage.token wholeMessage.id 0)
      let _ ← onTable (AwaitingTable.insert otherMessage.token otherMessage.id 0)
      let v ← Exec.get
      eventLoop mapLoaders 1 0 (some (loginWith wholeMessage).packet)
      let u ← Exec.get
      eventLoop mapLoaders 1 1 (some (loginWith otherMessage).packet)
      let u' ← Exec.get
      pure (decide (v.sessions.get 0 = some ⟨3, .disabled, none⟩ ∧
        u.sessions.get 1 = some ⟨4, .disabled, none⟩ ∧
        u'.sessions.get 0 = some ⟨3, .roaming, some 0⟩ ∧
        u'.sessions.get 1 = some ⟨4, .roaming, some 1⟩))) (boot [wholeRecord]) = some true := by
    decide +kernel
  obtain ⟨_, hrun⟩ := Exec.value_eq_some.mp hrun
  simp only [Exec.bind_eq_ok, Exec.get_eq_ok, Exec.pure_eq_ok, decide_eq_true_iff] at hrun
  obtain ⟨_, w, hcreate, _, w', hcreate', _, v₁, hinsert, _, v, hinsert', _, _, ⟨rfl, rfl⟩, _, u,
    hlogin, _, _, ⟨rfl, rfl⟩, _, u', hlogin', _, _, ⟨rfl, rfl⟩, ⟨hs, hs', hs₀, hs₁⟩, -⟩ := hrun
  obtain ⟨auth₁, auth₂, hfirst, hsecond⟩ := receive_wholeAuth
  have hconnect : NetworkStep mapLoaders ⟨boot [wholeRecord], wholeStreams⟩ (.connect 3)
      ⟨w, wholeStreams⟩ :=
    .connect (fun _ _ h => absurd h.symm (Option.some_ne_none _)) hcreate
  have hconnect' : NetworkStep mapLoaders ⟨w, wholeStreams⟩ (.connect 4) ⟨w', wholeStreams⟩ := by
    refine .connect (fun _ _ h => ?_) hcreate'
    obtain rfl := sessionCreate_eq_ok hcreate
    rcases Heap.get_alloc_eq_some h with ⟨-, rfl⟩ | ⟨-, h⟩
    · decide
    · exact absurd h.symm (Option.some_ne_none _)
  have hcarries := carries_wholeLogins v
  obtain ⟨t, t', -, -, hround⟩ := hcarries.proceeds hs rfl hlogin zeroGarbage
  obtain ⟨sent', hcarries', heq⟩ := hround.carries hcarries
  obtain ⟨s, s', -, -, hround'⟩ := hcarries'.proceeds hs' (heq 4).symm hlogin' zeroGarbage
  have hother : ∀ {e : Event} {n n' : Network} {auth : Arrivals UInt8},
      (∀ code id now, e ≠ .token code id now) → NetworkStep mapLoaders n e n' →
      BackendStep mapLoaders ⟨n, auth⟩ e ⟨n', auth⟩ := fun he h => .other he h
  exact ⟨_, _, (((((Trace.nil.snoc (hother (fun _ _ _ => Event.noConfusion) hconnect)).snoc
    (hother (fun _ _ _ => Event.noConfusion) hconnect')).snoc
    (.token hfirst (.token hinsert))).snoc (.token hsecond (.token hinsert'))).snoc
    (hother (fun _ _ _ => Event.noConfusion) hround)).snoc
    (hother (fun _ _ _ => Event.noConfusion) hround'), hs₀, hs₁⟩

/-- The sessions play the account of the two messages, each by its own. -/
theorem authenticated_wholeLogins : ∃ (l : List (Event × Backend)) (b : Backend) (f : ℕ → ℕ),
    Trace (BackendStep mapLoaders) ⟨⟨boot [wholeRecord], wholeStreams⟩, wholeAuth⟩ l b ∧
    b.network.world.scene.RoamsWith 0 0 ∧ b.network.world.scene.RoamsWith 1 1 ∧
    (∀ s q id session, b.network.world.scene.Holds s q id →
        b.network.world.sessions.get s = some session →
        ∃ m msg, [wholeMessage, otherMessage][f s]? = some m ∧ m.id = id ∧
          msg ∈ wholeLogins session.fd ∧ msg.packet.opcode = loginPacket ∧
          cString msg.packet.data = some m.token) ∧
    f 0 ≠ f 1 := by
  obtain ⟨l, b, hrun, hs, hs'⟩ := run_wholeLogins
  obtain ⟨f, hf, hinj⟩ :=
    authenticated inBlocks_wholeAuth whole_messages (carries_wholeLogins _) hrun
  have hroams : b.network.world.scene.RoamsWith 0 0 := ⟨_, hs, rfl, rfl⟩
  have hroams' : b.network.world.scene.RoamsWith 1 1 := ⟨_, hs', rfl, rfl⟩
  exact ⟨l, b, f, hrun, hroams, hroams', hf,
    fun heq => absurd (hinj 0 1 0 1 hroams hroams' heq) (by decide)⟩

end World

end MmoBackend
