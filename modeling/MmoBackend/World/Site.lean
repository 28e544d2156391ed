import MmoBackend.Networking.UpgradeRequest
import MmoBackend.World.Network
import MmoBackend.World.Sockets

/-!
# The server and its clients

`NetworkStep` starts where a socket already carries packets.  Before that a client has sent a
request over HTTP, and a thread has read it and answered.  `SiteStep` is the server with this
part, and with clients that send whenever they like: a client asks for a WebSocket, waits for the
answer, and then sends packets, any number of them in a segment.

One thread reads a connection with two readers.  The first one takes lines and keeps what it has
read ahead, the second one takes frames off the socket.  `site_refines` says that nothing falls
between them, for clients that wait: on every socket the packets that were handled are the ones
that were sent, from the first one on.
-/

namespace MmoBackend

open Arrivals Authentication Communication Maps Networking

namespace World

/-- What a client has done. -/
inductive ClientPhase where
  | silent
  /-- It has sent a request. -/
  | asked (q : UpgradeRequest)
  /-- It has got an answer. -/
  | upgraded

/-- The server, its sockets and its clients. -/
structure Site where
  network : Network
  clients : ℕ → ClientPhase

/-- What can happen. -/
inductive SiteEvent where
  /-- A client sends its request, in one piece. -/
  | ask (fd : ℕ) (q : UpgradeRequest)
  /-- The thread of a connection has read the request, answers and enters the event loop. -/
  | upgrade (fd : ℕ) (answer : List UInt8)
  /-- A client sends a segment. -/
  | send (fd : ℕ) (messages : List ClientMessage)
  /-- A token is stored, or a session does a round. -/
  | server (e : Event)

/-- What the server sees of an event. -/
def SiteEvent.request : SiteEvent → Option Request
  | .upgrade fd _ => some (.connect fd)
  | .server e => some e.request
  | _ => none

/-- The state after a client has sent something. -/
def Site.receive (st : Site) (fd : ℕ) (segment : List UInt8) (phase : ClientPhase) : Site :=
  ⟨⟨st.network.world, Function.update st.network.streams fd
    ((st.network.streams fd).send segment)⟩, Function.update st.clients fd phase⟩

/-- The steps of the server and of its clients. -/
inductive SiteStep (lib : Digests) (defs : MapDefs) :
    Site → SiteEvent → Site → Prop
  | ask {st : Site} {fd : ℕ} {q : UpgradeRequest} :
      st.clients fd = .silent → SiteStep lib defs st (.ask fd q) (st.receive fd q.bytes (.asked q))
  | upgrade {st : Site} {fd s : ℕ} {c : ClientState} {w' : World} :
      (∀ s session, st.network.world.sessions.get s = some session → session.fd ≠ fd) →
      Upgrades lib (st.network.streams fd) c →
      sessionCreate fd st.network.world = .ok (s, w') →
      SiteStep lib defs st (.upgrade fd c.written.flatten)
        ⟨⟨w', Function.update st.network.streams fd c.http.reader.fd⟩,
          Function.update st.clients fd .upgraded⟩
  | send {st : Site} {fd : ℕ} {messages : List ClientMessage} :
      st.clients fd = .upgraded → (∀ m ∈ messages, m.Readable) →
      SiteStep lib defs st (.send fd messages)
        (st.receive fd (messages.map ClientMessage.bytes).flatten .upgraded)
  | server {st : Site} {e : Event} {n : Network} :
      (∀ fd, e ≠ .connect fd) → NetworkStep defs st.network e n →
      SiteStep lib defs st (.server e) ⟨n, st.clients⟩

/-- The messages a client has sent. -/
def sentOn (fd : ℕ) (l : List (SiteEvent × Site)) : List ClientMessage :=
  l.flatMap fun e =>
    match e.1 with
    | .send fd' messages => if fd' = fd then messages else []
    | _ => []

/-- The packets that were read from a socket. -/
def handledOn (fd : ℕ) (l : List (SiteEvent × Site)) : List Packet :=
  l.filterMap fun e =>
    match e.1 with
    | .server (.round _ fd' packet) => if fd' = fd then some packet else none
    | _ => none

/-- The run as the server sees it. -/
def requestsOf (l : List (SiteEvent × Site)) : List (Request × World) :=
  l.filterMap fun e => e.1.request.map fun a => (a, e.2.network.world)

variable {lib : Digests} {defs : MapDefs} {st st' : Site}
  {e : SiteEvent} {l : List (SiteEvent × Site)} {fd : ℕ} {unread : ℕ → List ClientMessage}

theorem sentOn_append (fd : ℕ) (l l' : List (SiteEvent × Site)) :
    sentOn fd (l ++ l') = sentOn fd l ++ sentOn fd l' := List.flatMap_append

theorem handledOn_append (fd : ℕ) (l l' : List (SiteEvent × Site)) :
    handledOn fd (l ++ l') = handledOn fd l ++ handledOn fd l' := List.filterMap_append

/-! ## What is on the sockets -/

/-- What is still to be read from a socket, by what its client has done. -/
def ClientPhase.Sent : ClientPhase → Arrivals UInt8 → List ClientMessage → Prop
  | .silent, s, messages => s.all = [] ∧ messages = []
  | .asked q, s, messages => s.InBlocks UpgradeRequest.bytes [q] ∧ messages = []
  | .upgraded, s, messages =>
    s.InBlocks ClientMessage.bytes messages ∧ ∀ m ∈ messages, m.Readable

/-- What every run of the site keeps. -/
structure Site.Serves (defs : MapDefs) (st : Site) (unread : ℕ → List ClientMessage) : Prop where
  sent : ∀ fd, (st.clients fd).Sent (st.network.streams fd) (unread fd)
  /-- The clients that have got an answer are those with a session. -/
  sessions : ∀ fd, st.clients fd = .upgraded ↔
    ∃ s session, st.network.world.sessions.get s = some session ∧ session.fd = fd
  member : Member defs st.network.world

/-- One socket and its client have changed. -/
theorem sent_update {clients : ℕ → ClientPhase} {streams : ℕ → Arrivals UInt8}
    {phase : ClientPhase} {s : Arrivals UInt8} {messages : List ClientMessage}
    (h : ∀ fd, (clients fd).Sent (streams fd) (unread fd)) (hsent : phase.Sent s messages)
    (fd' : ℕ) : (Function.update clients fd phase fd').Sent (Function.update streams fd s fd')
      (Function.update unread fd messages fd') := by
  by_cases hfd : fd' = fd
  · subst hfd
    simpa only [Function.update_self] using hsent
  · simpa only [Function.update_of_ne hfd] using h fd'

theorem upgraded_update {clients : ℕ → ClientPhase} {phase : ClientPhase} {fd' : ℕ}
    (h : phase = .upgraded ↔ clients fd = .upgraded) :
    Function.update clients fd phase fd' = .upgraded ↔ clients fd' = .upgraded := by
  by_cases hfd : fd' = fd
  · subst hfd
    rw [Function.update_self, h]
  · rw [Function.update_of_ne hfd]

namespace Site.Serves

/-- A client sends something. -/
theorem receive {segment : List UInt8} {phase : ClientPhase} {messages : List ClientMessage}
    (h : st.Serves defs unread)
    (hsent : phase.Sent ((st.network.streams fd).send segment) messages)
    (hphase : phase = .upgraded ↔ st.clients fd = .upgraded) :
    (st.receive fd segment phase).Serves defs (Function.update unread fd messages) :=
  ⟨sent_update h.sent hsent, fun fd' => (upgraded_update hphase).trans (h.sessions fd'), h.member⟩

/-- **A request is sent.** -/
theorem ask {q : UpgradeRequest} (h : st.Serves defs unread) (hclient : st.clients fd = .silent) :
    (st.receive fd q.bytes (.asked q)).Serves defs unread := by
  have hfd := h.sent fd
  rw [hclient] at hfd
  obtain ⟨hall, hnone⟩ := hfd
  have hempty : (st.network.streams fd).InBlocks UpgradeRequest.bytes [] := inBlocks_nil hall
  have hblocks := hempty.send [q]
  rw [List.map_singleton, List.flatten_singleton, List.nil_append] at hblocks
  have hsent : ClientPhase.Sent (.asked q) ((st.network.streams fd).send q.bytes) (unread fd) :=
    ⟨hblocks, hnone⟩
  have hphase : ClientPhase.asked q = .upgraded ↔ st.clients fd = .upgraded := by
    rw [hclient]
    simp
  have hreceive := h.receive hsent hphase
  rwa [Function.update_eq_self] at hreceive

/-- **Messages are sent.** -/
theorem send {messages : List ClientMessage} (h : st.Serves defs unread)
    (hclient : st.clients fd = .upgraded) (hreadable : ∀ m ∈ messages, m.Readable) :
    (st.receive fd (messages.map ClientMessage.bytes).flatten .upgraded).Serves defs
      (Function.update unread fd (unread fd ++ messages)) := by
  have hfd := h.sent fd
  rw [hclient] at hfd
  obtain ⟨hblocks, hold⟩ := hfd
  have hsent : ClientPhase.Sent .upgraded ((st.network.streams fd).send
      (messages.map ClientMessage.bytes).flatten) (unread fd ++ messages) :=
    ⟨hblocks.send messages, fun m hm => (List.mem_append.mp hm).elim (hold m) (hreadable m)⟩
  exact h.receive hsent (iff_of_true rfl hclient)

/-- **A connection enters the event loop.**  Its client has sent a request, and got the answer to
it. -/
theorem upgrade {s : ℕ} {c : ClientState} {w' : World} (h : st.Serves defs unread)
    (hnew : ∀ s session, st.network.world.sessions.get s = some session → session.fd ≠ fd)
    (hc : Upgrades lib (st.network.streams fd) c)
    (hcreate : sessionCreate fd st.network.world = .ok (s, w')) :
    (∃ q, st.clients fd = .asked q ∧ c.written = handshake lib q.key) ∧
      Site.Serves defs ⟨⟨w', Function.update st.network.streams fd c.http.reader.fd⟩,
        Function.update st.clients fd .upgraded⟩ unread := by
  have hfd := h.sent fd
  cases hclient : st.clients fd with
  | silent =>
    rw [hclient] at hfd
    exact absurd hfd.1 hc.all_ne_nil
  | upgraded =>
    obtain ⟨s', session, hs', hfd'⟩ := (h.sessions fd).mp hclient
    exact absurd hfd' (hnew s' session hs')
  | asked q =>
    rw [hclient] at hfd
    obtain ⟨hwritten, hread⟩ := hc.answered hfd.1
    refine ⟨⟨q, rfl, hwritten⟩, fun fd' => ?_, fun fd' => ?_, ?_⟩
    · have hempty : ClientPhase.Sent .upgraded c.http.reader.fd (unread fd) := by
        rw [hfd.2]
        exact ⟨inBlocks_nil hread, fun m hm => absurd hm List.not_mem_nil⟩
      have hupdate : ClientPhase.Sent _ _ (Function.update unread fd (unread fd) fd') :=
        sent_update h.sent hempty fd'
      rwa [Function.update_eq_self] at hupdate
    · obtain rfl := sessionCreate_eq_ok hcreate
      show Function.update st.clients fd .upgraded fd' = .upgraded ↔
        ∃ s session, (st.network.world.sessions.alloc ⟨fd, .disabled, none⟩).get s = some session ∧
          session.fd = fd'
      by_cases hfd' : fd' = fd
      · subst hfd'
        rw [Function.update_self]
        exact iff_of_true rfl ⟨_, _, Heap.get_alloc_next _ _, rfl⟩
      · rw [Function.update_of_ne hfd', h.sessions fd']
        constructor
        · rintro ⟨s, session, hs, hsfd⟩
          exact ⟨s, session, Heap.get_alloc_of_get _ hs, hsfd⟩
        · rintro ⟨s, session, hs, hsfd⟩
          rcases Heap.get_alloc_eq_some hs with ⟨-, rfl⟩ | ⟨-, hs⟩
          · exact absurd hsfd.symm hfd'
          · exact ⟨s, session, hs, hsfd⟩
    · exact (h.member.step (.connect hnew hcreate)).1

/-- **The server goes on**: a token is stored, or the next message of a client is handled. -/
theorem server {e : Event} {n : Network} (h : st.Serves defs unread)
    (he : ∀ fd, e ≠ .connect fd) (hstep : NetworkStep defs st.network e n) :
    ∃ unread', Site.Serves defs ⟨n, st.clients⟩ unread' ∧ ∀ fd,
      (unread fd).map ClientMessage.packet
        = handledOn fd [(.server e, ⟨n, st.clients⟩)] ++ (unread' fd).map ClientMessage.packet := by
  have hworld := hstep.step
  have hrequest : ∀ fd, e.request ≠ .connect fd := by
    intro fd heq
    cases e with
    | connect fd' => exact he fd' rfl
    | _ => cases heq
  have hsessions : ∀ fd, st.clients fd = .upgraded ↔
      ∃ s session, n.world.sessions.get s = some session ∧ session.fd = fd := by
    intro fd
    rw [h.sessions fd]
    constructor
    · rintro ⟨s, session, hs, hfd⟩
      obtain ⟨session', hs', hfd'⟩ := h.member.fd_kept hworld hs
      exact ⟨s, session', hs', hfd'.trans hfd⟩
    · rintro ⟨s, session, hs, hfd⟩
      obtain ⟨old, hold, hfd'⟩ := h.member.fd_before hworld hrequest hs
      exact ⟨s, old, hold, hfd'.trans hfd⟩
  have hmember := (h.member.step hworld).1
  cases hstep with
  | connect _ _ => exact absurd rfl (he _)
  | token _ => exact ⟨unread, ⟨h.sent, hsessions, hmember⟩, fun _ => rfl⟩
  | @round w' s fuel session g t t' packet hs ht hread _ =>
    have hfd := h.sent session.fd
    have hclient : st.clients session.fd = .upgraded := (h.sessions _).mpr ⟨s, session, hs, rfl⟩
    rw [hclient] at hfd
    obtain ⟨hblocks, hreadable⟩ := hfd
    obtain ⟨m, rest, hunread, hm⟩ := packetRead_of_blocks hblocks hreadable ht
    obtain ⟨t₁, hread', hrest⟩ := hm g
    obtain ⟨hpacket, rfl⟩ := Prod.mk.inj (Except.ok.inj (hread.symm.trans hread'))
    obtain rfl := Option.some.inj hpacket
    have hleft : ClientPhase.Sent .upgraded t' rest :=
      ⟨hrest, fun m' hm' => hreadable m' (hunread ▸ List.mem_cons_of_mem m hm')⟩
    refine ⟨Function.update unread session.fd rest, ⟨fun fd' => ?_, hsessions, hmember⟩,
      fun fd' => ?_⟩
    · have hupdate : ClientPhase.Sent (Function.update st.clients session.fd .upgraded fd') _ _ :=
        sent_update h.sent hleft fd'
      rwa [← hclient, Function.update_eq_self] at hupdate
    · by_cases hfd' : session.fd = fd'
      · subst hfd'
        simp [handledOn, hunread]
      · simp [handledOn, hfd', Function.update_of_ne (Ne.symm hfd')]

end Site.Serves

/-! ## Runs -/

/-- **One step** of the site.  What was sent so far and not read before has been handled now, or
is still to be read. -/
theorem SiteStep.serves (hstep : SiteStep lib defs st e st') (h : st.Serves defs unread) :
    ∃ unread', st'.Serves defs unread' ∧ ∀ fd,
      (unread fd ++ sentOn fd [(e, st')]).map ClientMessage.packet
        = handledOn fd [(e, st')] ++ (unread' fd).map ClientMessage.packet := by
  cases hstep with
  | ask hclient =>
    exact ⟨unread, h.ask hclient, fun fd => by simp [sentOn, handledOn]⟩
  | upgrade hnew hc hcreate =>
    exact ⟨unread, (h.upgrade hnew hc hcreate).2, fun fd => by simp [sentOn, handledOn]⟩
  | @send fd messages hclient hreadable =>
    refine ⟨_, h.send hclient hreadable, fun fd' => ?_⟩
    by_cases hfd : fd = fd'
    · subst hfd
      simp [sentOn, handledOn]
    · simp [sentOn, handledOn, hfd, Function.update_of_ne (Ne.symm hfd)]
  | server he hnetwork =>
    obtain ⟨unread', hserves, heq⟩ := h.server he hnetwork
    refine ⟨unread', hserves, fun fd => ?_⟩
    rw [← heq fd]
    simp [sentOn]

/-- After a run, what was sent has been handled, or is still to be read. -/
theorem Site.Serves.run (h : st.Serves defs unread) (hrun : Trace (SiteStep lib defs) st l st') :
    ∃ unread', st'.Serves defs unread' ∧ ∀ fd,
      (unread fd ++ sentOn fd l).map ClientMessage.packet
        = handledOn fd l ++ (unread' fd).map ClientMessage.packet := by
  induction hrun with
  | nil => exact ⟨unread, h, fun fd => by simp [sentOn, handledOn]⟩
  | @snoc l _ _ _ _ hlast ih =>
    obtain ⟨between, hbetween, heq⟩ := ih
    obtain ⟨unread', hserves, heq'⟩ := hlast.serves hbetween
    refine ⟨unread', hserves, fun fd => ?_⟩
    rw [sentOn_append, handledOn_append, ← List.append_assoc, List.map_append, heq fd,
      List.append_assoc, List.append_assoc, ← heq' fd, List.map_append]

/-- A client that has asked did so with this step, or before. -/
theorem SiteStep.asked {q : UpgradeRequest} (hstep : SiteStep lib defs st e st')
    (hq : st'.clients fd = .asked q) : st.clients fd = .asked q ∨ e = .ask fd q := by
  have hupdate : ∀ {fd' : ℕ} {phase : ClientPhase},
      Function.update st.clients fd' phase fd = .asked q →
        st.clients fd = .asked q ∨ fd' = fd ∧ phase = .asked q := by
    intro fd' phase hphase
    by_cases hfd : fd = fd'
    · subst hfd
      rw [Function.update_self] at hphase
      exact .inr ⟨rfl, hphase⟩
    · rw [Function.update_of_ne hfd] at hphase
      exact .inl hphase
  cases hstep with
  | ask _ =>
    refine (hupdate hq).imp_right ?_
    rintro ⟨rfl, hphase⟩
    rw [ClientPhase.asked.inj hphase]
  | upgrade _ _ _ => exact (hupdate hq).imp_right fun h => ClientPhase.noConfusion h.2
  | send _ _ => exact (hupdate hq).imp_right fun h => ClientPhase.noConfusion h.2
  | server _ _ => exact .inl hq

/-- **Who has been answered** had asked before. -/
theorem Site.Serves.answered (h : st.Serves defs unread) (hsilent : ∀ fd, st.clients fd = .silent)
    (hrun : Trace (SiteStep lib defs) st l st') :
    (∀ fd q, st'.clients fd = .asked q → ∃ site, (.ask fd q, site) ∈ l) ∧
      ∀ fd answer site, (.upgrade fd answer, site) ∈ l →
        ∃ q site', (.ask fd q, site') ∈ l ∧ answer = (handshake lib q.key).flatten := by
  induction hrun with
  | nil =>
    refine ⟨fun fd q hq => ?_, fun _ _ _ hmem => absurd hmem List.not_mem_nil⟩
    rw [hsilent fd] at hq
    cases hq
  | @snoc l t u e hrun hlast ih =>
    obtain ⟨hasked, hanswered⟩ := ih
    refine ⟨fun fd q hq => ?_, fun fd answer site hmem => ?_⟩
    · rcases hlast.asked hq with hq | rfl
      · obtain ⟨site, hmem⟩ := hasked fd q hq
        exact ⟨site, List.mem_append_left _ hmem⟩
      · exact ⟨u, List.mem_append_right _ List.mem_cons_self⟩
    · rcases List.mem_append.mp hmem with hmem | hmem
      · obtain ⟨q, site', hask, hanswer⟩ := hanswered fd answer site hmem
        exact ⟨q, site', List.mem_append_left _ hask, hanswer⟩
      · obtain ⟨rfl, -⟩ := Prod.mk.inj (List.mem_singleton.mp hmem)
        obtain ⟨between, hbetween, -⟩ := h.run hrun
        cases hlast with
        | upgrade hnew hc hcreate =>
          obtain ⟨⟨q, hq, hwritten⟩, -⟩ := hbetween.upgrade hnew hc hcreate
          obtain ⟨site', hask⟩ := hasked fd q hq
          exact ⟨q, site', List.mem_append_left _ hask, by rw [hwritten]⟩

/-- **What the server sees** of a step. -/
theorem SiteStep.step {a : Request} (hstep : SiteStep lib defs st e st')
    (ha : e.request = some a) : Step defs st.network.world a st'.network.world := by
  cases hstep with
  | ask _ => cases ha
  | upgrade hnew _ hcreate =>
    obtain rfl := Option.some.inj ha
    exact .connect hnew hcreate
  | send _ _ => cases ha
  | server _ hnetwork =>
    obtain rfl := Option.some.inj ha
    exact hnetwork.step

/-- Of what a client sends it sees nothing yet. -/
theorem SiteStep.world_eq (hstep : SiteStep lib defs st e st') (he : e.request = none) :
    st'.network.world = st.network.world := by
  cases hstep with
  | ask _ => rfl
  | upgrade _ _ _ => cases he
  | send _ _ => rfl
  | server _ _ => cases he

/-- **A request that has arrived** can be answered. -/
theorem Site.Serves.answers {q : UpgradeRequest} {got : List UInt8} {t : Arrivals UInt8}
    (h : st.Serves defs unread) (hclient : st.clients fd = .asked q)
    (hpolls : Polls (bufferSize - 1) (st.network.streams fd) got t) {s : ℕ} {w' : World}
    (hcreate : sessionCreate fd st.network.world = .ok (s, w')) :
    ∃ next, SiteStep lib defs st (.upgrade fd (handshake lib q.key).flatten)
      ⟨⟨w', Function.update st.network.streams fd next⟩,
        Function.update st.clients fd .upgraded⟩ := by
  have hsent := h.sent fd
  rw [hclient] at hsent
  obtain ⟨c, hc, hwritten, -⟩ := exists_upgrades lib hsent.1 hpolls
  have hnew : ∀ s session, st.network.world.sessions.get s = some session → session.fd ≠ fd := by
    intro s session hs hfd
    have hupgraded := (h.sessions fd).mpr ⟨s, session, hs, hfd⟩
    rw [hclient] at hupgraded
    cases hupgraded
  rw [← hwritten]
  exact ⟨c.http.reader.fd, .upgrade hnew hc hcreate⟩

/-- **The next message** of a session can be handled if the server can handle its packet. -/
theorem Site.Serves.round {s fuel : ℕ} {session : Session} {packet : Packet}
    {later : List Packet} {w' : World} (h : st.Serves defs unread)
    (hs : st.network.world.sessions.get s = some session)
    (hunread : (unread session.fd).map ClientMessage.packet = packet :: later)
    (hloop : eventLoop defs fuel s (some packet) st.network.world = .ok ((), w')) (g : Garbage) :
    ∃ t t', (st.network.streams session.fd).wait = some t ∧
      packetRead g t = .ok (some packet, t') ∧
      SiteStep lib defs st (.server (.round s session.fd packet))
        ⟨⟨w', Function.update st.network.streams session.fd t'⟩, st.clients⟩ := by
  have hsent := h.sent session.fd
  rw [(h.sessions session.fd).mpr ⟨s, session, hs, rfl⟩] at hsent
  obtain ⟨m, rest, hm, rfl, -⟩ := List.map_eq_cons_iff.mp hunread
  rw [hm] at hsent
  obtain ⟨t, t', ht, hread, hround⟩ := round_of_blocks hsent.1 hsent.2 hs hloop g
  exact ⟨t, t', ht, hread, .server (fun fd => Event.noConfusion) hround⟩

/-- The server before anybody has sent anything. -/
def Site.boot (playerdata : List Db.Document) (streams : ℕ → Arrivals UInt8) : Site :=
  ⟨⟨World.boot playerdata, streams⟩, fun _ => .silent⟩

theorem serves_boot (playerdata : List Db.Document) {streams : ℕ → Arrivals UInt8}
    (hstreams : ∀ fd, (streams fd).all = []) :
    (Site.boot playerdata streams).Serves defs fun _ => [] where
  sent fd := ⟨hstreams fd, rfl⟩
  sessions fd := by
    refine iff_of_false (nomatch ·) ?_
    rintro ⟨s, session, hs, -⟩
    exact absurd hs.symm (Option.some_ne_none _)
  member := member_boot playerdata

/-! ## The first client of a server -/

/-- Sockets on which the first segment arrives at once. -/
def quickSockets : ℕ → Arrivals UInt8 := fun _ => ⟨[], [], [1]⟩

/-- The state when the client has sent its request. -/
def afterAsk : Site :=
  (Site.boot [firstRecord] quickSockets).receive 3 sampleUpgrade.bytes (.asked sampleUpgrade)

theorem trace_afterAsk : Trace (SiteStep sampleLib mapLoaders)
    (Site.boot [firstRecord] quickSockets) [(.ask 3 sampleUpgrade, afterAsk)] afterAsk :=
  Trace.nil.snoc (.ask rfl)

/-- The request has arrived. -/
theorem polls_afterAsk : ∃ got t,
    Polls (bufferSize - 1) (afterAsk.network.streams 3) got t := by
  have hready : (afterAsk.network.streams 3).tick.ready = sampleUpgrade.bytes := by
    show [] ++ [sampleUpgrade.bytes].flatten = sampleUpgrade.bytes
    rw [List.nil_append, List.flatten_singleton]
  have hread : ((afterAsk.network.streams 3).read (bufferSize - 1)).1 ≠ [] := by
    rw [Arrivals.read, hready, Ne, List.take_eq_nil_iff, not_or]
    exact ⟨by decide, sampleUpgrade.bytes_ne_nil⟩
  refine ⟨_, _, .here ?_⟩
  rw [readLoop, if_neg hread]
  exact List.append_ne_nil_of_left_ne_nil hread _

/-- The client has been answered, its code has arrived, and it has sent a login and a move.  The
login has been handled, and the move can be. -/
theorem trace_afterRound : ∃ l st w, Trace (SiteStep sampleLib mapLoaders)
      (Site.boot [firstRecord] quickSockets) l st ∧
    sentOn 3 l = [loginMessage, eastMessage] ∧ handledOn 3 l = [loginMessage.packet] ∧
    st.network.world.sessions.get 0 = some ⟨3, .roaming, some 0⟩ ∧
    eventLoop mapLoaders 1 0 (some eastMessage.packet) st.network.world = .ok ((), w) := by
  have hboot : (Site.boot [firstRecord] quickSockets).Serves mapLoaders fun _ => [] :=
    serves_boot [firstRecord] fun _ => rfl
  obtain ⟨got, t, hpolls⟩ := polls_afterAsk
  obtain ⟨next, hupgrade⟩ := (hboot.ask rfl).answers rfl hpolls
    (show sessionCreate 3 _ = .ok (0, afterConnect) from rfl)
  have htoken := (trace_afterAsk.snoc hupgrade).snoc (.server (fun fd => Event.noConfusion)
    (.token (show onTable (AwaitingTable.insert [49] [97] 0) afterConnect = .ok (true, afterToken)
      from rfl)))
  have hrun := htoken.snoc (.send (Function.update_self 3 _ _) readable_messages)
  obtain ⟨unread, hserves, heq⟩ := hboot.run hrun
  have hunread : (unread 3).map ClientMessage.packet = [loginMessage.packet, eastMessage.packet] :=
    (heq 3).symm
  obtain ⟨w₁, w₂, hlogin, hmove, hs⟩ := eventLoop_messages
  obtain ⟨u, u', -, -, hround⟩ := hserves.round
    (show afterToken.sessions.get 0 = some ⟨3, .disabled, none⟩ from rfl) hunread hlogin zeroGarbage
  exact ⟨_, _, w₂, hrun.snoc hround, rfl, rfl, hs, hmove⟩

/-! ## The whole connection -/

/-- **From the first byte of a connection on.**  Take any run from the start: clients ask for a
WebSocket with a request that comes in one piece, wait for the answer, and then send messages,
whenever and however they come; threads answer, tokens are stored and sessions do their rounds,
in any order.  What the server sees is a run of the server.  Every answer is the handshake for
the key of a request of this client.  And on every socket the packets that were handled,
followed by those that are still to be read, are the packets that were sent. -/
theorem site_refines {playerdata : List Db.Document} {streams : ℕ → Arrivals UInt8}
    (hstreams : ∀ fd, (streams fd).all = [])
    (h : Trace (SiteStep lib defs) (Site.boot playerdata streams) l st) :
    Trace (Step defs) (boot playerdata) (requestsOf l) st.network.world ∧
      (∀ fd answer site, (.upgrade fd answer, site) ∈ l →
        ∃ q site', (.ask fd q, site') ∈ l ∧ answer = (handshake lib q.key).flatten) ∧
      ∀ fd, ∃ unread, (st.clients fd).Sent (st.network.streams fd) unread ∧
        (sentOn fd l).map ClientMessage.packet
          = handledOn fd l ++ unread.map ClientMessage.packet := by
  have hboot : (Site.boot playerdata streams).Serves defs fun _ => [] :=
    serves_boot playerdata hstreams
  have hrequests : Trace (Step defs) (boot playerdata) (requestsOf l) st.network.world :=
    h.filterMap (f := fun st => st.network.world) (fun _ _ _ _ hstep ha => hstep.step ha)
      fun _ _ _ hstep he => hstep.world_eq he
  obtain ⟨unread, hserves, heq⟩ := hboot.run h
  exact ⟨hrequests, (hboot.answered (fun _ => rfl) h).2,
    fun fd => ⟨unread fd, hserves.sent fd, heq fd⟩⟩

/-- A client that asks, logs in and walks. -/
theorem site_refines_bothMessages : ∃ l st,
    Trace (SiteStep sampleLib mapLoaders) (Site.boot [firstRecord] quickSockets) l st ∧
    handledOn 3 l = [loginMessage.packet, eastMessage.packet] ∧
    (Trace (Step mapLoaders) (boot [firstRecord]) (requestsOf l) st.network.world ∧
      (∀ fd answer site, (.upgrade fd answer, site) ∈ l →
        ∃ q site', (.ask fd q, site') ∈ l ∧ answer = (handshake sampleLib q.key).flatten) ∧
      ∀ fd, ∃ unread, (st.clients fd).Sent (st.network.streams fd) unread ∧
        (sentOn fd l).map ClientMessage.packet
          = handledOn fd l ++ unread.map ClientMessage.packet) := by
  obtain ⟨l, st, w, hrun, hsent, hhandled, hs, hmove⟩ := trace_afterRound
  have hboot : (Site.boot [firstRecord] quickSockets).Serves mapLoaders fun _ => [] :=
    serves_boot [firstRecord] fun _ => rfl
  obtain ⟨unread, hserves, heq⟩ := hboot.run hrun
  have hunread : (unread 3).map ClientMessage.packet = [eastMessage.packet] := by
    have hthree := heq 3
    rw [hsent, hhandled] at hthree
    exact (List.cons.inj hthree).2.symm
  obtain ⟨t, t', -, -, hround⟩ := hserves.round hs hunread hmove zeroGarbage
  have hrun' := hrun.snoc hround
  refine ⟨_, _, hrun', ?_, site_refines (fun _ => rfl) hrun'⟩
  rw [handledOn_append, hhandled]
  rfl

/-- **Nobody is kept waiting.**  After such a run, a client whose request has arrived can be
answered, and if a session has been sent more and the server can handle the next packet, then it
can do this round, whatever was in the memory it reads into. -/
theorem site_proceeds {playerdata : List Db.Document} {streams : ℕ → Arrivals UInt8}
    (hstreams : ∀ fd, (streams fd).all = [])
    (h : Trace (SiteStep lib defs) (Site.boot playerdata streams) l st) :
    (∀ fd q got t, st.clients fd = .asked q →
        Polls (bufferSize - 1) (st.network.streams fd) got t →
        ∃ st', SiteStep lib defs st (.upgrade fd (handshake lib q.key).flatten) st') ∧
      ∀ s fuel session packet later w' g, st.network.world.sessions.get s = some session →
        (sentOn session.fd l).map ClientMessage.packet
          = handledOn session.fd l ++ packet :: later →
        eventLoop defs fuel s (some packet) st.network.world = .ok ((), w') →
        ∃ t t', (st.network.streams session.fd).wait = some t ∧
          packetRead g t = .ok (some packet, t') ∧
          SiteStep lib defs st (.server (.round s session.fd packet))
            ⟨⟨w', Function.update st.network.streams session.fd t'⟩, st.clients⟩ := by
  have hboot : (Site.boot playerdata streams).Serves defs fun _ => [] :=
    serves_boot playerdata hstreams
  obtain ⟨unread, hserves, heq⟩ := hboot.run h
  refine ⟨fun fd q got t hclient hpolls => ?_,
    fun s fuel session packet later w' g hs hmore hloop => ?_⟩
  · obtain ⟨next, hstep⟩ := hserves.answers hclient hpolls rfl
    exact ⟨_, hstep⟩
  · have hunread := List.append_cancel_left ((heq session.fd).symm.trans hmore)
    exact hserves.round hs hunread hloop g

/-- The request of the first client is answered, and its second message is handled after the
first one. -/
theorem site_proceeds_bothMessages :
    (∃ st', SiteStep sampleLib mapLoaders afterAsk
      (.upgrade 3 (handshake sampleLib sampleKey).flatten) st') ∧
    ∃ l st w' t t',
      Trace (SiteStep sampleLib mapLoaders) (Site.boot [firstRecord] quickSockets) l st ∧
      handledOn 3 l = [loginMessage.packet] ∧ (st.network.streams 3).wait = some t ∧
      packetRead zeroGarbage t = .ok (some eastMessage.packet, t') ∧
      SiteStep sampleLib mapLoaders st (.server (.round 0 3 eastMessage.packet))
        ⟨⟨w', Function.update st.network.streams 3 t'⟩, st.clients⟩ := by
  obtain ⟨got, t, hpolls⟩ := polls_afterAsk
  refine ⟨(site_proceeds (fun _ => rfl) trace_afterAsk).1 3 sampleUpgrade got t rfl hpolls, ?_⟩
  obtain ⟨l, st, w, hrun, hsent, hhandled, hs, hmove⟩ := trace_afterRound
  have hmore : (sentOn 3 l).map ClientMessage.packet = handledOn 3 l ++ [eastMessage.packet] := by
    rw [hsent, hhandled]
    rfl
  obtain ⟨t, t', hround⟩ := (site_proceeds (fun _ => rfl) hrun).2 0 1 ⟨3, .roaming, some 0⟩ _ [] w
    zeroGarbage hs hmore hmove
  exact ⟨l, st, w, t, t', hrun, hhandled, hround⟩

end World
end MmoBackend
