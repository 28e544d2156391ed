import MmoBackend.Library.Trace
import MmoBackend.World.Login
import MmoBackend.World.Twins

/-!
# What failed logins of one session do to another

Two runs of the server are followed side by side.  They receive the same requests in the
same order, and the second one also receives login packets of the session `a` with codes
that are not in the table.  Such a login sets `packet_errno`, which the event loop of
every session reads and nothing resets.

The two servers stay twins in every step in which the error number is not read, or is
read by a session other than `b`, `Twin.step`.  So `b` is sent the same in both runs as
long as no packet that its state allows reaches it while the two error numbers differ,
`sentToSession_eq`; and when one does, it is sent an error and a close frame in one run
only.
-/

namespace MmoBackend

open Authentication Communication Exec Maps

namespace World

/-! ## Pairs of runs -/

/-- What happens to the two servers. -/
inductive Moment where
  /-- Both receive a request. -/
  | both (r : Request)
  /-- Only the second one receives a packet of the session `a`. -/
  | extra (packet : Packet)

/-- A packet tries to log in with a code that is not in the table. -/
def UnknownLogin (w : World) (packet : Packet) : Prop :=
  packet.opcode = loginPacket ∧
    ∃ code, cString packet.data = some code ∧ w.table.entries.lookup code = none

/-- The steps of the two servers. -/
inductive PairStep (defs : MapDefs) (a : ℕ) : World × World → Moment → World × World → Prop
  | both {w w' v v' : World} {r : Request} :
      Step defs w r w' → Step defs v r v' → PairStep defs a (w, v) (.both r) (w', v')
  | extra {w v v' : World} {packet : Packet} :
      UnknownLogin v packet → Step defs v (.packet a packet) v' →
        PairStep defs a (w, v) (.extra packet) (w, v')

/-- What a session was sent. -/
def sentToSession (b : ℕ) (w : World) : Option (List Sent) :=
  (w.sessions.get b).map fun session => sentTo session.fd w

/-- A packet that the state of the session `b` allows arrives only while the two error
numbers are the same. -/
def SameErrno (b : ℕ) (servers : World × World) (moment : Moment) : Prop :=
  ∀ packet session, moment = .both (.packet b packet) →
    servers.1.sessions.get b = some session → sessionVerifyPacket session packet = true →
    servers.1.packetErrno = servers.2.packetErrno

/-! ## Twins stay twins -/

variable {defs : MapDefs} {a b : ℕ} {w w' v v' : World}

theorem Twin.refl_boot (b : ℕ) (playerdata : List Db.Document) :
    Twin b (boot playerdata) (boot playerdata) where
  veiled := rfl
  same _ _ := rfl
  addressed _ he := absurd he List.not_mem_nil
  addressed' _ he := absurd he List.not_mem_nil
  distinct _ _ _ _ hs := absurd hs.symm (Option.some_ne_none _)

theorem Twin.sentToSession_congr (h : Twin b w v) : sentToSession b w = sentToSession b v := by
  rw [sentToSession, sentToSession, h.sessions_eq]
  cases hb : w.sessions.get b with
  | none => rfl
  | some session => exact congrArg some (h.same session hb)

/-- Nothing was written to a file descriptor that no session has. -/
theorem Addressed.sentTo_eq_nil {fd : ℕ} (h : w.Addressed)
    (hfd : ∀ s session, w.sessions.get s = some session → session.fd ≠ fd) :
    sentTo fd w = [] := by
  refine List.filterMap_eq_nil_iff.mpr fun e he => if_neg ?_
  obtain ⟨s, session, hs, hse⟩ := h e he
  exact fun hefd => hfd s session hs (hse.trans hefd)

/-- A client connects to both. -/
theorem Twin.connect {fd : ℕ} (h : Twin b w v)
    (hfd : ∀ s session, w.sessions.get s = some session → session.fd ≠ fd) :
    Twin b { w with sessions := w.sessions.alloc ⟨fd, .disabled, none⟩ }
      { v with sessions := v.sessions.alloc ⟨fd, .disabled, none⟩ } := by
  have hsessions := h.sessions_eq
  have haddressed : ∀ u : World, u.sessions = w.sessions → u.Addressed →
      World.Addressed { u with sessions := u.sessions.alloc ⟨fd, .disabled, none⟩ } := by
    intro u hu haddr e he
    obtain ⟨s, session, hs, hse⟩ := haddr e he
    exact ⟨s, session, Heap.get_alloc_of_get _ hs, hse⟩
  refine ⟨?_, fun session hb => ?_, haddressed w rfl h.addressed,
    haddressed v hsessions h.addressed', fun s s' session session' hs hs' hfds => ?_⟩
  · have hveiled := h.veiled
    rw [hveiled]
    rfl
  · rcases Heap.get_alloc_eq_some hb with ⟨-, rfl⟩ | ⟨-, hold⟩
    · exact (h.addressed.sentTo_eq_nil hfd).trans
        (h.addressed'.sentTo_eq_nil (hsessions ▸ hfd)).symm
    · exact h.same session hold
  · rcases Heap.get_alloc_eq_some hs with ⟨rfl, rfl⟩ | ⟨-, hold⟩
    · rcases Heap.get_alloc_eq_some hs' with ⟨rfl, -⟩ | ⟨-, hold'⟩
      · rfl
      · exact absurd hfds.symm (hfd s' session' hold')
    · rcases Heap.get_alloc_eq_some hs' with ⟨rfl, rfl⟩ | ⟨-, hold'⟩
      · exact absurd hfds (hfd s session hold)
      · exact h.distinct s s' session session' hold hold' hfds

section Rounds

variable {fuel s : ℕ} {packet : Packet} {u : Unit}

/-- A round of the event loop in both.  The error number may differ if the session is not
`b` or its state does not allow the packet. -/
theorem Twin.eventLoop (h : Twin b w v)
    (hw : eventLoop defs fuel s (some packet) w = .ok (u, w'))
    (hv : eventLoop defs fuel s (some packet) v = .ok (u, v'))
    (hb : SameErrno b (w, v) (.both (.packet s packet))) : Twin b w' v' := by
  obtain ⟨session, hs, hw⟩ := eventLoop_eq_ok hw
  obtain ⟨session', hs', hv⟩ := eventLoop_eq_ok hv
  rw [h.sessions_eq] at hs'
  obtain rfl := Option.some.inj (hs.symm.trans hs')
  rcases hw with ⟨hverify, rfl⟩ | ⟨hverify, r, w₁, hroute, hrespond⟩
  · rcases hv with ⟨-, rfl⟩ | ⟨hverify', -⟩
    · have hentry : ∀ e ∈ [(session.fd, Sent.packet (.badState packet.id))],
          e.1 = session.fd := fun e he => by rw [List.mem_singleton.mp he]
      exact h.append hs hentry hentry (fun _ => rfl) w.packetErrno v.packetErrno
    · exact absurd (hverify.symm.trans hverify') (by simp)
  · rcases hv with ⟨hverify', -⟩ | ⟨-, r', v₁, hroute', hrespond'⟩
    · exact absurd (hverify'.symm.trans hverify) (by simp)
    -- Each reports its own error number, and then both make the same calls.
    have hsame : s = b → errorReport session.fd w.packetErrno =
        errorReport session.fd v.packetErrno := by
      rintro rfl
      exact congrArg _ (hb packet session rfl hs hverify)
    have hreported := h.append hs (fst_errorReport session.fd w.packetErrno)
      (fst_errorReport session.fd v.packetErrno) hsame w.packetErrno v.packetErrno
    obtain ⟨v₂, hv₂, htwin₁⟩ :=
      blind_packetHandleRoute fuel packet s _ _ r w₁ hreported hroute
    obtain ⟨rfl, rfl⟩ := Prod.mk.inj (Except.ok.inj (hroute'.symm.trans hv₂))
    obtain ⟨v₃, hv₃, htwin'⟩ := blind_respond s r' _ _ u w' htwin₁ hrespond
    obtain ⟨-, rfl⟩ := Prod.mk.inj (Except.ok.inj (hrespond'.symm.trans hv₃))
    exact htwin'

/-- A login with an unknown code is answered to the session that sent it, if at all, and
changes the error number. -/
theorem eventLoop_unknownLogin (hunknown : UnknownLogin v packet)
    (h : eventLoop defs fuel s (some packet) v = .ok (u, v')) :
    ∃ session l errno, v.sessions.get s = some session ∧ (∀ e ∈ l, e.1 = session.fd) ∧
      v' = veil errno (v.out ++ l) v := by
  obtain ⟨hop, code, hcode, hlookup⟩ := hunknown
  obtain ⟨session, hs, ⟨-, rfl⟩ | ⟨-, r, v₁, hroute, hrespond⟩⟩ := eventLoop_eq_ok h
  · exact ⟨session, _, v.packetErrno, hs, fun e he => by rw [List.mem_singleton.mp he], rfl⟩
  · rw [packetHandleRoute_login hop] at hroute
    simp only [packetHandleLogin, bind_eq_ok, need_eq_ok, onTable_eq_ok,
      AwaitingTable.find, get_eq_ok] at hroute
    obtain ⟨code', _, ⟨hcode', rfl⟩, found, _, ⟨t, ⟨_, _, ⟨rfl, rfl⟩, hfind⟩, rfl⟩, hroute⟩ :=
      hroute
    obtain rfl := Option.some.inj (hcode.symm.trans hcode')
    rw [show (v.emit _).table.entries.lookup code = none from hlookup] at hfind
    obtain ⟨rfl, rfl⟩ := pure_eq_ok.mp hfind
    obtain ⟨_, v₂, hset, hpure⟩ := bind_eq_ok.mp hroute
    obtain ⟨rfl, rfl⟩ := pure_eq_ok.mp hpure
    rw [modify_eq_ok] at hset
    subst hset
    obtain ⟨-, rfl⟩ := pure_eq_ok.mp hrespond
    exact ⟨session, _, invalidAwaitingConnection, hs, fst_errorReport session.fd v.packetErrno,
      rfl⟩

end Rounds

/-- **One step of the two servers.** -/
theorem Twin.step {moment : Moment} (hab : a ≠ b) (h : Twin b w v)
    (hstep : PairStep defs a (w, v) moment (w', v')) (hb : SameErrno b (w, v) moment) :
    Twin b w' v' := by
  cases hstep with
  | @both _ _ _ _ r hw hv =>
    cases hw with
    | connect hfd hcreate =>
      cases hv with
      | connect _ hcreate' =>
        obtain rfl := sessionCreate_eq_ok hcreate
        obtain rfl := sessionCreate_eq_ok hcreate'
        exact h.connect hfd
    | token hinsert =>
      cases hv with
      | token hinsert' =>
        obtain ⟨v₁, hv₁, htwin⟩ := blind_onTable _ _ _ _ _ h hinsert
        obtain ⟨-, rfl⟩ := Prod.mk.inj (Except.ok.inj (hinsert'.symm.trans hv₁))
        exact htwin
    | @packet _ s fuel packet hloop =>
      cases hv with
      | @packet _ _ fuel' _ hloop' =>
        have hw := eventLoop_below (Nat.le_max_left fuel fuel') s _ _ _ hloop
        have hv := eventLoop_below (Nat.le_max_right fuel fuel') s _ _ _ hloop'
        exact h.eventLoop hw hv hb
  | extra hunknown hv =>
    cases hv with
    | packet hloop =>
      obtain ⟨session, l, errno, hs, hl, rfl⟩ := eventLoop_unknownLogin hunknown hloop
      have htwin := h.append (h.sessions_eq ▸ hs) (fun e he => absurd he List.not_mem_nil) hl
        (fun hsb => absurd hsb hab) w.packetErrno errno
      rw [List.append_nil] at htwin
      exact htwin

/-- **When failed logins of one session do not reach another.**  In every pair of runs in
which no packet that the state of `b` allows arrives while the error numbers differ, `b`
is sent the same by both servers, in every state. -/
theorem sentToSession_eq {playerdata : List Db.Document} {servers : World × World}
    {l : List (Moment × World × World)} (hab : a ≠ b)
    (h : Trace (Guarded (PairStep defs a) (SameErrno b)) (boot playerdata, boot playerdata) l
      servers) :
    sentToSession b servers.1 = sentToSession b servers.2 := by
  have htwin : Twin b servers.1 servers.2 :=
    Trace.invariant (I := fun servers => Twin b servers.1 servers.2)
      (fun _ _ _ ht hstep => ht.step hab hstep.1 hstep.2) (Twin.refl_boot b playerdata) h
  exact htwin.sentToSession_congr

/-! ## Two clients -/

/-- The server with one client. -/
def oneClient : World :=
  { boot [] with sessions := Heap.empty.alloc ⟨3, .disabled, none⟩ }

/-- The server with two clients. -/
def twoClients : World :=
  { oneClient with sessions := oneClient.sessions.alloc ⟨4, .disabled, none⟩ }

/-- The server after a login with a code that is not in the table. -/
def afterUnknown : World := { twoClients with packetErrno := invalidAwaitingConnection }

theorem length_nil_le : (0 : BitVec 32).toNat ≤ ([] : List UInt8).length := by decide

/-- A packet of a client that has not logged in yet. -/
def earlyMove : Packet where
  opcode := movePacket
  id := 8
  length := 0
  data := []
  length_le := length_nil_le

theorem step_oneClient : Step mapLoaders (boot []) (.connect 3) oneClient :=
  .connect (fun _ _ h => absurd h.symm (Option.some_ne_none _)) (s := 0) rfl

theorem step_twoClients : Step mapLoaders oneClient (.connect 4) twoClients := by
  refine .connect (fun s session hs => ?_) (s := 1) rfl
  rcases Heap.get_alloc_eq_some hs with ⟨-, rfl⟩ | ⟨-, hold⟩
  · decide
  · exact absurd hold.symm (Option.some_ne_none _)

theorem pairStep_extra :
    PairStep mapLoaders 0 (twoClients, twoClients) (.extra firstLogin)
      (twoClients, afterUnknown) :=
  .extra ⟨rfl, [49], rfl, rfl⟩
    (.packet (show eventLoop mapLoaders 0 0 (some firstLogin) twoClients = .ok ((), _) from rfl))

/-- The other client is sent an error and a close frame in the second run only. -/
theorem exists_sentToSession_ne : ∃ l servers,
    Trace (PairStep mapLoaders 0) (boot [], boot []) l servers ∧
      sentToSession 1 servers.1 ≠ sentToSession 1 servers.2 := by
  have hfirst : Step mapLoaders twoClients (.packet 1 firstLogin) afterUnknown :=
    .packet (show eventLoop mapLoaders 0 1 (some firstLogin) twoClients = .ok ((), _) from rfl)
  have hsecond : Step mapLoaders afterUnknown (.packet 1 firstLogin)
      (afterUnknown.emit (errorReport 4 invalidAwaitingConnection)) :=
    .packet (show eventLoop mapLoaders 0 1 (some firstLogin) afterUnknown = .ok ((), _) from rfl)
  refine ⟨_, _, (((Trace.nil.snoc (.both step_oneClient step_oneClient)).snoc
    (.both step_twoClients step_twoClients)).snoc pairStep_extra).snoc (.both hfirst hsecond), ?_⟩
  decide

/-- **A failed login reaches another session.** -/
theorem not_sentToSession_eq : ¬∀ (defs : MapDefs) (playerdata : List Db.Document) (a b : ℕ)
    (l : List (Moment × World × World)) (servers : World × World), a ≠ b →
      Trace (PairStep defs a) (boot playerdata, boot playerdata) l servers →
        sentToSession b servers.1 = sentToSession b servers.2 := by
  intro h
  obtain ⟨l, servers, hrun, hne⟩ := exists_sentToSession_ne
  exact hne (h mapLoaders [] 0 1 l servers (by decide) hrun)

/-- A packet that is refused is answered the same with both error numbers. -/
theorem sentToSession_eq_earlyMove : ∃ l servers,
    Trace (Guarded (PairStep mapLoaders 0) (SameErrno 1)) (boot [], boot []) l servers ∧
      servers.1.packetErrno ≠ servers.2.packetErrno ∧
      sentToSession 1 servers.1 = sentToSession 1 servers.2 := by
  have hfirst : Step mapLoaders twoClients (.packet 1 earlyMove)
      (twoClients.write 4 (.packet (.badState 8))) :=
    .packet (show eventLoop mapLoaders 0 1 (some earlyMove) twoClients = .ok ((), _) from rfl)
  have hsecond : Step mapLoaders afterUnknown (.packet 1 earlyMove)
      (afterUnknown.write 4 (.packet (.badState 8))) :=
    .packet (show eventLoop mapLoaders 0 1 (some earlyMove) afterUnknown = .ok ((), _) from rfl)
  have hother : ∀ {servers moment}, (∀ packet, moment ≠ .both (.packet 1 packet)) →
      SameErrno 1 servers moment := fun h packet _ hmoment => absurd hmoment (h packet)
  have hrefused : SameErrno 1 (twoClients, afterUnknown) (.both (.packet 1 earlyMove)) := by
    rintro _ session ⟨⟩ hs hverify
    obtain rfl := Option.some.inj ((show twoClients.sessions.get 1 = some ⟨4, .disabled, none⟩
      from rfl).symm.trans hs)
    exact absurd hverify (by decide)
  have hrun : Trace (Guarded (PairStep mapLoaders 0) (SameErrno 1)) (boot [], boot []) _
      (twoClients.write 4 (.packet (.badState 8)), afterUnknown.write 4 (.packet (.badState 8))) :=
    (((Trace.nil.snoc ⟨.both step_oneClient step_oneClient, hother nofun⟩).snoc
      ⟨.both step_twoClients step_twoClients, hother nofun⟩).snoc
        ⟨pairStep_extra, hother nofun⟩).snoc ⟨.both hfirst hsecond, hrefused⟩
  exact ⟨_, _, hrun, by decide, sentToSession_eq (by decide) hrun⟩

end World
end MmoBackend
