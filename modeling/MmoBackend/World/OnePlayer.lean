import MmoBackend.World.Membership

/-!
# One player for an account

`packet_handle_login` asks the player cache for the player of an account, but nothing
ever puts a player into the cache.  So every login makes a new player, and two codes for
one account log two players in.

The request to blame is a login for an account that somebody is logged in with.
`onePerAccount_iff` says that the runs with one player for an account in every state are
exactly the runs without such a login.
-/

namespace MmoBackend

open Authentication Communication Db Maps Player

namespace World

open Scene

variable {defs : MapDefs} {w w' : World} {a : Request}

/-- No two players on the lists of the maps have the same id, and no two sessions that roam
have players with the same id. -/
structure OnePerAccount (w : World) : Prop where
  listed : ∀ m m' q q' player player', q ∈ w.scene.roster m → q' ∈ w.scene.roster m' →
    w.players.get q = some player → w.players.get q' = some player' →
    player.id = player'.id → q = q'
  roaming : ∀ s s' session session' q q' player player', w.sessions.get s = some session →
    w.sessions.get s' = some session' → session.state = .roaming → session'.state = .roaming →
    session.player = some q → session'.player = some q' → w.players.get q = some player →
    w.players.get q' = some player' → player.id = player'.id → s = s'

/-- A request to log in an account that has a record, when somebody is logged in with it. -/
def LogsInAgain (w : World) (a : Request) : Prop :=
  ∃ id doc, LoginFor w a id ∧ findById id w.playerdata = some doc ∧
    ∃ s q, w.scene.Holds s q id

/-- No two sessions hold the same id. -/
def Apart (w : World) : Prop :=
  ∀ s s' q q' k, w.scene.Holds s q k → w.scene.Holds s' q' k → s = s'

/-- Only who is logged in is listed, so the sessions decide. -/
theorem Member.onePerAccount_iff_apart (h : Member defs w) : OnePerAccount w ↔ Apart w := by
  constructor
  · rintro hone s s' q q' k ⟨⟨session, hs, hstate, hq⟩, player, hp, hk⟩
      ⟨⟨session', hs', hstate', hq'⟩, player', hp', hk'⟩
    exact hone.roaming s s' session session' q q' player player' hs hs' hstate hstate' hq hq' hp hp'
      (hk.trans hk'.symm)
  · intro hapart
    have hroams : ∀ s s' q q' player player', w.scene.RoamsWith s q → w.scene.RoamsWith s' q' →
        w.players.get q = some player → w.players.get q' = some player' →
        player.id = player'.id → s = s' := by
      intro s s' q q' player player' hs hs' hp hp' hid
      obtain ⟨k, -, other, hother, hk⟩ := h.membership.holds hs
      obtain rfl := Option.some.inj (hp.symm.trans hother)
      exact hapart s s' q q' k ⟨hs, player, hp, hk⟩ ⟨hs', player', hp', hid.symm.trans hk⟩
    refine ⟨fun m m' q q' player player' hm hm' hp hp' hid => ?_,
      fun s s' session session' q q' player player' hs hs' hstate hstate' hq hq' =>
        hroams s s' q q' player player' ⟨session, hs, hstate, hq⟩ ⟨session', hs', hstate', hq'⟩⟩
    obtain ⟨s, hs⟩ := h.membership.listed m q hm
    obtain ⟨s', hs'⟩ := h.membership.listed m' q' hm'
    obtain rfl := hroams s s' q q' player player' hs hs' hp hp' hid
    -- one session has one player
    obtain ⟨session, hsession, -, hq⟩ := hs
    obtain ⟨session', hsession', -, hq'⟩ := hs'
    obtain rfl := Option.some.inj (hsession.symm.trans hsession')
    exact Option.some.inj (hq.symm.trans hq')

/-- The account of a login is determined. -/
theorem LoginFor.inj {id id' : CString} (h : LoginFor w a id) (h' : LoginFor w a id') :
    id = id' := by
  obtain ⟨s, packet, _, rfl, -, -, -, haccount⟩ := h
  obtain ⟨s', packet', _, ha, -, -, -, haccount'⟩ := h'
  obtain ⟨rfl, rfl⟩ := Request.packet.inj ha
  exact Option.some.inj (haccount.symm.trans haccount')

/-- **One request** keeps the sessions apart if and only if it does not log an account in
again. -/
theorem Logins.apart_iff (h : Logins w a w') (hapart : Apart w) :
    Apart w' ↔ ¬LogsInAgain w a := by
  cases h with
  | same hnone hsame =>
    refine iff_of_true (fun s s' q q' k hs hs' => ?_) ?_
    · exact hapart s s' q q' k ((hsame s q k).mp hs) ((hsame s' q' k).mp hs')
    · rintro ⟨id, doc, hfor, hdoc, -⟩
      exact hnone id doc hfor hdoc
  | @added sid p id doc hfor hdoc hnot hadded =>
    have hnew : w'.scene.Holds sid p id := (hadded sid p id).mpr (Or.inr ⟨rfl, rfl, rfl⟩)
    constructor
    · rintro hapart' ⟨id', doc', hfor', -, s, q, hs⟩
      obtain rfl := hfor.inj hfor'
      obtain rfl := hapart' s sid q p id ((hadded s q id).mpr (Or.inl hs)) hnew
      exact hnot q id hs
    · intro hagain s s' q q' k hs hs'
      -- nobody had the id of the new player
      have hid : ∀ s q, ¬w.scene.Holds s q id := fun s q hs =>
        hagain ⟨id, doc, hfor, hdoc, s, q, hs⟩
      rcases (hadded s q k).mp hs with hs | ⟨rfl, rfl, rfl⟩
      · rcases (hadded s' q' k).mp hs' with hs' | ⟨-, -, rfl⟩
        · exact hapart s s' q q' k hs hs'
        · exact absurd hs (hid s q)
      · rcases (hadded s' q' k).mp hs' with hs' | ⟨rfl, -, -⟩
        · exact absurd hs' (hid s' q')
        · rfl

theorem apart_boot (playerdata : List Document) : Apart (boot playerdata) := by
  rintro s s' q q' k ⟨⟨session, hs, -⟩, -⟩
  exact absurd hs.symm (Option.some_ne_none session)

/-- **One player for an account.**  In a run every state has one player for an account if
and only if no request of it logs in an account that somebody is logged in with. -/
theorem onePerAccount_iff {playerdata : List Document} {l : List (Request × World)}
    (h : Trace (Step defs) (boot playerdata) l w) :
    (∀ e ∈ l, OnePerAccount e.2) ↔
      Trace (Guarded (Step defs) fun w a => ¬LogsInAgain w a) (boot playerdata) l w := by
  have hmember : Member defs (boot playerdata) := member_boot playerdata
  refine h.forall_iff_guarded (I := Member defs) (fun t a u ht hstep => (ht.step hstep).1)
    (fun t a u ht hone hstep => ?_) hmember
    (hmember.onePerAccount_iff_apart.mpr (apart_boot playerdata))
  obtain ⟨hu, hlogins⟩ := ht.step hstep
  exact hu.onePerAccount_iff_apart.trans
    (hlogins.apart_iff (ht.onePerAccount_iff_apart.mp hone))

/-! ## Two codes for one account -/

/-- Two clients log in to the same account. -/
theorem trace_secondLogin : ∃ l w player player', Trace (Step mapLoaders) (boot [firstRecord]) l w ∧
    l.map Prod.fst = [.connect 3, .connect 4, .token [49] [97] 0, .token [50] [97] 0,
      .packet 0 firstLogin, .packet 1 secondLogin] ∧
    (∃ e ∈ l, e.2 = w) ∧ w.sessions.get 0 = some ⟨3, .roaming, some 0⟩ ∧
    w.sessions.get 1 = some ⟨4, .roaming, some 1⟩ ∧ w.players.get 0 = some player ∧
    w.players.get 1 = some player' ∧ player.id = player'.id := by
  obtain ⟨_, _, _, htokens⟩ :=
    trace_twoTokens (fun _ _ => True) (fun _ _ _ => trivial) [firstRecord] [97]
  have hview : Exec.endView
      (fun w => (w.sessions.get 0, w.sessions.get 1, w.players.get 0, w.players.get 1))
      (do eventLoop mapLoaders 1 0 (some firstLogin)
          eventLoop mapLoaders 1 1 (some secondLogin)) (twoTokens [firstRecord] [97])
        = some (some ⟨3, .roaming, some 0⟩, some ⟨4, .roaming, some 1⟩,
            some ⟨1, 1, 0, 1, 2, some 0, some 0, none, some [97]⟩,
            some ⟨1, 1, 0, 1, 2, some 0, some 1, none, some [97]⟩) := by
    decide +kernel
  obtain ⟨_, w, hloops, hview⟩ := Exec.endView_eq_some.mp hview
  obtain ⟨hs, hs', hp, hp'⟩ := by simpa only [Prod.mk.injEq] using hview
  obtain ⟨_, v, hfirst, hsecond⟩ := Exec.bind_eq_ok.mp hloops
  refine ⟨_, w, _, _, (htokens.of_guarded.snoc (Step.packet hfirst)).snoc (Step.packet hsecond),
    rfl, ?_, hs, hs', hp, hp', rfl⟩
  exact ⟨_, List.mem_append_right _ List.mem_cons_self, rfl⟩

/-- Two codes for one account log two players in. -/
theorem not_onePerAccount_secondLogin : ∃ l w, Trace (Step mapLoaders) (boot [firstRecord]) l w ∧
    ¬∀ e ∈ l, OnePerAccount e.2 := by
  obtain ⟨l, w, player, player', hrun, -, ⟨e, he, hw⟩, hs, hs', hp, hp', hid⟩ := trace_secondLogin
  refine ⟨l, w, hrun, fun hone => ?_⟩
  have hsame :=
    (hw ▸ hone e he).roaming 0 1 _ _ 0 1 player player' hs hs' rfl rfl rfl rfl hp hp' hid
  exact absurd hsame (by decide)

/-- What the theorem says about this run. -/
theorem onePerAccount_iff_secondLogin : ∃ l w, Trace (Step mapLoaders) (boot [firstRecord]) l w ∧
    ((∀ e ∈ l, OnePerAccount e.2) ↔ Trace (Guarded (Step mapLoaders) fun w a => ¬LogsInAgain w a)
      (boot [firstRecord]) l w) := by
  obtain ⟨l, w, _, _, hrun, -⟩ := trace_secondLogin
  exact ⟨l, w, hrun, onePerAccount_iff hrun⟩

end World
end MmoBackend
