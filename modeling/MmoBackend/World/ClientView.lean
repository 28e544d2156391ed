import MmoBackend.World.Relocation

/-!
# What a client holds

A client keeps a partial map from player ids to positions.  It empties it when a map
packet arrives, sets an entry when a position arrives and deletes an entry when a
leaving does.  `clientView` is what the client on a socket holds after everything
that was written to that socket.

A scene is `Synced` when every player that is listed on a map has, on its socket,
exactly the players listed on that map with their positions.  In the middle of a move
this fails for one entry, the one of the player that moves: `SyncedBut`.

Two things close the gap.  The announcement at the end of a move does,
`SyncedBut.tellAll`, and so does a spawn on any map, `SyncedBut.arrive`: those left
behind delete the entry, those on the new map set it, and the player itself starts
again from the new map.
-/

namespace MmoBackend

open Authentication Communication Maps Player

namespace World

/-! ## Folding what was written -/

/-- What a write to a socket says to the client. -/
def messageOf : Sent → Option (Message CString (ℤ × ℤ))
  | .packet packet => packet.message
  | .close _ => none

/-- The messages that went to a socket. -/
def messagesTo (fd : ℕ) (out : List (ℕ × Sent)) : List (Message CString (ℤ × ℤ)) :=
  out.filterMap fun e => if e.1 = fd then messageOf e.2 else none

/-- **What the client on a socket holds.** -/
def clientView (fd : ℕ) (out : List (ℕ × Sent)) : CString → Option (ℤ × ℤ) :=
  Message.replay (messagesTo fd out)

section Fold

variable {fd : ℕ} {out l l' : List (ℕ × Sent)}

theorem messagesTo_append : messagesTo fd (l ++ l') = messagesTo fd l ++ messagesTo fd l' :=
  List.filterMap_append

theorem messagesTo_eq_nil (h : ∀ e ∈ l, e.1 = fd → messageOf e.2 = none) :
    messagesTo fd l = [] := by
  refine List.filterMap_eq_nil_iff.mpr fun e he => ?_
  split
  · rename_i hfd
    exact h e he hfd
  · rfl

theorem clientView_append :
    clientView fd (out ++ l) = Message.applyAll (clientView fd out) (messagesTo fd l) := by
  rw [clientView, messagesTo_append, Message.replay_append]
  rfl

/-- What says nothing to a client changes nothing for it. -/
theorem clientView_quiet (h : ∀ e ∈ l, e.1 = fd → messageOf e.2 = none) :
    clientView fd (out ++ l) = clientView fd out := by
  rw [clientView_append, messagesTo_eq_nil h, Message.applyAll_nil]

end Fold

namespace Scene

variable (s : Scene)

/-! ## Scenes in order -/

/-- The id and the position of a player. -/
def entryOf (q : ℕ) : Option (CString × ℤ × ℤ) :=
  (s.player q).bind fun player => player.id.map fun k => (k, player.x, player.y)

/-- A player with the id `k` is listed on the map `m` and stands at `c`. -/
def Shows (m : ℕ) (k : CString) (c : ℤ × ℤ) : Prop := ∃ q ∈ s.roster m, s.entryOf q = some (k, c)

/-- A player has an id and a session, which has the player. -/
structure LoggedIn (q : ℕ) (player : Player) (k : CString) (sid : ℕ) (session : Session) :
    Prop where
  player_eq : s.player q = some player
  id_eq : player.id = some k
  session_eq : player.session = some sid
  get_eq : s.session sid = some session
  back : session.player = some q

/-- Whoever is listed on a map is logged in there, once, under an id of its own. -/
structure Orderly : Prop where
  nodup : ∀ m, (s.roster m).Nodup
  listed : ∀ m, ∀ q ∈ s.roster m, ∃ player k sid session, s.LoggedIn q player k sid session ∧
    player.map = some m ∧ player.refs = 2
  ids : ∀ m m' q q' k c c', q ∈ s.roster m → q' ∈ s.roster m' → s.entryOf q = some (k, c) →
    s.entryOf q' = some (k, c') → q = q'
  fds : ∀ sid sid' a b, s.session sid = some a → s.session sid' = some b → a.fd = b.fd → sid = sid'

/-- The clients agree with the scene, but perhaps for the entry `k` on the map `p` is
listed on. -/
def SyncedBut (p : ℕ) (k : CString) : Prop :=
  ∀ m, ∀ q ∈ s.roster m, ∀ fd, s.fdOf q = some fd → ∀ k' c, ¬(k' = k ∧ p ∈ s.roster m) →
    (clientView fd s.out k' = some c ↔ s.Shows m k' c)

/-- **The clients agree with the scene.** -/
def Synced : Prop :=
  ∀ m, ∀ q ∈ s.roster m, ∀ fd, s.fdOf q = some fd → ∀ k c,
    (clientView fd s.out k = some c ↔ s.Shows m k c)

variable {s} {p q o n m : ℕ} {player other : Player} {k k' : CString} {sid sid' : ℕ}
  {session session' : Session} {x y : ℤ}

theorem Synced.but (h : s.Synced) (p : ℕ) (k : CString) : s.SyncedBut p k :=
  fun m q hq fd hfd k' c _ => h m q hq fd hfd k' c

theorem LoggedIn.fdOf_eq (h : s.LoggedIn q player k sid session) :
    s.fdOf q = some session.fd := by
  simp [fdOf, h.player_eq, h.session_eq, h.get_eq]

theorem LoggedIn.entryOf_eq (h : s.LoggedIn q player k sid session) :
    s.entryOf q = some (k, player.x, player.y) := by
  simp [entryOf, h.player_eq, h.id_eq]

/-- Players on one socket are the same player. -/
theorem LoggedIn.eq_of_fd (hs : s.Orderly) (h : s.LoggedIn q player k sid session)
    (h' : s.LoggedIn p other k' sid' session') (hfd : session.fd = session'.fd) : q = p := by
  obtain rfl := hs.fds _ _ _ _ h.get_eq h'.get_eq hfd
  obtain rfl := Option.some.inj (h.get_eq.symm.trans h'.get_eq)
  exact Option.some.inj (h.back.symm.trans h'.back)

/-- Listed players on one socket are the same player. -/
theorem Orderly.eq_of_fdOf (hs : s.Orderly) {m' fd : ℕ} (hq : q ∈ s.roster m)
    (hp : p ∈ s.roster m') (hfd : s.fdOf q = some fd) (hfd' : s.fdOf p = some fd) : q = p := by
  obtain ⟨player, k, sid, session, h, -⟩ := hs.listed m q hq
  obtain ⟨other, k', sid', session', h', -⟩ := hs.listed m' p hp
  refine h.eq_of_fd hs h' (Option.some.inj ?_)
  rw [← h.fdOf_eq, ← h'.fdOf_eq, hfd, hfd']

/-- A player is listed on its own map only. -/
theorem Orderly.map_eq (hs : s.Orderly) (hq : q ∈ s.roster m) (hp : s.player q = some player) :
    player.map = some m := by
  obtain ⟨player', _, _, _, h, hmap, -⟩ := hs.listed m q hq
  obtain rfl := Option.some.inj (hp.symm.trans h.player_eq)
  exact hmap

/-! ## Packets to a list of players -/

/-- A packet for a list of players reaches each of them. -/
theorem applyAll_copies {l : List ℕ} {fd : ℕ} {packet : ServerPacket}
    {msg : Message CString (ℤ × ℤ)} {view : CString → Option (ℤ × ℤ)} (hq : q ∈ l)
    (hfd : s.fdOf q = some fd) (hmsg : packet.message = some msg) :
    Message.applyAll view (messagesTo fd (s.copies l packet)) = Message.apply view msg := by
  have hmem : msg ∈ messagesTo fd (s.copies l packet) :=
    List.mem_filterMap.mpr ⟨(fd, .packet packet), mem_copies.mpr ⟨q, hq, hfd, rfl⟩,
      (if_pos rfl).trans hmsg⟩
  refine Message.applyAll_const (List.ne_nil_of_mem hmem) fun msg' hmsg' => ?_
  obtain ⟨e, he, heq⟩ := List.mem_filterMap.mp hmsg'
  obtain ⟨_, -, -, hsent⟩ := mem_copies.mp he
  rw [Option.ite_none_right_eq_some, hsent] at heq
  exact Option.some.inj (heq.2.symm.trans hmsg)

/-- It reaches nobody else. -/
theorem messagesTo_copies_eq_nil {l : List ℕ} {fd : ℕ} {packet : ServerPacket}
    (h : ∀ q ∈ l, s.fdOf q ≠ some fd) : messagesTo fd (s.copies l packet) = [] := by
  refine messagesTo_eq_nil fun e he hfd => ?_
  obtain ⟨q, hq, hto, -⟩ := mem_copies.mp he
  exact absurd (hto.trans (congrArg some hfd)) (h q hq)

/-- The positions a player is sent. -/
theorem messagesTo_positions {l : List ℕ} {fd : ℕ} :
    messagesTo fd (s.positions l p fd)
      = ((l.filter fun q => q ≠ p).filterMap s.entryOf).map fun e => .set e.1 e.2 := by
  induction l with
  | nil => rfl
  | cons q l ih =>
    have hcons : s.positions (q :: l) p fd = s.positions [q] p fd ++ s.positions l p fd := by
      simp [positions]
    rw [hcons, messagesTo_append, ih]
    by_cases hq : q = p
    · simp [positions, messagesTo, hq]
    · rw [List.filter_cons_of_pos (by simpa using hq), List.filterMap_cons]
      cases hp : s.player q with
      | none => simp [positions, positionOf, entryOf, messagesTo, hq, hp]
      | some player =>
        cases hk : player.id with
        | none =>
          simp [positions, positionOf, entryOf, messagesTo, hq, hp, hk,
            packetTemplateUpdatePosition]
        | some k =>
          simp [positions, positionOf, entryOf, messagesTo, messageOf, hq, hp, hk,
            packetTemplateUpdatePosition, ServerPacket.message]

/-- Only the player is sent them. -/
theorem messagesTo_positions_eq_nil {l : List ℕ} {fd fd' : ℕ} (h : fd ≠ fd') :
    messagesTo fd' (s.positions l p fd) = [] := by
  refine messagesTo_eq_nil fun e he hfd => ?_
  obtain ⟨q, -, hq⟩ := List.mem_flatMap.mp he
  split at hq
  · exact absurd hq List.not_mem_nil
  · obtain ⟨packet, -, rfl⟩ := List.mem_map.mp hq
    exact absurd hfd h

/-! ## Changes that touch nobody on a map -/

/-- Nothing changes for whoever is listed, and no client hears of a player. -/
structure Apart (s s' : Scene) : Prop where
  roster : s'.roster = s.roster
  player : ∀ m, ∀ q ∈ s.roster m, s'.player q = s.player q
  session : ∀ m, ∀ q ∈ s.roster m, ∀ sid session, s.session sid = some session →
    session.player = some q → s'.session sid = some session
  fds : (∀ sid sid' a b, s.session sid = some a → s.session sid' = some b → a.fd = b.fd →
    sid = sid') → ∀ sid sid' a b, s'.session sid = some a → s'.session sid' = some b →
    a.fd = b.fd → sid = sid'
  view : ∀ fd, clientView fd s'.out = clientView fd s.out

section Apart

variable {s' s'' : Scene}

theorem Apart.trans (h : Apart s s') (h' : Apart s' s'') : Apart s s'' where
  roster := h'.roster.trans h.roster
  player m q hq := (h'.player m q (h.roster ▸ hq)).trans (h.player m q hq)
  session m q hq sid session hsid hback :=
    h'.session m q (h.roster ▸ hq) sid session (h.session m q hq sid session hsid hback) hback
  fds hs := h'.fds (h.fds hs)
  view fd := (h'.view fd).trans (h.view fd)

/-- A player that is on no map is written. -/
theorem Apart.setPlayer (hp : ∀ m, p ∉ s.roster m) (player : Player) :
    Apart s (s.setPlayer p player) where
  roster := rfl
  player m q hq := Function.update_of_ne (fun hqp : q = p => hp m (hqp ▸ hq)) _ _
  session _ _ _ _ _ h _ := h
  fds h := h
  view _ := rfl

/-- A session that has no player on a map is written. -/
theorem Apart.setSession (hsid : s.session sid = some session)
    (hback : ∀ m, ∀ q ∈ s.roster m, session.player ≠ some q) (hfd : session'.fd = session.fd) :
    Apart s (s.setSession sid session') where
  roster := rfl
  player _ _ _ := rfl
  session m q hq sid' a ha hqa := by
    refine (Function.update_of_ne (fun heq => ?_) _ _).trans ha
    rw [heq] at ha
    obtain rfl := Option.some.inj (hsid.symm.trans ha)
    exact hback m q hq hqa
  fds h := by
    have hold : ∀ j a, (s.setSession sid session').session j = some a →
        ∃ b, s.session j = some b ∧ b.fd = a.fd := by
      intro j a ha
      by_cases hj : j = sid
      · subst hj
        have ha' : Function.update s.session j (some session') j = some a := ha
        rw [Function.update_self] at ha'
        exact ⟨session, hsid, by rw [← Option.some.inj ha', hfd]⟩
      · exact ⟨a, (Function.update_of_ne hj _ _).symm.trans ha, rfl⟩
    intro j j' a b ha hb hab
    obtain ⟨a', ha', hfda⟩ := hold j a ha
    obtain ⟨b', hb', hfdb⟩ := hold j' b hb
    exact h j j' a' b' ha' hb' (by rw [hfda, hfdb, hab])
  view _ := rfl

/-- A session is added, on a socket of its own. -/
theorem Apart.newSession (hsid : s.session sid = none)
    (hfd : ∀ sid session, s.session sid = some session → session.fd ≠ session'.fd) :
    Apart s (s.setSession sid session') where
  roster := rfl
  player _ _ _ := rfl
  session m q hq sid' a ha hqa := by
    refine (Function.update_of_ne (fun heq => ?_) _ _).trans ha
    rw [heq, hsid] at ha
    exact absurd ha.symm (Option.some_ne_none a)
  fds h := by
    have hold : ∀ j a, (s.setSession sid session').session j = some a →
        j = sid ∧ a = session' ∨ j ≠ sid ∧ s.session j = some a := by
      intro j a ha
      by_cases hj : j = sid
      · subst hj
        have ha' : Function.update s.session j (some session') j = some a := ha
        rw [Function.update_self] at ha'
        exact Or.inl ⟨rfl, (Option.some.inj ha').symm⟩
      · exact Or.inr ⟨hj, (Function.update_of_ne hj _ _).symm.trans ha⟩
    intro j j' a b ha hb hab
    rcases hold j a ha with ⟨rfl, rfl⟩ | ⟨-, ha'⟩
    · rcases hold j' b hb with ⟨rfl, -⟩ | ⟨-, hb'⟩
      · rfl
      · exact absurd hab.symm (hfd j' b hb')
    · rcases hold j' b hb with ⟨rfl, rfl⟩ | ⟨-, hb'⟩
      · exact absurd hab (hfd j a ha')
      · exact h j j' a b ha' hb' hab
  view _ := rfl

/-- Something is written that says nothing about players. -/
theorem Apart.emit {l : List (ℕ × Sent)} (h : ∀ e ∈ l, messageOf e.2 = none) :
    Apart s (s.emit l) where
  roster := rfl
  player _ _ _ := rfl
  session _ _ _ _ _ h _ := h
  fds h := h
  view _ := clientView_quiet fun e he _ => h e he

theorem LoggedIn.congr (h : s.LoggedIn q player k sid session) (hp : s'.player q = s.player q)
    (hsid : s'.session sid = some session) : s'.LoggedIn q player k sid session :=
  ⟨hp.trans h.player_eq, h.id_eq, h.session_eq, hsid, h.back⟩

theorem entryOf_congr (h : s'.player q = s.player q) : s'.entryOf q = s.entryOf q := by
  rw [entryOf, entryOf, h]

theorem Orderly.apart (hs : s.Orderly) (h : Apart s s') : s'.Orderly where
  nodup m := h.roster ▸ hs.nodup m
  listed m q hq := by
    rw [h.roster] at hq
    obtain ⟨player, k, sid, session, hlogged, hrest⟩ := hs.listed m q hq
    exact ⟨player, k, sid, session, hlogged.congr (h.player m q hq)
      (h.session m q hq sid session hlogged.get_eq hlogged.back), hrest⟩
  ids m m' q q' k c c' hq hq' hk hk' := by
    rw [h.roster] at hq hq'
    rw [entryOf_congr (h.player m q hq)] at hk
    rw [entryOf_congr (h.player m' q' hq')] at hk'
    exact hs.ids m m' q q' k c c' hq hq' hk hk'
  fds := h.fds hs.fds

theorem Orderly.fdOf_apart (hs : s.Orderly) (h : Apart s s') (hq : q ∈ s.roster m) :
    s'.fdOf q = s.fdOf q := by
  obtain ⟨player, k, sid, session, hlogged, -⟩ := hs.listed m q hq
  rw [hlogged.fdOf_eq, (hlogged.congr (h.player m q hq)
    (h.session m q hq sid session hlogged.get_eq hlogged.back)).fdOf_eq]

theorem Synced.apart (hs : s.Orderly) (hsync : s.Synced) (h : Apart s s') : s'.Synced := by
  intro m q hq fd hfd k c
  have hroster := h.roster
  rw [hroster] at hq
  rw [hs.fdOf_apart h hq] at hfd
  rw [h.view fd, hsync m q hq fd hfd k c, Shows, Shows, hroster]
  refine exists_congr fun q' => and_congr_right fun hq' => ?_
  rw [entryOf_congr (h.player m q' hq')]

end Apart

/-! ## A move on a map -/

/-- The player `p` stands elsewhere. -/
def place (s : Scene) (p : ℕ) (player : Player) (x y : ℤ) : Scene :=
  s.setPlayer p { player with x := x, y := y }

theorem player_place_self : (s.place p player x y).player p = some { player with x := x, y := y } :=
  Function.update_self _ _ _

theorem player_place_of_ne (h : q ≠ p) : (s.place p player x y).player q = s.player q :=
  Function.update_of_ne h _ _

theorem LoggedIn.place (h : s.LoggedIn p player k sid session) (x y : ℤ) :
    (s.place p player x y).LoggedIn p { player with x := x, y := y } k sid session :=
  ⟨player_place_self, h.id_eq, h.session_eq, h.get_eq, h.back⟩

/-- The key of an entry does not change. -/
theorem entryOf_place {c : ℤ × ℤ} (hp : s.player p = some player)
    (h : (s.place p player x y).entryOf q = some (k, c)) : ∃ c', s.entryOf q = some (k, c') := by
  by_cases hq : q = p
  · subst hq
    rw [entryOf, player_place_self, Option.bind_some, Option.map_eq_some_iff] at h
    obtain ⟨id, hid, heq⟩ := h
    obtain ⟨rfl, -⟩ := Prod.mk.inj heq
    have hid' : player.id = some id := hid
    exact ⟨(player.x, player.y), by simp [entryOf, hp, hid']⟩
  · rw [entryOf_congr (player_place_of_ne hq)] at h
    exact ⟨c, h⟩

theorem Orderly.place (hs : s.Orderly) (hp : s.player p = some player) (x y : ℤ) :
    (s.place p player x y).Orderly where
  nodup := hs.nodup
  listed m q hq := by
    obtain ⟨player', k, sid, session, hlogged, hrest⟩ := hs.listed m q hq
    by_cases hqp : q = p
    · subst hqp
      obtain rfl := Option.some.inj (hp.symm.trans hlogged.player_eq)
      exact ⟨_, k, sid, session, hlogged.place x y, hrest⟩
    · exact ⟨player', k, sid, session,
        hlogged.congr (player_place_of_ne hqp) hlogged.get_eq, hrest⟩
  ids m m' q q' k c c' hq hq' hk hk' := by
    obtain ⟨c₁, hk₁⟩ := entryOf_place hp hk
    obtain ⟨c₂, hk₂⟩ := entryOf_place hp hk'
    exact hs.ids m m' q q' k c₁ c₂ hq hq' hk₁ hk₂
  fds := hs.fds

/-- After the player stands elsewhere the clients lag behind by its entry. -/
theorem SyncedBut.place (hsync : s.SyncedBut p k) (hp : s.player p = some player)
    (hk : player.id = some k) (x y : ℤ) : (s.place p player x y).SyncedBut p k := by
  intro m q hq fd hfd k' c hne
  have hfd' : s.fdOf q = some fd := by
    have hsame : (s.place p player x y).fdOf = s.fdOf := fdOf_setPlayer hp rfl
    rw [← hsame]
    exact hfd
  refine (hsync m q hq fd hfd' k' c hne).trans (exists_congr fun q' =>
    and_congr_right fun hq' => ?_)
  by_cases hqp : q' = p
  · subst hqp
    have hkey : k' ≠ k := fun heq => hne ⟨heq, hq'⟩
    constructor
    · intro h
      simp [entryOf, hp, hk] at h
      exact absurd h.1.symm hkey
    · intro h
      simp [entryOf, player_place_self, hk] at h
      exact absurd h.1.symm hkey
  · rw [entryOf_congr (player_place_of_ne hqp)]

/-- **The announcement** of a player on its map closes the gap. -/
theorem SyncedBut.tellAll (hs : s.Orderly) (hsync : s.SyncedBut p k)
    (hp : s.LoggedIn p player k sid session) (hm : p ∈ s.roster m) :
    (s.tellAll (s.roster m) (.updatePosition k player.x player.y)).Synced := by
  intro m' q hq fd hfd k' c
  have hq' : q ∈ s.roster m' := hq
  have hfd' : s.fdOf q = some fd := hfd
  show clientView fd (s.out ++ _) k' = some c ↔ s.Shows m' k' c
  rw [clientView_append]
  obtain ⟨other, _, _, _, hother, hmap, -⟩ := hs.listed m' q hq'
  by_cases hmm : m' = m
  · subst hmm
    rw [applyAll_copies hq' hfd' rfl]
    by_cases hk : k' = k
    · subst hk
      rw [Message.apply_set_self, Option.some.injEq]
      constructor
      · rintro rfl
        exact ⟨p, hm, hp.entryOf_eq⟩
      · rintro ⟨q', hq', hk'⟩
        obtain rfl := hs.ids m' m' q' p k' _ _ hq' hm hk' hp.entryOf_eq
        exact (Prod.mk.inj (Option.some.inj (hp.entryOf_eq.symm.trans hk'))).2
    · rw [Message.apply_set_of_ne hk]
      exact hsync m' q hq' fd hfd' k' c fun h => hk h.1
  · have hnot : ∀ q' ∈ s.roster m, s.fdOf q' ≠ some fd := by
      intro q' hq₁ hfd₁
      obtain rfl := hs.eq_of_fdOf hq₁ hq' hfd₁ hfd'
      exact hmm (Option.some.inj (hmap.symm.trans (hs.map_eq hq₁ hother.player_eq)))
    rw [messagesTo_copies_eq_nil hnot, Message.applyAll_nil]
    refine hsync m' q hq' fd hfd' k' c fun h => hmm ?_
    exact Option.some.inj ((hs.map_eq h.2 hp.player_eq).symm.trans (hs.map_eq hm hp.player_eq))

end Scene
end World
end MmoBackend
