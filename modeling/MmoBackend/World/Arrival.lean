import MmoBackend.World.ClientView

/-!
# Spawns and the clients

A spawn takes a player off one map and puts it on another, which may be the same one,
and three groups of clients have to learn of it.  Those left behind delete its entry.
Those on the new map set it.  The player itself empties its view and is sent everybody
who is on the new map.

`SyncedBut.arrive` is the result: whatever the clients held of the player before, after
a spawn all of them agree with the scene.
-/

namespace MmoBackend

open Authentication Communication Maps Player

namespace World
namespace Scene

variable {s : Scene} {p q o n m : ℕ} {player other : Player} {k k' : CString} {sid sid' : ℕ}
  {session session' : Session} {x y : ℤ} {packet : ServerPacket}

/-! ## Who is listed after a spawn -/

theorem player_settle_self : (s.settle p o n player x y).player p
    = some { player with refs := 2, map := some n, x := x, y := y } := Function.update_self _ _ _

theorem player_settle_of_ne (h : q ≠ p) :
    (s.settle p o n player x y).player q = s.player q :=
  (Function.update_of_ne h _ _).trans (Function.update_of_ne h _ _)

/-- A player that is spawned is listed on its new map. -/
theorem mem_roster_arrive {fd : ℕ} : p ∈ (s.arrive p o n player k fd x y packet).roster n := by
  have hcons : (s.settle p o n player x y).roster n
      = p :: Function.update s.roster o ((s.roster o).erase p) n := Function.update_self _ _ _
  have hmem : p ∈ (s.settle p o n player x y).roster n := by
    rw [hcons]
    exact List.mem_cons_self
  exact hmem

theorem LoggedIn.settle (h : s.LoggedIn p player k sid session) (o n : ℕ) (x y : ℤ) :
    (s.settle p o n player x y).LoggedIn p
      { player with refs := 2, map := some n, x := x, y := y } k sid session :=
  ⟨player_settle_self, h.id_eq, h.session_eq, h.get_eq, h.back⟩

/-- Who is listed once the player has left its map. -/
theorem mem_left (hs : s.Orderly) (hp : s.player p = some player) (ho : player.map = some o) :
    q ∈ Function.update s.roster o ((s.roster o).erase p) m ↔ q ≠ p ∧ q ∈ s.roster m := by
  by_cases hm : m = o
  · subst hm
    rw [Function.update_self, (hs.nodup m).mem_erase_iff]
  · rw [Function.update_of_ne hm]
    refine ⟨fun hq => ⟨?_, hq⟩, And.right⟩
    rintro rfl
    exact hm (Option.some.inj ((hs.map_eq hq hp).symm.trans ho))

/-- Who is listed after a spawn. -/
theorem mem_roster_settle (hs : s.Orderly) (hp : s.player p = some player)
    (ho : player.map = some o) : q ∈ (s.settle p o n player x y).roster m ↔
      m = n ∧ q = p ∨ q ≠ p ∧ q ∈ s.roster m := by
  show q ∈ Function.update (Function.update s.roster o ((s.roster o).erase p)) n
    (p :: Function.update s.roster o ((s.roster o).erase p) n) m ↔ _
  by_cases hm : m = n
  · subst hm
    rw [Function.update_self, List.mem_cons, mem_left hs hp ho]
    exact or_congr_left ⟨fun h => ⟨rfl, h⟩, And.right⟩
  · rw [Function.update_of_ne hm, mem_left hs hp ho]
    simp [hm]

theorem Orderly.settle (hs : s.Orderly) (hp : s.LoggedIn p player k sid session)
    (ho : player.map = some o)
    (hk : ∀ m q c, q ∈ s.roster m → s.entryOf q = some (k, c) → q = p) (n : ℕ) (x y : ℤ) :
    (s.settle p o n player x y).Orderly where
  nodup m := by
    have hleft : (Function.update s.roster o ((s.roster o).erase p) m).Nodup := by
      by_cases hm : m = o
      · subst hm
        rw [Function.update_self]
        exact (hs.nodup m).erase p
      · rw [Function.update_of_ne hm]
        exact hs.nodup m
    show (Function.update (Function.update s.roster o ((s.roster o).erase p)) n
      (p :: Function.update s.roster o ((s.roster o).erase p) n) m).Nodup
    by_cases hm : m = n
    · subst hm
      rw [Function.update_self, List.nodup_cons]
      exact ⟨fun h => ((mem_left hs hp.player_eq ho).mp h).1 rfl, hleft⟩
    · rw [Function.update_of_ne hm]
      exact hleft
  listed m q hq := by
    rcases (mem_roster_settle hs hp.player_eq ho).mp hq with ⟨rfl, rfl⟩ | ⟨hne, hq⟩
    · exact ⟨_, k, sid, session, hp.settle o m x y, rfl, rfl⟩
    · obtain ⟨other, k', sid', session', hother, hrest⟩ := hs.listed m q hq
      exact ⟨other, k', sid', session',
        hother.congr (player_settle_of_ne hne) hother.get_eq, hrest⟩
  ids m m' q q' k' c c' hq hq' hk₁ hk₂ := by
    have hself := (hp.settle o n x y).entryOf_eq
    rcases (mem_roster_settle hs hp.player_eq ho).mp hq with ⟨-, rfl⟩ | ⟨hne, hq₁⟩
    · rcases (mem_roster_settle hs hp.player_eq ho).mp hq' with ⟨-, rfl⟩ | ⟨hne', hq₂⟩
      · rfl
      · rw [entryOf_congr (player_settle_of_ne hne')] at hk₂
        obtain ⟨rfl, -⟩ := Prod.mk.inj (Option.some.inj (hself.symm.trans hk₁))
        exact (hk m' q' c' hq₂ hk₂).symm
    · rw [entryOf_congr (player_settle_of_ne hne)] at hk₁
      rcases (mem_roster_settle hs hp.player_eq ho).mp hq' with ⟨-, rfl⟩ | ⟨hne', hq₂⟩
      · obtain ⟨rfl, -⟩ := Prod.mk.inj (Option.some.inj (hself.symm.trans hk₂))
        exact hk m q c hq₁ hk₁
      · rw [entryOf_congr (player_settle_of_ne hne')] at hk₂
        exact hs.ids m m' q q' k' c c' hq₁ hq₂ hk₁ hk₂
  fds := hs.fds

/-- What a map shows after a spawn. -/
theorem shows_settle (hs : s.Orderly) (hp : s.LoggedIn p player k sid session)
    (ho : player.map = some o)
    (hk : ∀ m q c, q ∈ s.roster m → s.entryOf q = some (k, c) → q = p) {c : ℤ × ℤ} :
    (s.settle p o n player x y).Shows m k' c ↔
      m = n ∧ k' = k ∧ c = (x, y) ∨ k' ≠ k ∧ s.Shows m k' c := by
  have hself := (hp.settle o n x y).entryOf_eq
  constructor
  · rintro ⟨q, hq, hentry⟩
    rcases (mem_roster_settle hs hp.player_eq ho).mp hq with ⟨rfl, rfl⟩ | ⟨hne, hq⟩
    · obtain ⟨rfl, rfl⟩ := Prod.mk.inj (Option.some.inj (hself.symm.trans hentry))
      exact Or.inl ⟨rfl, rfl, rfl⟩
    · rw [entryOf_congr (player_settle_of_ne hne)] at hentry
      refine Or.inr ⟨?_, q, hq, hentry⟩
      rintro rfl
      exact hne (hk m q c hq hentry)
  · rintro (⟨rfl, rfl, rfl⟩ | ⟨hne, q, hq, hentry⟩)
    · exact ⟨p, (mem_roster_settle hs hp.player_eq ho).mpr (Or.inl ⟨rfl, rfl⟩), hself⟩
    · have hqp : q ≠ p := by
        rintro rfl
        exact hne (Prod.mk.inj (Option.some.inj (hp.entryOf_eq.symm.trans hentry))).1.symm
      refine ⟨q, (mem_roster_settle hs hp.player_eq ho).mpr (Or.inr ⟨hqp, hq⟩), ?_⟩
      rw [entryOf_congr (player_settle_of_ne hqp), hentry]

/-! ## What each client hears -/

/-- What a spawn writes to the socket of another player. -/
theorem clientView_arrive_of_ne {fd fd' : ℕ} (hne : fd ≠ fd') :
    clientView fd' (s.arrive p o n player k fd x y packet).out
      = Message.applyAll (Message.applyAll (clientView fd' s.out)
          (messagesTo fd' (s.leavings p o k)))
          (messagesTo fd' ((s.settle p o n player x y).copies
            ((s.settle p o n player x y).roster n) (.updatePosition k x y))) := by
  have hout : (s.arrive p o n player k fd x y packet).out = s.out ++ ((fd, .packet packet) ::
      s.leavings p o k ++ (s.settle p o n player x y).copies
        ((s.settle p o n player x y).roster n) (.updatePosition k x y) ++
      (s.settle p o n player x y).positions ((s.settle p o n player x y).roster n) p fd) := rfl
  have hcons : messagesTo fd' ((fd, .packet packet) :: s.leavings p o k)
      = messagesTo fd' (s.leavings p o k) := List.filterMap_cons_none (if_neg hne)
  rw [hout, clientView_append, messagesTo_append, messagesTo_positions_eq_nil hne,
    List.append_nil, messagesTo_append, hcons, Message.applyAll_append]

/-- What a spawn writes to the socket of the player itself. -/
theorem clientView_arrive_self (hs : s.Orderly) (hp : s.LoggedIn p player k sid session)
    (ho : player.map = some o) (hpacket : packet.message = some .clear) :
    clientView session.fd (s.arrive p o n player k session.fd x y packet).out
      = Message.applyAll (Message.apply (fun _ => none) (.set k (x, y)))
          (((((s.settle p o n player x y).roster n).filter fun q => q ≠ p).filterMap
            (s.settle p o n player x y).entryOf).map fun e => .set e.1 e.2) := by
  have hout : (s.arrive p o n player k session.fd x y packet).out = s.out ++
      ((session.fd, .packet packet) :: s.leavings p o k ++ (s.settle p o n player x y).copies
        ((s.settle p o n player x y).roster n) (.updatePosition k x y) ++
      (s.settle p o n player x y).positions ((s.settle p o n player x y).roster n) p session.fd) :=
    rfl
  have hcons : messagesTo session.fd ((session.fd, .packet packet) :: s.leavings p o k)
      = .clear :: messagesTo session.fd (s.leavings p o k) :=
    List.filterMap_cons_some ((if_pos rfl).trans hpacket)
  -- those left behind are told on other sockets
  have hleave : messagesTo session.fd (s.leavings p o k) = [] := by
    rw [leavings]
    split
    · refine messagesTo_copies_eq_nil fun q hq hfd => ?_
      obtain ⟨hne, hq⟩ := (hs.nodup o).mem_erase_iff.mp hq
      obtain ⟨other, k', sid', session', hother, -⟩ := hs.listed o q hq
      exact hne (hother.eq_of_fd hs hp (Option.some.inj (hother.fdOf_eq.symm.trans hfd)))
    · rfl
  have hmem : p ∈ (s.settle p o n player x y).roster n :=
    (mem_roster_settle hs hp.player_eq ho).mpr (Or.inl ⟨rfl, rfl⟩)
  rw [hout, clientView_append, messagesTo_append, messagesTo_append, hcons, hleave,
    messagesTo_positions, Message.applyAll_append, Message.applyAll_append, Message.applyAll_cons,
    Message.applyAll_nil, applyAll_copies hmem (hp.settle o n x y).fdOf_eq rfl]
  rfl

/-- The leaving, for another player on some map. -/
theorem applyAll_leavings (hs : s.Orderly) (hp : s.player p = some player)
    (ho : player.map = some o) (hq : q ∈ s.roster m) (hne : q ≠ p) {fd : ℕ}
    (hfd : s.fdOf q = some fd) (view : CString → Option (ℤ × ℤ)) :
    Message.applyAll view (messagesTo fd (s.leavings p o k))
      = if p ∈ s.roster m then Message.apply view (.delete k) else view := by
  rw [leavings]
  by_cases hleft : p ∈ s.roster m
  · obtain rfl := Option.some.inj (ho.symm.trans (hs.map_eq hleft hp))
    rw [if_pos hleft, if_pos hleft,
      applyAll_copies ((hs.nodup o).mem_erase_iff.mpr ⟨hne, hq⟩) hfd rfl]
  · rw [if_neg hleft]
    split
    · rename_i hpo
      rw [messagesTo_copies_eq_nil, Message.applyAll_nil]
      intro q' hq' hfd'
      obtain ⟨-, hq'⟩ := (hs.nodup o).mem_erase_iff.mp hq'
      obtain rfl := hs.eq_of_fdOf hq' hq hfd' hfd
      obtain ⟨other, _, _, _, hother, hmap, -⟩ := hs.listed m q' hq
      have hm := hmap.symm.trans (hs.map_eq hq' hother.player_eq)
      exact hleft (Option.some.inj hm ▸ hpo)
    · rfl

/-- The position, for another player on some map. -/
theorem applyAll_arrival (hs : (s.settle p o n player x y).Orderly)
    (hq : q ∈ (s.settle p o n player x y).roster m) {fd : ℕ}
    (hfd : (s.settle p o n player x y).fdOf q = some fd) (view : CString → Option (ℤ × ℤ)) :
    Message.applyAll view (messagesTo fd ((s.settle p o n player x y).copies
        ((s.settle p o n player x y).roster n) (.updatePosition k x y)))
      = if m = n then Message.apply view (.set k (x, y)) else view := by
  by_cases hm : m = n
  · subst hm
    rw [if_pos rfl, applyAll_copies hq hfd rfl]
  · rw [if_neg hm, messagesTo_copies_eq_nil, Message.applyAll_nil]
    intro q' hq' hfd'
    obtain rfl := hs.eq_of_fdOf hq' hq hfd' hfd
    obtain ⟨other, _, _, _, hother, hmap, -⟩ := hs.listed m q' hq
    exact hm (Option.some.inj (hmap.symm.trans (hs.map_eq hq' hother.player_eq)))

theorem Orderly.emit (hs : s.Orderly) (l : List (ℕ × Sent)) : (s.emit l).Orderly where
  nodup := hs.nodup
  listed m q hq := by
    obtain ⟨player, k, sid, session, hlogged, hrest⟩ := hs.listed m q hq
    exact ⟨player, k, sid, session, hlogged.congr rfl hlogged.get_eq, hrest⟩
  ids := hs.ids
  fds := hs.fds

/-! ## The clients after a spawn -/

/-- The player itself starts from nothing and is sent everybody on the map. -/
theorem view_arrive_self (hs : s.Orderly) (hp : s.LoggedIn p player k sid session)
    (ho : player.map = some o)
    (hk : ∀ m q c, q ∈ s.roster m → s.entryOf q = some (k, c) → q = p)
    (hpacket : packet.message = some .clear) {c : ℤ × ℤ} :
    clientView session.fd (s.arrive p o n player k session.fd x y packet).out k' = some c ↔
      (s.settle p o n player x y).Shows n k' c := by
  have ht := hs.settle hp ho hk n x y
  have hself := (hp.settle o n x y).entryOf_eq
  have hlisted : p ∈ (s.settle p o n player x y).roster n :=
    (mem_roster_settle hs hp.player_eq ho).mpr (Or.inl ⟨rfl, rfl⟩)
  -- the entries it is sent are those of the others
  have hmem : ∀ k' c, (k', c) ∈ (((s.settle p o n player x y).roster n).filter
      fun q => q ≠ p).filterMap (s.settle p o n player x y).entryOf ↔
        k' ≠ k ∧ (s.settle p o n player x y).Shows n k' c := by
    intro k' c
    simp only [List.mem_filterMap, List.mem_filter, decide_eq_true_eq]
    constructor
    · rintro ⟨q, ⟨hq, hne⟩, hentry⟩
      refine ⟨?_, q, hq, hentry⟩
      rintro rfl
      exact hne (ht.ids n n q p k' _ _ hq hlisted hentry hself)
    · rintro ⟨hne, q, hq, hentry⟩
      refine ⟨q, ⟨hq, ?_⟩, hentry⟩
      rintro rfl
      exact hne (Prod.mk.inj (Option.some.inj (hentry.symm.trans hself))).1
  rw [clientView_arrive_self hs hp ho hpacket, Message.applyAll_sets ?_, hmem]
  · by_cases hkk : k' = k
    · subst hkk
      have hnot : k' ∉ ((((s.settle p o n player x y).roster n).filter
          fun q => q ≠ p).filterMap (s.settle p o n player x y).entryOf).map Prod.fst := by
        intro hin
        obtain ⟨⟨k₁, c₁⟩, hentry, rfl⟩ := List.mem_map.mp hin
        exact ((hmem k₁ c₁).mp hentry).1 rfl
      rw [Message.apply_set_self, shows_settle hs hp ho hk, Option.some.injEq]
      simp only [ne_eq, not_true_eq_false, false_and, false_or, or_false, true_and]
      exact ⟨fun h => h.2.symm, fun h => ⟨hnot, h.symm⟩⟩
    · rw [Message.apply_set_of_ne hkk]
      simp [hkk]
  · rintro ⟨k₁, c₁⟩ h₁ ⟨k₂, c₂⟩ h₂ hkeys
    obtain rfl : k₁ = k₂ := hkeys
    obtain ⟨q₁, hq₁, hentry₁⟩ := ((hmem k₁ c₁).mp h₁).2
    obtain ⟨q₂, hq₂, hentry₂⟩ := ((hmem k₁ c₂).mp h₂).2
    obtain rfl := ht.ids n n q₁ q₂ k₁ c₁ c₂ hq₁ hq₂ hentry₁ hentry₂
    exact Option.some.inj (hentry₁.symm.trans hentry₂)

/-- Another player is told of the leaving, of the arrival, of both or of neither. -/
theorem view_arrive_of_ne (hs : s.Orderly) (hsync : s.SyncedBut p k)
    (hp : s.LoggedIn p player k sid session) (ho : player.map = some o)
    (hk : ∀ m q c, q ∈ s.roster m → s.entryOf q = some (k, c) → q = p) (hq : q ∈ s.roster m)
    (hne : q ≠ p) {fd : ℕ} (hfd : s.fdOf q = some fd) {c : ℤ × ℤ} :
    clientView fd (s.arrive p o n player k session.fd x y packet).out k' = some c ↔
      (s.settle p o n player x y).Shows m k' c := by
  have hother : session.fd ≠ fd := by
    rintro rfl
    obtain ⟨other, k₁, sid₁, session₁, hlogged, -⟩ := hs.listed m q hq
    exact hne (hlogged.eq_of_fd hs hp (Option.some.inj (hlogged.fdOf_eq.symm.trans hfd)))
  have hq' : q ∈ (s.settle p o n player x y).roster m :=
    (mem_roster_settle hs hp.player_eq ho).mpr (Or.inr ⟨hne, hq⟩)
  have hfd' : (s.settle p o n player x y).fdOf q = some fd := by
    rw [fdOf_settle hp.player_eq]
    exact hfd
  rw [clientView_arrive_of_ne hother, applyAll_leavings hs hp.player_eq ho hq hne hfd,
    applyAll_arrival (hs.settle hp ho hk n x y) hq' hfd', shows_settle hs hp ho hk]
  have hview := hsync m q hq fd hfd k' c
  by_cases hkk : k' = k
  · -- its entry is the one that changes
    subst hkk
    have hnot : p ∉ s.roster m → ¬s.Shows m k' c := by
      rintro hpm ⟨q', hmem, hentry⟩
      exact hpm (hk m q' c hmem hentry ▸ hmem)
    by_cases hm : m = n
    · rw [if_pos hm, Message.apply_set_self]
      simp [hm, eq_comm]
    · rw [if_neg hm]
      split
      · simp [hm]
      · rename_i hpm
        simp only [hm, false_and, ne_eq, not_true_eq_false, or_false, iff_false]
        exact fun h => hnot hpm ((hview fun h' => hpm h'.2).mp h)
  · -- every other entry stays
    rw [← hview fun h => hkk h.1]
    have hinner : ∀ view : CString → Option (ℤ × ℤ),
        (if p ∈ s.roster m then Message.apply view (.delete k) else view) k' = view k' := by
      intro view
      split
      · exact Message.apply_delete_of_ne hkk
      · rfl
    by_cases hm : m = n
    · rw [if_pos hm, Message.apply_set_of_ne hkk, hinner]
      simp [hkk]
    · rw [if_neg hm, hinner]
      simp [hkk]

/-- **A spawn** closes the gap. -/
theorem SyncedBut.arrive (hs : s.Orderly) (hsync : s.SyncedBut p k)
    (hp : s.LoggedIn p player k sid session) (ho : player.map = some o)
    (hk : ∀ m q c, q ∈ s.roster m → s.entryOf q = some (k, c) → q = p)
    (hpacket : packet.message = some .clear) :
    (s.arrive p o n player k session.fd x y packet).Synced := by
  intro m q hq fd hfd k' c
  have hq' : q ∈ (s.settle p o n player x y).roster m := hq
  have hfd' : (s.settle p o n player x y).fdOf q = some fd := hfd
  have hshows : (s.arrive p o n player k session.fd x y packet).Shows m k' c ↔
      (s.settle p o n player x y).Shows m k' c := Iff.rfl
  rw [hshows]
  rcases (mem_roster_settle hs hp.player_eq ho).mp hq' with ⟨rfl, rfl⟩ | ⟨hne, hq₁⟩
  · obtain rfl := Option.some.inj ((hp.settle o m x y).fdOf_eq.symm.trans hfd')
    exact view_arrive_self hs hp ho hk hpacket
  · rw [fdOf_settle hp.player_eq] at hfd'
    exact view_arrive_of_ne hs hsync hp ho hk hq₁ hne hfd'

end Scene
end World
end MmoBackend
