import Mathlib.Algebra.BigOperators.Group.Finset.Basic
import MmoBackend.Library.Trace
import MmoBackend.World.MoveRule
import MmoBackend.World.Turns

/-!
# Players and the lists of the maps

A player that is logged in is listed once, on the map it points to, and its references are
its own and the one of the list.  Nothing has to be known about the maps or the records
for this.

In the middle of a login the player is listed nowhere yet, and then it is listed once at
most: `Listed` has the number as an argument.  A shift takes the player from one list to
another and moves nobody else, `OnWay.shift`, so every move and every spawn keeps `OnWay`,
and every step of the server keeps `Membership`.
-/

namespace MmoBackend

open Authentication Communication Db Maps Player

namespace World

namespace Scene

/-! ## One player -/

/-- The player `p` is on the list of its map `c` times, once at most, and on no other
list. -/
structure Listed (s : Scene) (p : ℕ) (player : Player) (m c : ℕ) : Prop where
  player_eq : s.player p = some player
  map_eq : player.map = some m
  refs_eq : player.refs = 1 + c
  le_one : c ≤ 1
  count_eq : (s.roster m).count p = c
  elsewhere : ∀ m' ≠ m, p ∉ s.roster m'

/-- Only the player `p` is moved. -/
structure MovesOnly (p : ℕ) (s s' : Scene) : Prop where
  session : s'.session = s.session
  player : ∀ q ≠ p, s'.player q = s.player q
  count : ∀ q ≠ p, ∀ m, (s'.roster m).count q = (s.roster m).count q

section One

variable {s s' s'' : Scene} {p q m n o c : ℕ} {player : Player} {x y : ℤ}

theorem MovesOnly.refl (p : ℕ) (s : Scene) : MovesOnly p s s :=
  ⟨rfl, fun _ _ => rfl, fun _ _ _ => rfl⟩

theorem MovesOnly.trans (h : MovesOnly p s s') (h' : MovesOnly p s' s'') : MovesOnly p s s'' where
  session := h'.session.trans h.session
  player q hq := (h'.player q hq).trans (h.player q hq)
  count q hq m := (h'.count q hq m).trans (h.count q hq m)

/-- Who else is listed stays listed. -/
theorem MovesOnly.mem_roster_iff (h : MovesOnly p s s') (hq : q ≠ p) :
    q ∈ s'.roster m ↔ q ∈ s.roster m := by
  rw [← List.count_pos_iff, ← List.count_pos_iff, h.count q hq]

theorem MovesOnly.setPlayer (p : ℕ) (player : Player) (s : Scene) :
    MovesOnly p s (s.setPlayer p player) :=
  ⟨rfl, fun _ hq => Function.update_of_ne hq _ _, fun _ _ _ => rfl⟩

/-- Nobody else is touched by a change of the map. -/
theorem MovesOnly.relocate (s : Scene) (p o n : ℕ) (player : Player) :
    MovesOnly p s (s.relocate p o n player) := by
  refine ⟨rfl, fun q hq => Function.update_of_ne hq _ _, fun q hq m => ?_⟩
  have herase : ∀ k, (Function.update s.roster o ((s.roster o).erase p) k).count q
      = (s.roster k).count q := by
    intro k
    by_cases hk : k = o
    · rw [hk, Function.update_self, List.count_erase_of_ne hq]
    · rw [Function.update_of_ne hk]
  show (Function.update (Function.update s.roster o ((s.roster o).erase p)) n
    (p :: Function.update s.roster o ((s.roster o).erase p) n) m).count q = (s.roster m).count q
  by_cases hm : m = n
  · rw [hm, Function.update_self, List.count_cons_of_ne (Ne.symm hq), herase]
  · rw [Function.update_of_ne hm, herase]

theorem Listed.mem_iff (h : s.Listed p player m c) : p ∈ s.roster m ↔ c = 1 := by
  have hle := h.le_one
  rw [← List.count_pos_iff, h.count_eq]
  omega

/-- The player is listed where it points to, and its references say whether it is. -/
theorem Listed.refs_ite (h : s.Listed p player m c) :
    player.refs = if p ∈ s.roster m then 2 else 1 := by
  have hle := h.le_one
  rw [h.refs_eq]
  by_cases hc : c = 1
  · rw [if_pos (h.mem_iff.mpr hc), hc]
    rfl
  · obtain rfl : c = 0 := by omega
    rw [if_neg fun hm => hc (h.mem_iff.mp hm)]
    rfl

/-- The player is written, keeping its map and its references. -/
theorem Listed.setPlayer (h : s.Listed p player m c) {player' : Player}
    (hmap : player'.map = player.map) (hrefs : player'.refs = player.refs) :
    (s.setPlayer p player').Listed p player' m c :=
  ⟨Function.update_self _ _ _, hmap.trans h.map_eq, hrefs.trans h.refs_eq, h.le_one, h.count_eq,
    h.elsewhere⟩

/-- **A change of the map** lists the player once, on the new map. -/
theorem Listed.relocate (h : s.Listed p player o c) (n : ℕ) :
    (s.relocate p o n player).Listed p { player with refs := 2, map := some n } n 1 := by
  have hgone : ∀ m, p ∉ Function.update s.roster o ((s.roster o).erase p) m := by
    intro m
    by_cases hm : m = o
    · rw [hm, Function.update_self, ← List.count_pos_iff, List.count_erase_self, h.count_eq]
      have hle := h.le_one
      omega
    · rw [Function.update_of_ne hm]
      exact h.elsewhere m hm
  refine ⟨Function.update_self _ _ _, rfl, rfl, le_refl 1, ?_, fun m hm => ?_⟩
  · show (Function.update (Function.update s.roster o ((s.roster o).erase p)) n
      (p :: Function.update s.roster o ((s.roster o).erase p) n) n).count p = 1
    rw [Function.update_self, List.count_cons_self, List.count_eq_zero_of_not_mem (hgone n)]
  · show p ∉ Function.update (Function.update s.roster o ((s.roster o).erase p)) n
      (p :: Function.update s.roster o ((s.roster o).erase p) n) m
    rw [Function.update_of_ne hm]
    exact hgone m

/-- Somebody else's move. -/
theorem Listed.movesOnly (h : s.Listed q player m c) (hmoves : MovesOnly p s s') (hq : q ≠ p) :
    s'.Listed q player m c where
  player_eq := (hmoves.player q hq).trans h.player_eq
  map_eq := h.map_eq
  refs_eq := h.refs_eq
  le_one := h.le_one
  count_eq := (hmoves.count q hq m).trans h.count_eq
  elsewhere m' hm' := by
    rw [hmoves.mem_roster_iff hq]
    exact h.elsewhere m' hm'

end One

/-! ## On the way -/

/-- The player `p` with the id `k` and the session `sid` is on its way since the scene
`s₀`, and listed `c` times at least. -/
structure OnWay (s₀ : Scene) (p : ℕ) (k : CString) (sid c : ℕ) (s : Scene) : Prop where
  moves : MovesOnly p s₀ s
  listed : ∃ player m c', s.Listed p player m c' ∧ c ≤ c' ∧ player.id = some k ∧
    player.session = some sid
  session : ∃ session, s.session sid = some session

theorem OnWay.here {s₀ s : Scene} {p sid c : ℕ} {k : CString} (h : OnWay s₀ p k sid c s) :
    OnWay s p k sid c s := ⟨MovesOnly.refl p s, h.listed, h.session⟩

theorem OnWay.emit {s₀ s : Scene} {p sid c : ℕ} {k : CString} (h : OnWay s₀ p k sid c s)
    (l : List (ℕ × Sent)) : OnWay s₀ p k sid c (s.emit l) := by
  obtain ⟨player, m, c', hlisted, hrest⟩ := h.listed
  exact ⟨⟨h.moves.session, h.moves.player, h.moves.count⟩,
    ⟨player, m, c', ⟨hlisted.player_eq, hlisted.map_eq, hlisted.refs_eq, hlisted.le_one,
      hlisted.count_eq, hlisted.elsewhere⟩, hrest⟩, h.session⟩

end Scene

open Scene

variable {defs : MapDefs} {w w' v v' : World} {p sid c : ℕ} {k : CString} {s₀ : Scene}
  {player : Player} {x y : ℤ} {args : MoveArgs}

/-- The change of the map, if there is one. -/
theorem OnWay.changeMap {u : Unit} (hw : Sound defs w) (h : OnWay s₀ p k sid c w.scene)
    (hp : w.players.get p = some player)
    (hchange : World.changeMap defs player.map p args.map w = .ok (u, w')) :
    Kept defs w w' ∧ OnWay s₀ p k sid c w'.scene ∧
      (args.map ≠ none → OnWay s₀ p k sid 1 w'.scene) := by
  cases hargs : args.map with
  | none =>
    rw [hargs] at hchange
    obtain ⟨-, rfl⟩ := Exec.pure_eq_ok.mp hchange
    exact ⟨Kept.refl _, h, fun hne => absurd rfl hne⟩
  | some n =>
    rw [hargs] at hchange
    obtain ⟨player', o, c', hlisted, hc, hid, hsession⟩ := h.listed
    obtain rfl := Option.some.inj (hp.symm.trans hlisted.player_eq)
    obtain ⟨hkept, hscene⟩ := changeMap_scene hw hp hlisted.map_eq hid hlisted.refs_ite hchange
    have hway : OnWay s₀ p k sid 1 w'.scene := by
      rw [hscene]
      refine OnWay.emit ⟨h.moves.trans (MovesOnly.relocate w.scene p o n player), ?_, h.session⟩ _
      exact ⟨_, n, 1, hlisted.relocate n, le_refl 1, hid, hsession⟩
    have hle : c ≤ 1 := hc.trans hlisted.le_one
    refine ⟨hkept, ⟨hway.moves, ?_, hway.session⟩, fun _ => hway⟩
    obtain ⟨player'', m, c'', hlisted', hc', hrest⟩ := hway.listed
    exact ⟨player'', m, c'', hlisted', hle.trans hc', hrest⟩

/-- The player stands somewhere else on its map. -/
theorem OnWay.place (h : OnWay s₀ p k sid c w.scene) (hp : w.players.get p = some player) :
    OnWay s₀ p k sid c (w.setPlayer p { player with x := x, y := y }).scene := by
  obtain ⟨player', m, c', hlisted, hrest⟩ := h.listed
  obtain rfl := Option.some.inj (hp.symm.trans hlisted.player_eq)
  rw [scene_setPlayer hp]
  exact ⟨h.moves.trans (MovesOnly.setPlayer p _ _), ⟨_, m, c', hlisted.setPlayer rfl rfl, hrest⟩,
    h.session⟩

/-- **A shift** keeps the player on its way, and onto a map it lists it. -/
theorem OnWay.shift (hw : Sound defs w) (h : OnWay s₀ p k sid c w.scene)
    (hshift : Shift defs p x y args w v) :
    Kept defs w v ∧ OnWay s₀ p k sid c v.scene ∧
      (args.map ≠ none → OnWay s₀ p k sid 1 v.scene) := by
  cases hshift with
  | tooFar hnone => exact ⟨Kept.refl _, h, fun hne => absurd hnone hne⟩
  | refused htarget => exact OnWay.changeMap hw h htarget.player_eq htarget.changed
  | stuck htarget htoggle =>
    obtain ⟨hkept, hway, hmapped⟩ := OnWay.changeMap hw h htarget.player_eq htarget.changed
    obtain ⟨hkept', hscene, -⟩ := toggleCoord_scene defs htoggle
    exact ⟨hkept.trans hkept', hscene ▸ hway, hscene ▸ hmapped⟩
  | moved htarget _ htoggle henable hp₃ =>
    obtain ⟨hkept, hway, hmapped⟩ := OnWay.changeMap hw h htarget.player_eq htarget.changed
    obtain ⟨hkept₂, hscene₂, -⟩ := toggleCoord_scene defs htoggle
    obtain ⟨hkept₃, hscene₃, -⟩ := enableOldCoord_scene defs henable
    rw [← hscene₂, ← hscene₃] at hway hmapped
    exact ⟨((hkept.trans hkept₂).trans hkept₃).trans (Kept.setPlayer p _),
      OnWay.place hway hp₃, fun hne => OnWay.place (hmapped hne) hp₃⟩

theorem OnWay.aboard (h : OnWay s₀ p k sid c w.scene) :
    ∃ player m session, Aboard w p player k m sid session := by
  obtain ⟨player, m, c', hlisted, -, hid, hsession⟩ := h.listed
  obtain ⟨session, hsid⟩ := h.session
  exact ⟨player, m, session, hlisted.player_eq, hid, hlisted.map_eq, hsession, hsid⟩

theorem loose_onWay : Loose defs fun v => OnWay s₀ p k sid c v.scene where
  still _ _ h hstill := hstill.scene.symm ▸ h
  emit _ l h := h.emit l

theorem carried_onWay :
    Carried defs p (fun _ _ _ => True) fun v => OnWay s₀ p k sid c v.scene where
  toLoose := loose_onWay
  aboard v h := by
    obtain ⟨player, m, session, haboard⟩ := OnWay.aboard h
    exact ⟨player, k, m, sid, session, haboard⟩
  shift v v' i n x y suppress hv h _ _ hshift := by
    obtain ⟨hkept, hway, -⟩ := OnWay.shift hv h hshift
    exact ⟨hkept, hway⟩

theorem destinations_true : Destinations defs fun _ _ _ => True :=
  fun _ _ _ _ _ _ _ _ _ _ _ _ => trivial

/-- **A plain move.** -/
theorem OnWay.move {fuel : ℕ} {r : Bool} (hw : Sound defs w) (h : OnWay s₀ p k sid c w.scene)
    (hmove : playerMove defs fuel p x y args w = .ok (r, w')) :
    Kept defs w w' ∧ OnWay s₀ p k sid c w'.scene := by
  refine playerMove_rule (I := fun v => OnWay s₀ p k sid c v.scene) carried_onWay destinations_true
    hw (fun v hv => ?_) hmove
  obtain ⟨hkept, hway, -⟩ := OnWay.shift hw h hv
  exact ⟨hkept, hway⟩

/-- **A spawn** on a valid map lists the player. -/
theorem OnWay.spawn {fuel i : ℕ} {suppress r : ℤ} (hw : Sound defs w)
    (h : OnWay s₀ p k sid c w.scene) (hi : i < defs.count)
    (hspawn : mapSpawnPlayer defs fuel i p x y suppress w = .ok (r, w')) :
    r = 1 ∧ Kept defs w w' ∧ OnWay s₀ p k sid 1 w'.scene := by
  cases fuel with
  | zero =>
    rw [mapSpawnPlayer, Exec.stop_eq_ok] at hspawn
    exact hspawn.elim
  | succ fuel =>
    obtain ⟨player, m, session, haboard⟩ := OnWay.aboard h
    have hspawned := Carried.spawn (I := fun v => OnWay s₀ p k sid 1 v.scene)
      (J := fun v => OnWay s₀ p k sid c v.scene) carried_onWay loose_onWay destinations_true
      (mapSpawnPlayer_rule carried_onWay destinations_true fuel) hw haboard h
      (fun j n v v' _ _ hv hway _ hshift => by
        obtain ⟨hkept, -, hmapped⟩ := OnWay.shift hv hway hshift
        exact ⟨hkept, hmapped (Option.some_ne_none n)⟩) hspawn
    rcases hspawned with ⟨-, -, hbad⟩ | hdone
    · omega
    · exact hdone

/-! ## Everybody -/

namespace Scene

/-- A session roams with a player. -/
def RoamsWith (s : Scene) (sid q : ℕ) : Prop :=
  ∃ session, s.session sid = some session ∧ session.state = .roaming ∧ session.player = some q

/-- A session roams with a player that has the id `k`. -/
def Holds (s : Scene) (sid q : ℕ) (k : CString) : Prop :=
  s.RoamsWith sid q ∧ ∃ player, s.player q = some player ∧ player.id = some k

/-- A player is listed once and has an id and a session. -/
def Present (s : Scene) (sid q : ℕ) : Prop :=
  ∃ player m k, s.Listed q player m 1 ∧ player.id = some k ∧ player.session = some sid

/-- **Players and lists**: a session that roams has a player that is listed once, and
nobody else is listed. -/
structure Membership (s : Scene) : Prop where
  roaming : ∀ sid session, s.session sid = some session → session.state = .roaming →
    ∃ q, session.player = some q ∧ s.Present sid q
  listed : ∀ m, ∀ q ∈ s.roster m, ∃ sid, s.RoamsWith sid q

/-- The same but for the session `sid` and the player `p`. -/
structure MembershipBut (s : Scene) (sid p : ℕ) : Prop where
  roaming : ∀ sid' ≠ sid, ∀ session, s.session sid' = some session → session.state = .roaming →
    ∃ q ≠ p, session.player = some q ∧ s.Present sid' q
  listed : ∀ m, ∀ q ∈ s.roster m, q ≠ p → ∃ sid', s.RoamsWith sid' q

section Everybody

variable {s s' : Scene} {sid sid' p q m : ℕ} {k : CString} {session : Session}

theorem Present.inj (h : s.Present sid q) (h' : s.Present sid' q) : sid = sid' := by
  obtain ⟨player, _, _, hlisted, -, hsession⟩ := h
  obtain ⟨player', _, _, hlisted', -, hsession'⟩ := h'
  obtain rfl := Option.some.inj (hlisted.player_eq.symm.trans hlisted'.player_eq)
  exact Option.some.inj (hsession.symm.trans hsession')

theorem Membership.present (h : s.Membership) (hroams : s.RoamsWith sid q) : s.Present sid q := by
  obtain ⟨session, hsid, hstate, hplayer⟩ := hroams
  obtain ⟨q', hplayer', hpresent⟩ := h.roaming sid session hsid hstate
  obtain rfl := Option.some.inj (hplayer.symm.trans hplayer')
  exact hpresent

/-- A session that roams holds an id. -/
theorem Membership.holds (h : s.Membership) (hroams : s.RoamsWith sid q) :
    ∃ k, s.Holds sid q k := by
  obtain ⟨player, _, k, hlisted, hid, -⟩ := h.present hroams
  exact ⟨k, hroams, player, hlisted.player_eq, hid⟩

/-- On its way a player keeps its id. -/
theorem OnWay.holds_iff {c c' : ℕ} {k' : CString} (h : OnWay s p k sid c s)
    (h' : OnWay s p k sid c' s') : s'.Holds sid' q k' ↔ s.Holds sid' q k' := by
  unfold Holds RoamsWith
  rw [h'.moves.session]
  refine and_congr_right fun _ => ?_
  by_cases hq : q = p
  · subst hq
    obtain ⟨player, _, _, hlisted, -, hid, -⟩ := h.listed
    obtain ⟨player', _, _, hlisted', -, hid', -⟩ := h'.listed
    rw [hlisted.player_eq, hlisted'.player_eq]
    simp [hid, hid']
  · rw [h'.moves.player q hq]

theorem Membership.but (h : s.Membership) (hp : s.Present sid p) : s.MembershipBut sid p where
  roaming sid' hne session hsid hstate := by
    obtain ⟨q, hplayer, hpresent⟩ := h.roaming sid' session hsid hstate
    refine ⟨q, fun hqp => hne ?_, hplayer, hpresent⟩
    subst hqp
    exact hpresent.inj hp
  listed m q hq _ := h.listed m q hq

theorem Present.onWay (h : s.Present sid p) (hsid : s.session sid = some session) :
    ∃ k, OnWay s p k sid 1 s := by
  obtain ⟨player, m, k, hlisted, hid, hsession⟩ := h
  exact ⟨k, MovesOnly.refl p s, ⟨player, m, 1, hlisted, le_refl 1, hid, hsession⟩, session, hsid⟩

/-- When the player is listed again, all is well. -/
theorem MembershipBut.onWay (h : s.MembershipBut sid p) (hroams : s.RoamsWith sid p)
    (hway : OnWay s p k sid 1 s') : s'.Membership := by
  have hpresent : s'.Present sid p := by
    obtain ⟨player, m, c, hlisted, hc, hid, hsession⟩ := hway.listed
    obtain rfl := Nat.le_antisymm hlisted.le_one hc
    exact ⟨player, m, k, hlisted, hid, hsession⟩
  have hsession := hway.moves.session
  refine ⟨fun sid' session' hsid' hstate => ?_, fun m q hq => ?_⟩
  · rw [hsession] at hsid'
    by_cases hne : sid' = sid
    · subst hne
      obtain ⟨session, hsid, -, hplayer⟩ := hroams
      obtain rfl := Option.some.inj (hsid.symm.trans hsid')
      exact ⟨p, hplayer, hpresent⟩
    · obtain ⟨q, hqp, hplayer, player, m, k', hlisted, hrest⟩ :=
        h.roaming sid' hne session' hsid' hstate
      exact ⟨q, hplayer, player, m, k', hlisted.movesOnly hway.moves hqp, hrest⟩
  · unfold RoamsWith
    rw [hsession]
    by_cases hqp : q = p
    · subst hqp
      exact ⟨sid, hroams⟩
    · exact h.listed m q ((hway.moves.mem_roster_iff hqp).mp hq) hqp

/-- What leaves the lists, the players and the sessions that roam alone. -/
theorem Membership.congr (h : s.Membership) (hroster : s'.roster = s.roster)
    (hplayer : ∀ q player, s.player q = some player → s'.player q = some player)
    (hsession : ∀ sid session, session.state = .roaming →
      (s'.session sid = some session ↔ s.session sid = some session)) : s'.Membership where
  roaming sid session hsid hstate := by
    obtain ⟨q, hq, player, m, k, hlisted, hrest⟩ :=
      h.roaming sid session ((hsession sid session hstate).mp hsid) hstate
    refine ⟨q, hq, player, m, k, ?_, hrest⟩
    exact ⟨hplayer q player hlisted.player_eq, hlisted.map_eq, hlisted.refs_eq, hlisted.le_one,
      hroster ▸ hlisted.count_eq, hroster ▸ hlisted.elsewhere⟩
  listed m q hq := by
    rw [hroster] at hq
    obtain ⟨sid, session, hsid, hstate, hq⟩ := h.listed m q hq
    exact ⟨sid, session, (hsession sid session hstate).mpr hsid, hstate, hq⟩

theorem Membership.player_ne_none (h : s.Membership) (hq : q ∈ s.roster m) :
    s.player q ≠ none := by
  obtain ⟨sid, hroams⟩ := h.listed m q hq
  obtain ⟨player, _, _, hlisted, -⟩ := h.present hroams
  rw [hlisted.player_eq]
  exact Option.some_ne_none _

end Everybody

end Scene

/-! ## Steps of the server -/

/-- The registry is in order, and so are the lists. -/
structure Member (defs : MapDefs) (w : World) : Prop where
  sound : Sound defs w
  membership : w.scene.Membership

section Steps

variable {fuel s : ℕ} {packet : Packet} {session : Session} {r : Option ServerPacket}

theorem member_boot (playerdata : List Document) : Member defs (boot playerdata) :=
  ⟨sound_boot playerdata, fun _ _ h => absurd h.symm (Option.some_ne_none _),
    fun _ _ h => absurd h List.not_mem_nil⟩

theorem Member.emit (h : Member defs w) (l : List (ℕ × Sent)) : Member defs (w.emit l) :=
  ⟨(Kept.emit l).sound h.sound,
    h.membership.congr rfl (fun _ _ hq => hq) fun _ _ _ => Iff.rfl⟩

/-- Somebody who is listed nowhere is written. -/
theorem Member.reads (h : Member defs w) (hreads : Reads defs w w.players.next player w') :
    Member defs w' := by
  refine ⟨hreads.kept.sound h.sound, ?_⟩
  rw [hreads.scene_eq]
  refine h.membership.congr rfl (fun q other hq => ?_) fun _ _ _ => Iff.rfl
  exact (Function.update_of_ne (Heap.ne_next (h := w.players) hq) _ _).trans hq

/-- A session that does not roam is written. -/
theorem Member.setSession (h : Member defs w) (hs : w.sessions.get s = some session)
    (hstate : session.state = .disabled) (q : Option ℕ) :
    Member defs (w.setSession s { session with player := q }) := by
  refine ⟨(Kept.setSession s _).sound h.sound, ?_⟩
  rw [scene_setSession hs]
  refine h.membership.congr rfl (fun _ _ hq => hq) fun sid session' hroams => ?_
  by_cases hsid : sid = s
  · subst hsid
    have hold : w.scene.session sid = some session := hs
    have hnew : (w.scene.setSession sid { session with player := q }).session sid
        = some { session with player := q } := Function.update_self _ _ _
    rw [hold, hnew, Option.some.injEq, Option.some.injEq]
    refine iff_of_false ?_ ?_
    · rintro rfl
      exact absurd (hstate.symm.trans hroams) (by decide)
    · rintro rfl
      exact absurd (hstate.symm.trans hroams) (by decide)
  · have hsame : (w.scene.setSession s { session with player := q }).session sid
        = w.scene.session sid := Function.update_of_ne hsid _ _
    rw [hsame]

/-- In front of the spawn of a login the new player is listed nowhere. -/
theorem Member.boarding {id : CString} {m : ℕ} {map : Map} {w₁ : World} (h : Member defs w)
    (hs : w.sessions.get s = some session) (hstate : session.state = .disabled)
    (henters : Enters defs w s session id player m map w₁) :
    w₁.scene.RoamsWith s w.players.next ∧ w₁.scene.MembershipBut s w.players.next ∧
      OnWay w₁.scene w.players.next id s 0 w₁.scene := by
  have hs' : w.scene.session s = some session := hs
  have hfresh : ∀ m', w.players.next ∉ w.scene.roster m' := fun m' hmem =>
    h.membership.player_ne_none hmem (Heap.get_next w.players)
  have hlisted : w₁.scene.Listed w.players.next { player with session := some s } m 0 := by
    rw [henters.scene_eq]
    refine ⟨Function.update_self _ _ _, henters.map_eq, henters.refs_eq, Nat.zero_le 1, ?_,
      fun m' _ => hfresh m'⟩
    exact List.count_eq_zero_of_not_mem (hfresh m)
  have hsession : w₁.scene.session s
      = some { session with player := some w.players.next, state := .roaming } := by
    rw [henters.scene_eq]
    exact Function.update_self _ _ _
  have hother : ∀ sid ≠ s, w₁.scene.session sid = w.scene.session sid := fun sid hne => by
    rw [henters.scene_eq]
    exact Function.update_of_ne hne _ _
  refine ⟨⟨_, hsession, rfl, rfl⟩, ⟨fun sid hne session' hsid hroams => ?_, fun m' q hq _ => ?_⟩,
    ⟨MovesOnly.refl _ _, ⟨_, m, 0, hlisted, le_refl 0, henters.id_eq, rfl⟩, _, hsession⟩⟩
  · rw [hother sid hne] at hsid
    obtain ⟨q, hq, other, m', k', hpresent, hrest⟩ :=
      h.membership.roaming sid session' hsid hroams
    have hqp : q ≠ w.players.next := Heap.ne_next (h := w.players) hpresent.player_eq
    refine ⟨q, hqp, hq, other, m', k', ?_, hrest⟩
    rw [henters.scene_eq]
    exact ⟨(Function.update_of_ne hqp _ _).trans hpresent.player_eq, hpresent.map_eq,
      hpresent.refs_eq, hpresent.le_one, hpresent.count_eq, hpresent.elsewhere⟩
  · rw [henters.scene_eq] at hq
    obtain ⟨sid, session', hsid, hroams, hq'⟩ := h.membership.listed m' q hq
    have hne : sid ≠ s := by
      rintro rfl
      obtain rfl := Option.some.inj (hs'.symm.trans hsid)
      exact absurd (hstate.symm.trans hroams) (by decide)
    exact ⟨sid, session', (hother sid hne).trans hsid, hroams, hq'⟩

/-- **A login** that finds a record. -/
theorem Member.enters {id : CString} {m : ℕ} {map : Map} {w₁ w₂ : World} {n : ℤ}
    (h : Member defs w) (hs : w.sessions.get s = some session)
    (hstate : session.state = .disabled) (henters : Enters defs w s session id player m map w₁)
    (hspawn : mapSpawnPlayer defs fuel map.id w.players.next player.x player.y 1 w₁
      = .ok (n, w₂)) :
    n = 1 ∧ Member defs w₂ ∧ OnWay w₁.scene w.players.next id s 1 w₂.scene := by
  have hsound := henters.kept.sound h.sound
  obtain ⟨i, hi, htile⟩ := hsound.map m map henters.get_eq
  rw [hi] at hspawn
  obtain ⟨hroams, hbut, hway⟩ := h.boarding hs hstate henters
  obtain ⟨hn, hkept, hway'⟩ := OnWay.spawn hsound hway (hsound.lt_count htile) hspawn
  exact ⟨hn, ⟨hkept.sound hsound, hbut.onWay hroams hway'⟩, hway'⟩

/-- Who is logged in then. -/
theorem Member.holds_enters {id k : CString} {m sid q : ℕ} {map : Map} {w₁ : World}
    (h : Member defs w) (hs : w.sessions.get s = some session)
    (hstate : session.state = .disabled)
    (henters : Enters defs w s session id player m map w₁) :
    w₁.scene.Holds sid q k ↔
      w.scene.Holds sid q k ∨ sid = s ∧ q = w.players.next ∧ k = id := by
  obtain ⟨hroams, hbut, hway⟩ := h.boarding hs hstate henters
  by_cases hsid : sid = s
  · subst hsid
    obtain ⟨other, _, _, hlisted, -, hid, -⟩ := hway.listed
    have hnot : ¬w.scene.Holds sid q k := by
      rintro ⟨⟨session', hs', hroaming, -⟩, -⟩
      obtain rfl := Option.some.inj (Eq.trans (Eq.symm hs) hs')
      exact absurd (hstate.symm.trans hroaming) (by decide)
    rw [or_iff_right hnot]
    obtain ⟨session₁, hs₁, hroaming, hplayer⟩ := hroams
    constructor
    · rintro ⟨⟨session', hs', -, hq⟩, other', hother', hk⟩
      obtain rfl := Option.some.inj (hs₁.symm.trans hs')
      obtain rfl := Option.some.inj (hplayer.symm.trans hq)
      obtain rfl := Option.some.inj (hlisted.player_eq.symm.trans hother')
      exact ⟨rfl, rfl, Option.some.inj (hk.symm.trans hid)⟩
    · rintro ⟨-, rfl, rfl⟩
      exact ⟨⟨session₁, hs₁, hroaming, hplayer⟩, other, hlisted.player_eq, hid⟩
  · rw [or_iff_left fun hnew => hsid hnew.1]
    have hsession : w₁.scene.session sid = w.scene.session sid := by
      rw [henters.scene_eq]
      exact Function.update_of_ne hsid _ _
    unfold Holds RoamsWith
    rw [hsession]
    refine and_congr_right fun hroams' => ?_
    -- somebody who is logged in is not the new player
    obtain ⟨other, _, _, hlisted, -⟩ := h.membership.present hroams'
    have hqp : q ≠ w.players.next := Heap.ne_next (h := w.players) hlisted.player_eq
    have hplayer : w₁.scene.player q = w.scene.player q := by
      rw [henters.scene_eq]
      exact Function.update_of_ne hqp _ _
    rw [hplayer]

/-- **A move** of a session that roams. -/
theorem Member.move {q : ℕ} {moved : Bool} (h : Member defs w) (hroams : w.scene.RoamsWith s q)
    (hmove : playerMove defs fuel q x y args w = .ok (moved, w')) :
    Member defs w' ∧ ∀ sid q' k, w'.scene.Holds sid q' k ↔ w.scene.Holds sid q' k := by
  have hpresent := h.membership.present hroams
  obtain ⟨session, hs, -⟩ := id hroams
  obtain ⟨k, hway⟩ := hpresent.onWay hs
  obtain ⟨hkept, hway'⟩ := OnWay.move h.sound hway hmove
  exact ⟨⟨hkept.sound h.sound, (h.membership.but hpresent).onWay hroams hway'⟩,
    fun _ _ _ => hway.holds_iff hway'⟩

/-- **Who is logged in** after a request: everybody who was, and the player of a login that
finds a record. -/
inductive Logins (w : World) (a : Request) (w' : World) : Prop
  | same :
      (∀ id doc, LoginFor w a id → findById id w.playerdata ≠ some doc) →
      (∀ sid q k, w'.scene.Holds sid q k ↔ w.scene.Holds sid q k) → Logins w a w'
  | added {sid q : ℕ} {id : CString} {doc : Document} :
      LoginFor w a id → findById id w.playerdata = some doc →
      (∀ q k, ¬w.scene.Holds sid q k) →
      (∀ sid' q' k, w'.scene.Holds sid' q' k ↔
        w.scene.Holds sid' q' k ∨ sid' = sid ∧ q' = q ∧ k = id) → Logins w a w'

/-- Who is logged in stays logged in. -/
theorem Logins.holds {a : Request} {q : ℕ} (h : Logins w a w') (hq : w.scene.Holds s q k) :
    w'.scene.Holds s q k := by
  cases h with
  | same _ hsame => exact (hsame s q k).mpr hq
  | added _ _ _ hadded => exact (hadded s q k).mpr (Or.inl hq)

/-- What else is done to the scene. -/
theorem Logins.congr {a : Request} (h : Logins w a w')
    (hplayer : v.scene.player = w'.scene.player) (hsession : v.scene.session = w'.scene.session) :
    Logins w a v := by
  have hholds : ∀ sid q k, v.scene.Holds sid q k ↔ w'.scene.Holds sid q k := by
    intro sid q k
    unfold Holds RoamsWith
    rw [hplayer, hsession]
  cases h with
  | same hnone hsame => exact .same hnone fun sid q k => (hholds sid q k).trans (hsame sid q k)
  | added hfor hdoc hnot hadded =>
    exact .added hfor hdoc hnot fun sid q k => (hholds sid q k).trans (hadded sid q k)

/-- A session that does not roam is not logged in, whatever player it has. -/
theorem holds_setSession {sid q' : ℕ} {p : Option ℕ} (hs : w.sessions.get s = some session)
    (hstate : session.state = .disabled) :
    (w.setSession s { session with player := p }).scene.Holds sid q' k ↔
      w.scene.Holds sid q' k := by
  rw [scene_setSession hs]
  refine and_congr_left fun _ => ?_
  by_cases hsid : sid = s
  · subst hsid
    have hnew : (w.scene.setSession sid { session with player := p }).session sid
        = some { session with player := p } := Function.update_self _ _ _
    refine iff_of_false ?_ ?_
    · rintro ⟨session', hs', hroaming, -⟩
      obtain rfl := Option.some.inj (hnew.symm.trans hs')
      exact absurd (hstate.symm.trans hroaming) (by decide)
    · rintro ⟨session', hs', hroaming, -⟩
      obtain rfl := Option.some.inj (Eq.trans (Eq.symm hs) hs')
      exact absurd (hstate.symm.trans hroaming) (by decide)
  · unfold RoamsWith
    rw [show (w.scene.setSession s { session with player := p }).session sid
      = w.scene.session sid from Function.update_of_ne hsid _ _]

/-- A login. -/
theorem Member.login {l : List (ℕ × Sent)} (h : Member defs w)
    (hs : w.sessions.get s = some session) (hstate : session.state = .disabled)
    (hop : packet.opcode = loginPacket)
    (hends : LoginEnds defs fuel packet s session (w.emit l) r v) :
    Member defs v ∧ Logins w (.packet s packet) v := by
  have hl := h.emit l
  -- which account the packet is for
  have hfor : ∀ id, LoginFor w (.packet s packet) id → accountOf w packet = some id := by
    rintro id ⟨_, _, _, ha, -, -, -, haccount⟩
    obtain ⟨rfl, rfl⟩ := Request.packet.inj ha
    exact haccount
  cases hends with
  | unknown hnone =>
    have hnone' : accountOf w packet = none := hnone
    refine ⟨⟨(Kept.setErrno _).sound hl.sound, hl.membership⟩,
      .same (fun id _ hid => ?_) fun _ _ _ => Iff.rfl⟩
    exact absurd ((hfor id hid).symm.trans hnone') (Option.some_ne_none id)
  | @noRecord id haccount hnone =>
    have haccount' : accountOf w packet = some id := haccount
    refine ⟨hl.setSession hs hstate none, .same (fun id' doc hid hdoc => ?_) fun _ _ _ =>
      holds_setSession (w := w.emit l) hs hstate⟩
    obtain rfl := Option.some.inj (haccount'.symm.trans (hfor id' hid))
    exact absurd (hdoc.symm.trans hnone) (Option.some_ne_none doc)
  | spawned haccount hdoc _ _ _ henters hspawn =>
    obtain ⟨-, hmember, hway⟩ := hl.enters hs hstate henters hspawn
    obtain ⟨-, -, hway₁⟩ := hl.boarding hs hstate henters
    refine ⟨hmember, .added ⟨s, packet, session, rfl, hop, hs, hstate, haccount⟩ hdoc ?_
      fun sid q k => (hway₁.holds_iff hway).trans (hl.holds_enters hs hstate henters)⟩
    rintro q k ⟨⟨session', hs', hroaming, -⟩, -⟩
    obtain rfl := Option.some.inj (Eq.trans (Eq.symm hs) hs')
    exact absurd (hstate.symm.trans hroaming) (by decide)

/-- An inspect request. -/
theorem Member.inspect {id : CString} {found : Option ℕ} (h : Member defs w)
    (hget : dbPlayerGetPlayer defs id w = .ok (found, w')) :
    Member defs w' ∧ ∀ sid q k, w'.scene.Holds sid q k ↔ w.scene.Holds sid q k := by
  rcases dbPlayerGetPlayer_reads h.sound.cache hget with rfl | ⟨player, hreads⟩
  · exact ⟨h, fun _ _ _ => Iff.rfl⟩
  · refine ⟨h.reads hreads, fun sid q k => ?_⟩
    rw [hreads.scene_eq]
    refine and_congr_right fun hroams => ?_
    obtain ⟨other, _, _, hlisted, -⟩ := h.membership.present hroams
    have hqp : q ≠ w.players.next := Heap.ne_next (h := w.players) hlisted.player_eq
    rw [show (w.scene.setPlayer w.players.next player).player q = w.scene.player q from
      Function.update_of_ne hqp _ _]

/-- A packet of a session that roams is for no account. -/
theorem not_loginFor_of_roaming (hs : w.sessions.get s = some session)
    (hstate : session.state = .roaming) (id : CString) : ¬LoginFor w (.packet s packet) id := by
  rintro ⟨_, _, session', ha, -, hs', hdisabled, -⟩
  obtain ⟨rfl, rfl⟩ := Request.packet.inj ha
  obtain rfl := Option.some.inj (hs.symm.trans hs')
  exact absurd (hstate.symm.trans hdisabled) (by decide)

/-- **One step of the server.** -/
theorem Member.step {a : Request} (h : Member defs w) (hstep : Step defs w a w') :
    Member defs w' ∧ Logins w a w' := by
  cases hstep.turn h.sound.cache with
  | @connect fd =>
    have hsession : ∀ sid session, session.state = .roaming →
        ((w.sessions.alloc ⟨fd, .disabled, none⟩).get sid = some session ↔
          w.sessions.get sid = some session) := by
      intro sid session hroams
      refine ⟨fun hnew => ?_, Heap.get_alloc_of_get _⟩
      rcases Heap.get_alloc_eq_some hnew with ⟨-, rfl⟩ | ⟨-, hold⟩
      · exact absurd hroams (by simp)
      · exact hold
    refine ⟨⟨(Kept.newSession _).sound h.sound,
      h.membership.congr rfl (fun _ _ hq => hq) hsession⟩, .same ?_ fun sid q k => ?_⟩
    · rintro id doc ⟨_, _, _, ha, -⟩
      exact Request.noConfusion ha
    · refine and_congr_left fun _ => exists_congr fun session => ?_
      exact and_congr_left fun hroams => hsession sid session hroams.1
  | token t =>
    refine ⟨⟨(Kept.setTable t).sound h.sound, h.membership⟩, .same ?_ fun _ _ _ => Iff.rfl⟩
    rintro id doc ⟨_, _, _, ha, -⟩
    exact Request.noConfusion ha
  | badState l hs hverify =>
    refine ⟨h.emit l, .same ?_ fun _ _ _ => Iff.rfl⟩
    rintro id doc ⟨_, _, session', ha, hop, hs', hstate, -⟩
    obtain ⟨rfl, rfl⟩ := Request.packet.inj ha
    obtain rfl := Option.some.inj (hs.symm.trans hs')
    rw [sessionVerifyPacket, hstate, hop] at hverify
    exact absurd hverify (by decide)
  | login l' hs hstate hop hends =>
    obtain ⟨hmember, hlogins⟩ := h.login hs hstate hop hends
    exact ⟨hmember.emit l', hlogins.congr rfl rfl⟩
  | @move _ _ _ _ _ _ _ _ _ l l' hs hstate hq _ _ _ hmove =>
    obtain ⟨hmember, hsame⟩ := (h.emit l).move ⟨_, hs, hstate, hq⟩ hmove
    refine ⟨hmember.emit l', .same (fun id _ hid => ?_) hsame⟩
    exact absurd hid (not_loginFor_of_roaming hs hstate id)
  | @inspect _ _ _ _ _ l l' hs hstate _ hget =>
    obtain ⟨hmember, hsame⟩ := (h.emit l).inspect hget
    refine ⟨hmember.emit l', .same (fun id _ hid => ?_) hsame⟩
    exact absurd hid (not_loginFor_of_roaming hs hstate id)

end Steps

/-! ## Runs of the server -/

/-- How many entries of the lists of all maps hold a player. -/
def entries (w : World) (q : ℕ) : ℕ :=
  ∑ m ∈ Finset.range w.maps.next, (w.scene.roster m).count q

theorem Listed.entries_eq {q m : ℕ} (h : w.scene.Listed q player m c) : entries w q = c := by
  have hother : ∀ m' ∈ Finset.range w.maps.next, m' ≠ m → (w.scene.roster m').count q = 0 :=
    fun m' _ hm' => List.count_eq_zero_of_not_mem (h.elsewhere m' hm')
  -- a map that is not allocated lists nobody
  have hout : m ∉ Finset.range w.maps.next → (w.scene.roster m).count q = 0 := by
    intro hm
    rw [Finset.mem_range, Nat.not_lt] at hm
    have hnone : w.maps.get m = none := w.maps.fresh m hm
    rw [roster_scene, hnone]
    rfl
  rw [entries, Finset.sum_eq_single m hother hout, h.count_eq]

theorem member_run {playerdata : List Document} {l : List (Request × World)}
    (h : Trace (Step defs) (boot playerdata) l w) : Member defs w :=
  Trace.invariant (I := Member defs) (fun _ _ _ ht hstep => (ht.step hstep).1)
    (member_boot playerdata) h

/-- Who was logged in on the way is logged in at the end. -/
theorem roamsWith_run {playerdata : List Document} {l : List (Request × World)}
    (h : Trace (Step defs) (boot playerdata) l w) {s q : ℕ} :
    ∀ e ∈ l, e.2.scene.RoamsWith s q → w.scene.RoamsWith s q := by
  induction h with
  | nil => exact fun e he => absurd he List.not_mem_nil
  | snoc hrun hstep ih =>
    intro e he hroams
    rcases List.mem_append.mp he with he | he
    · have hmember := member_run hrun
      obtain ⟨k, hholds⟩ := hmember.membership.holds (ih e he hroams)
      exact ((hmember.step hstep).2.holds hholds).1
    · rw [List.mem_singleton.mp he] at hroams
      exact hroams

/-- **Everybody who is logged in is in one place.**  In every state of every run the player
of a session that roams is listed exactly once on the map it points to and on no other, and
its references are one more than the entries that hold it.  Who is logged in once is never
freed: pointers are not used again, and at the end it is still there. -/
theorem loggedIn_listed {playerdata : List Document} {l : List (Request × World)}
    (h : Trace (Step defs) (boot playerdata) l w) :
    (∀ s session, w.sessions.get s = some session → session.state = .roaming →
      ∃ q player m, session.player = some q ∧ w.players.get q = some player ∧
        player.map = some m ∧ (w.scene.roster m).count q = 1 ∧
        (∀ m' ≠ m, q ∉ w.scene.roster m') ∧ player.refs = 1 + entries w q) ∧
      ∀ e ∈ l, ∀ s session q, e.2.sessions.get s = some session → session.state = .roaming →
        session.player = some q → (∃ session', w.sessions.get s = some session' ∧
          session'.state = .roaming ∧ session'.player = some q) ∧ w.players.get q ≠ none := by
  have hmember := (member_run h).membership
  refine ⟨fun s session hs hstate => ?_, fun e he s session q hs hstate hq => ?_⟩
  · obtain ⟨q, hq, player, m, _, hlisted, -⟩ := hmember.roaming s session hs hstate
    refine ⟨q, player, m, hq, hlisted.player_eq, hlisted.map_eq, hlisted.count_eq,
      hlisted.elsewhere, ?_⟩
    rw [Listed.entries_eq hlisted, hlisted.refs_eq]
  · have hroams := roamsWith_run h e he ⟨session, hs, hstate, hq⟩
    refine ⟨hroams, ?_⟩
    obtain ⟨player, _, _, hlisted, -⟩ := hmember.present hroams
    have hget : w.players.get q = some player := hlisted.player_eq
    rw [hget]
    exact Option.some_ne_none _

/-- Behind the portal the first player is listed on its new map only.  It is the player that
roamed before, and there is one reference to it more than entries that hold it. -/
theorem loggedIn_listed_throughPortal : ∃ l w w₁,
    Trace (Step mapLoaders) (boot [gateRecord, farRecord]) l w ∧ BothArrived w ∧
    (.packet 0 firstLogin, w₁) ∈ l ∧ w₁.sessions.get 0 = some ⟨3, .roaming, some 0⟩ ∧
    (w.scene.roster 1).count 0 = 1 ∧ 0 ∉ w.scene.roster 0 ∧ entries w 0 = 1 ∧
    w.players.get 0 ≠ none := by
  obtain ⟨l, w₁, w, hrun, -, hmem, hs₁, harrived⟩ := trace_throughPortal (fun _ _ => True)
    (fun _ _ _ => trivial) (fun _ _ _ => trivial) fun _ => trivial
  obtain ⟨hlisted, hkept⟩ := loggedIn_listed hrun.of_guarded
  refine ⟨l, w, w₁, hrun.of_guarded, harrived, hmem, hs₁, ?_⟩
  obtain ⟨q, player, m, hq, hp, hm, hcount, helsewhere, hrefs⟩ :=
    hlisted 0 _ harrived.first_session rfl
  obtain rfl := Option.some.inj hq
  obtain rfl := Option.some.inj (harrived.first_player.symm.trans hp)
  obtain rfl := Option.some.inj hm
  refine ⟨hcount, helsewhere 0 (by decide), ?_, (hkept _ hmem 0 _ 0 hs₁ rfl rfl).2⟩
  have hentries : (2 : ℤ) = 1 + entries w 0 := hrefs
  omega

end World
end MmoBackend
