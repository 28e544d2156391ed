import MmoBackend.Library.Trace
import MmoBackend.World.EmptyMaps
import MmoBackend.World.Shelter

/-!
# No use of a freed map

Somebody who loads a player owns a reference to it, and gives it back with
`player_free`.  `OwnerCalls` are the calls that owners of references make, in any order:
players are loaded, spawned, moved, removed from maps and freed.  A player is spawned or
moved by an owner of a reference, which is not the one the list of its map holds.

`Sheltered` says that every player with a map points at the map that is in `tiles` under
its id, that the map counts a reference for every player on it and for every activation
of events that is under way on it, and that `map_free` was only called for maps nobody
was on.  It holds after every run of these calls and in all states a spawn or a move
passes, the activations of events in it included.

It is no equality: references to maps are lost whenever a player changes its map, so no
map that a player left is ever freed.
-/

namespace MmoBackend

open Authentication Communication Db Exec Ledger Maps Walk

namespace World

/-! ## The property -/

/-- The number of players in memory that are on a map. -/
def playersOn (w : World) (m : ℕ) : ℕ :=
  w.players.tally fun _ player => if player.map = some m then 1 else 0

/-- The map is in `tiles` under its id, and has a reference for every player on it and for
every activation on it. -/
def Retained (w : World) (g : Notes) (m : ℕ) : Prop :=
  ∃ map i, w.maps.get m = some map ∧ map.id = (i : ℕ) ∧ w.tiles i = some m ∧
    ((playersOn w m + g.active.count m : ℕ) : ℤ) ≤ map.refs

/-- No map that is used is freed. -/
structure Sheltered (w : World) (g : Notes) : Prop where
  player : ∀ p player m, w.players.get p = some player → player.map = some m → Retained w g m
  active : ∀ m ∈ g.active, Retained w g m
  freed : ∀ map ∈ g.freed, map.players = []

variable {defs : MapDefs} {own : ℕ → ℕ} {held : List ℕ} {w w' : World} {g : Notes}
  {i m p : ℕ} {map : Map} {player : Player}

theorem pointing_ledger (w : World) (m : ℕ) :
    (ledger defs w).pointing none m = playersOn w m := by
  have hpoints : (fun p player => points none m p (playerItem player))
      = fun _ player => if player.map = some m then 1 else 0 := by
    funext p player
    simp [points, playerItem]
  rw [pointing, ledger, Heap.tally_map, hpoints, playersOn]

theorem Shelters.sheltered (h : Shelters defs none w g) : Sheltered w g := by
  have hretained : ∀ m, 0 < playersOn w m + g.active.count m → Retained w g m := by
    intro m hpos
    have hpointing : (ledger defs w).pointing none m = playersOn w m := pointing_ledger w m
    rw [← hpointing] at hpos
    obtain ⟨box, hm, htable, hrefs⟩ := h.backed m hpos
    obtain ⟨map, hmap, rfl⟩ := Option.map_eq_some_iff.mp hm
    obtain ⟨i, hid, -, htile⟩ := tile_of_table htable
    rw [pointing_ledger] at hrefs
    exact ⟨map, i, hmap, hid, htile, hrefs⟩
  refine ⟨fun p player m hp hm => hretained m ?_, fun m hm => hretained m ?_, h.clean⟩
  · have hle := Heap.le_tally (f := fun _ player => if player.map = some m then 1 else 0) hp
    rw [if_pos hm] at hle
    exact Nat.add_pos_left hle _
  · exact Nat.add_pos_right _ (List.count_pos_iff.mpr hm)

/-! ## Loading a player -/

theorem unlisted_load (hload : Loads defs w i m map w')
    (h : (ledger defs w).Unlisted p) : (ledger defs w').Unlisted p := by
  intro k box hk hmem
  obtain ⟨map', hmap', rfl⟩ := Option.map_eq_some_iff.mp hk
  cases hload with
  | loaded _ hget =>
    by_cases hkm : k = m
    · subst hkm
      obtain rfl := Option.some.inj ((Heap.get_set_self _ hget).symm.trans hmap')
      exact h k _ (box_of_get hget) hmem
    · exact h k _ (box_of_get ((Heap.get_set_of_ne _ hkm).symm.trans hmap')) hmem
  | created _ _ hloader =>
    rcases Heap.get_alloc_eq_some hmap' with ⟨-, rfl⟩ | ⟨-, hold⟩
    · have hplayers := (defs.fresh i map hloader).2.2
      rw [show (mapBox { map with refs := map.refs + 1 }).items = map.players from rfl,
        hplayers] at hmem
      exact absurd hmem List.not_mem_nil
    · exact h k _ (box_of_get hold) hmem

/-- The player that is read is in no list yet, and the references are in order. -/
def Reading (defs : MapDefs) (own : ℕ → ℕ) (g : Notes) (p : ℕ) (w : World) : Prop :=
  Good defs own [] none w g ∧ (ledger defs w).Unlisted p

theorem Reading.same (h : Reading defs own g p w) (hsame : SameLedger defs w w') :
    Reading defs own g p w' :=
  ⟨hsame.good h.1, hsame.1 ▸ h.2⟩

/-- **The map of a player that is read** is loaded and written to the player. -/
theorem Reading.loadMap (h : Reading defs own g p w) {r : Option ℕ} {w₁ : World} {id : ℤ}
    (hload : mapLoad defs id w = .ok (r, w₁)) (hp : w₁.players.get p = some player) :
    Reading defs own g p (w₁.setPlayer p { player with map := r }) := by
  have hfrom : Good defs own r.toList none w₁ g ∧ (ledger defs w₁).Unlisted p := by
    rcases mapLoad_eq_ok hload with ⟨-, rfl, rfl⟩ | ⟨i, m, map, -, hi, rfl, hloads⟩
    · exact h
    · exact ⟨h.1.load hi hloads, unlisted_load hloads h.2⟩
  refine ⟨⟨?_, hfrom.1.uncached, hfrom.1.clean⟩, hfrom.2⟩
  rw [ledger_setPlayer]
  exact hfrom.1.balanced.point (item_of_get hp) rfl hfrom.2

theorem Reading.readField (h : Reading defs own g p w) {field : String × Bson} {u : Unit}
    (hread : readField defs p field w = .ok (u, w')) : Reading defs own g p w' := by
  have hset : ∀ {f : Player → Player}, updatePlayer p f w = .ok (u, w') →
      (∀ player, playerItem (f player) = playerItem player) → Reading defs own g p w' :=
    fun hrun hf => h.same (quiet_updatePlayer p hf _ _ _ hrun)
  rw [World.readField] at hread
  split_ifs at hread
  · obtain ⟨s, _, hs, hrun⟩ := bind_eq_ok.mp hread
    obtain ⟨-, rfl⟩ := need_eq_ok.mp hs
    exact hset hrun fun _ => rfl
  · obtain ⟨s, _, hs, hrun⟩ := bind_eq_ok.mp hread
    obtain ⟨-, rfl⟩ := need_eq_ok.mp hs
    exact hset hrun fun _ => rfl
  · obtain ⟨r, w₁, hload, hrun⟩ := bind_eq_ok.mp hread
    obtain ⟨player, hp, rfl⟩ := updatePlayer_eq_ok.mp hrun
    exact h.loadMap hload hp
  · exact hset hread fun _ => rfl
  · exact hset hread fun _ => rfl
  · exact hset hread fun _ => rfl
  · obtain ⟨-, rfl⟩ := pure_eq_ok.mp hread
    exact h

/-- **Loading a player** gives an owner its first reference. -/
theorem Good.dbPlayerGetPlayer (h : Good defs own [] none w g) {id : CString} {r : Option ℕ}
    (hget : dbPlayerGetPlayer defs id w = .ok (r, w')) :
    r = none ∧ Good defs own [] none w' g ∨
      ∃ p, r = some p ∧ Good defs (Function.update own p (own p + 1)) [] none w' g := by
  rcases dbPlayerGetPlayer_eq_ok h.uncached hget with ⟨-, rfl, rfl⟩ | ⟨doc, -, rfl, hloop⟩
  · exact Or.inl ⟨rfl, h⟩
  · obtain ⟨hzero, hunlisted⟩ := h.balanced.gone w.players.next (ledger defs w).items.get_next
    refine Or.inr ⟨_, rfl, ?_⟩
    have hborn : Good defs (Function.update own w.players.next (own w.players.next + 1)) [] none
        w.withNewPlayer g := by
      refine ⟨?_, h.uncached, h.clean⟩
      rw [withNewPlayer, ledger_newPlayer, hzero]
      exact h.balanced.born rfl rfl
    have hstart : Reading defs (Function.update own w.players.next (own w.players.next + 1)) g
        w.players.next w.withNewPlayer := ⟨hborn, hunlisted⟩
    exact (forEach_invariant (fun _ _ _ _ hs hread => hs.readField hread) hstart hloop).1

/-! ## The calls of the owners -/

/-- The server, the number of references to each player that somebody owns, and what was
noted so far. -/
structure Usage where
  world : World
  own : ℕ → ℕ
  notes : Notes

/-- Nobody has made a call. -/
def Usage.boot (playerdata : List Document) : Usage :=
  ⟨World.boot playerdata, fun _ => 0, Notes.empty⟩

/-- A call. -/
inductive OwnerCall where
  | connect (fd : ℕ)
  /-- `db_player_get_player`. -/
  | load (id : CString)
  /-- A session becomes the session of a player. -/
  | attach (p s : ℕ)
  | spawn (id : ℤ) (p : ℕ) (x y suppress : ℤ)
  | move (p : ℕ) (x y : ℤ) (args : MoveArgs)
  | remove (m : Option ℕ) (p : ℕ)
  | free (p : ℕ)

variable (defs) in
/-- The calls that return. -/
inductive OwnerCalls : Usage → OwnerCall → Usage → Prop
  | connect {u : Usage} {fd s : ℕ} {w' : World} :
      sessionCreate fd u.world = .ok (s, w') → OwnerCalls u (.connect fd) { u with world := w' }
  | load {u : Usage} {id : CString} {p : ℕ} {w' : World} :
      dbPlayerGetPlayer defs id u.world = .ok (some p, w') →
      OwnerCalls u (.load id) ⟨w', Function.update u.own p (u.own p + 1), u.notes⟩
  | absent {u : Usage} {id : CString} {w' : World} :
      dbPlayerGetPlayer defs id u.world = .ok (none, w') →
      OwnerCalls u (.load id) { u with world := w' }
  | attach {u : Usage} {p s : ℕ} {w' : World} :
      updatePlayer p (fun player => { player with session := some s }) u.world = .ok ((), w') →
      OwnerCalls u (.attach p s) { u with world := w' }
  | spawn {u : Usage} {fuel p : ℕ} {id x y suppress r : ℤ} {w' : World} :
      0 < u.own p → mapSpawnPlayer defs fuel id p x y suppress u.world = .ok (r, w') →
      OwnerCalls u (.spawn id p x y suppress)
        ⟨w', u.own, (walkMapSpawnPlayer defs fuel id p x y suppress).notes u.world u.notes⟩
  | move {u : Usage} {fuel p : ℕ} {x y : ℤ} {args : MoveArgs} {r : Bool} {w' : World} :
      0 < u.own p → playerMove defs fuel p x y args u.world = .ok (r, w') →
      OwnerCalls u (.move p x y args)
        ⟨w', u.own, (walkPlayerMove defs fuel p x y args).notes u.world u.notes⟩
  | remove {u : Usage} {m : Option ℕ} {p : ℕ} {w' : World} :
      mapRemovePlayer defs m p u.world = .ok ((), w') →
      OwnerCalls u (.remove m p) ⟨w', u.own, (walkMapRemovePlayer defs m p).notes u.world u.notes⟩
  | free {u : Usage} {p : ℕ} {w' : World} :
      0 < u.own p → playerFree defs p u.world = .ok ((), w') →
      OwnerCalls u (.free p) ⟨w', Function.update u.own p (u.own p - 1),
        (walkPlayerFree defs p).notes u.world u.notes⟩

variable (defs) in
/-- The states a spawn or a move passes, whether it returns or not. -/
inductive Underway (u : Usage) : World → Notes → Prop
  | spawn {fuel p : ℕ} {id x y suppress : ℤ} {w : World} {g : Notes} :
      0 < u.own p →
      (w, g) ∈ (walkMapSpawnPlayer defs fuel id p x y suppress).passed u.world u.notes →
      Underway u w g
  | move {fuel p : ℕ} {x y : ℤ} {args : MoveArgs} {w : World} {g : Notes} :
      0 < u.own p →
      (w, g) ∈ (walkPlayerMove defs fuel p x y args).passed u.world u.notes → Underway u w g

/-- Between two calls the references are in order, and no events are being activated. -/
def Usage.Settled (defs : MapDefs) (u : Usage) : Prop :=
  Good defs u.own [] none u.world u.notes ∧ u.notes.active = []

theorem Usage.settled_boot (playerdata : List Document) : (Usage.boot playerdata).Settled defs := by
  refine ⟨⟨⟨?_, ?_, ?_, ?_, ?_, ?_⟩, rfl, fun map hmap => absurd hmap List.not_mem_nil⟩, rfl⟩
  · exact fun m box hm => absurd hm.symm (Option.some_ne_none box)
  · exact fun m _ => ⟨rfl, rfl⟩
  · exact fun p item hp => absurd hp.symm (Option.some_ne_none item)
  · exact fun p _ => ⟨rfl, fun m box hm => absurd hm.symm (Option.some_ne_none box)⟩
  · exact fun m box p hm => absurd hm.symm (Option.some_ne_none box)
  · exact fun m box hm => absurd hm.symm (Option.some_ne_none box)

/-- **Every call** leaves the references in order. -/
theorem OwnerCalls.settled {u u' : Usage} {call : OwnerCall} (h : OwnerCalls defs u call u')
    (hu : u.Settled defs) : u'.Settled defs := by
  obtain ⟨hgood, hactive⟩ := hu
  cases h with
  | connect hrun =>
    obtain rfl := sessionCreate_eq_ok hrun
    exact ⟨⟨hgood.balanced, hgood.uncached, hgood.clean⟩, hactive⟩
  | load hrun =>
    rcases hgood.dbPlayerGetPlayer hrun with ⟨hnone, -⟩ | ⟨q, hq, hload⟩
    · exact absurd hnone (Option.some_ne_none _)
    · obtain rfl := Option.some.inj hq
      exact ⟨hload, hactive⟩
  | absent hrun =>
    rcases hgood.dbPlayerGetPlayer hrun with ⟨-, hsame⟩ | ⟨q, hq, -⟩
    · exact ⟨hsame, hactive⟩
    · exact absurd hq.symm (Option.some_ne_none q)
  | attach hrun =>
    obtain ⟨player, hp, rfl⟩ := updatePlayer_eq_ok.mp hrun
    refine ⟨SameLedger.good ?_ hgood, hactive⟩
    exact .setPlayer hp rfl
  | spawn hown hrun =>
    have hspawn := (keeps_mapSpawnPlayer _ hown _ _ _ _ _ _ _ hgood).2 _ _ hrun
    exact ⟨hspawn.1, hspawn.2.trans hactive⟩
  | move hown hrun =>
    have hmove := (keeps_playerMove _ hown _ _ _ _ _ _ hgood).2 _ _ hrun
    exact ⟨hmove.1, hmove.2.trans hactive⟩
  | remove hrun =>
    have hremove := (safe_mapRemovePlayer (I := fun _ _ => True) hgood (fun _ _ _ => trivial)
      (fun _ _ _ _ => trivial) _).2 _ _ hrun
    exact ⟨hremove.1, hremove.2.1.trans hactive⟩
  | free hown hrun =>
    obtain ⟨player, hp⟩ := hgood.player_of_own hown
    have hfree := (safe_playerFree (I := fun _ _ => True) hgood hp hown (fun _ _ _ _ => trivial)
      (fun _ _ _ _ => trivial)).2 _ _ hrun
    exact ⟨hfree.1, hfree.2.trans hactive⟩

theorem Underway.sheltered {u : Usage} (h : Underway defs u w g) (hu : u.Settled defs) :
    Sheltered w g := by
  cases h with
  | spawn hown hmem => exact ((keeps_mapSpawnPlayer _ hown _ _ _ _ _ _ _ hu.1).1 _ hmem).sheltered
  | move hown hmem => exact ((keeps_playerMove _ hown _ _ _ _ _ _ hu.1).1 _ hmem).sheltered

/-- **No use of a freed map.**  After every run of calls, and in every state a spawn or a
move passes then, each player is on the map that is in `tiles` under the map's id, the map
has a reference for every player on it and every activation of events on it, and no map
was freed with players in its list. -/
theorem usage_sheltered {playerdata : List Document} {l : List (OwnerCall × Usage)} {u : Usage}
    (h : Trace (OwnerCalls defs) (Usage.boot playerdata) l u) :
    Sheltered u.world u.notes ∧ ∀ w g, Underway defs u w g → Sheltered w g := by
  have hu : u.Settled defs :=
    Trace.invariant (fun _ _ _ hsettled hcall => hcall.settled hsettled)
      (Usage.settled_boot playerdata) h
  exact ⟨hu.1.shelters.sheltered, fun _ _ hunder => hunder.sheltered hu⟩

/-- A player is loaded, spawned and moved into a portal.  While the events of the first map
are being activated, it is on the second one. -/
theorem usage_sheltered_door : ∃ l u w g,
    Trace (OwnerCalls mapLoaders) (Usage.boot [doorRecord]) l u ∧
    Underway mapLoaders u w g ∧ g.active = [0] ∧ (w.players.get 0).map Player.map = some (some 1) ∧
    Sheltered u.world u.notes ∧ Sheltered w g := by
  have hvalue : Exec.value (do
      let r ← dbPlayerGetPlayer mapLoaders [97]
      let s ← sessionCreate 3
      updatePlayer 0 fun player => { player with session := some s }
      let v ← Exec.get
      let _ ← mapSpawnPlayer mapLoaders 1 0 0 30 5 1
      let w ← Exec.get
      let g := (walkMapSpawnPlayer mapLoaders 1 0 0 30 5 1).notes v Notes.empty
      pure (decide (r = some 0) &&
        ((walkPlayerMove mapLoaders 1 0 31 5 MoveArgs.zero).passed w g).any fun e =>
          decide (e.2.active = [0] ∧ (e.1.players.get 0).map Player.map = some (some 1))))
      (boot [doorRecord]) = some true := by
    decide +kernel
  obtain ⟨t, hrun⟩ := value_eq_some.mp hvalue
  simp only [bind_eq_ok, get_eq_ok, pure_eq_ok, Bool.and_eq_true, decide_eq_true_eq] at hrun
  obtain ⟨r, w₁, hload, s, w₂, hconnect, ⟨⟩, w₃, hattach, _, _, ⟨rfl, rfl⟩, _, w₄, hspawn, _, _,
    ⟨rfl, rfl⟩, ⟨rfl, hpassed⟩, -⟩ := hrun
  obtain ⟨⟨w, g⟩, hmem, he⟩ := List.any_eq_true.mp hpassed
  obtain ⟨hactive, hmap⟩ := of_decide_eq_true he
  let u : Usage := ⟨w₄, Function.update (fun _ => 0) 0 1,
    (walkMapSpawnPlayer mapLoaders 1 0 0 30 5 1).notes w₃ Notes.empty⟩
  have hcalls : Trace (OwnerCalls mapLoaders) (Usage.boot [doorRecord]) _ u :=
    Trace.nil.snoc (.load hload) |>.snoc (.connect hconnect) |>.snoc (.attach hattach)
      |>.snoc (.spawn (show 0 < 1 from Nat.one_pos) hspawn)
  have hown : 0 < u.own 0 := Nat.one_pos
  have hunder : Underway mapLoaders u w g := .move hown hmem
  obtain ⟨hrest, hall⟩ := usage_sheltered hcalls
  exact ⟨_, u, w, g, hcalls, hunder, hactive, hmap, hrest, hall w g hunder⟩

end World
end MmoBackend
