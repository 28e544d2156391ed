import MmoBackend.World.Counting

/-!
# Moves and spawns keep the references in order

`Keeps` says of a walk that `Good` holds after it if it did before, and that `Shelters`
holds on the way.  It passes through composition, so most functions are done by going
over their text.

There are three exceptions.  Between the moment `map_add_player` lists a player and the
moment it writes the player's map, the list has a player that is not on the map; the two
writes and the references they need are one change of the ledger.  `map_remove_player`
gives the reference of the list back, which must not be the last, and it leaves the
player in no list, which `map_add_player` relies on.  And `map_event_activate` holds a
reference to the map while the events run, since an event may take the player away from
it.
-/

namespace MmoBackend

open Authentication Communication Db Exec Ledger Maps Walk

namespace World

variable {defs : MapDefs} {own : ℕ → ℕ} {held : List ℕ} {d : Option ℕ} {w w' : World}
  {g : Notes} {m p : ℕ} {map : Map} {player : Player} {α β : Type}

/-! ## Walks that keep the references in order -/

variable (defs own) in
/-- The references stay in order. -/
def Keeps {x : Exec World α} (walk : Walk Notes x) : Prop :=
  ∀ held w g, Good defs own held none w g →
    Safe (Shelters defs none) walk w g fun _ w' g' =>
      Good defs own held none w' g' ∧ g'.active = g.active

section Rules

variable {x y : Exec World α} {f : α → Exec World β}

theorem keeps_step (hx : Quiet defs x) : Keeps defs own (.step x) := by
  intro held w g hw
  refine safe_step fun a w' h => ?_
  have hw' := (hx w a w' h).good hw
  exact ⟨hw'.shelters, hw', rfl⟩

theorem keeps_bind {walk : Walk Notes x} {rest : ∀ a, Walk Notes (f a)}
    (hx : Keeps defs own walk) (hf : ∀ a, Keeps defs own (rest a)) :
    Keeps defs own (walk.bind rest) := by
  intro held w g hw
  refine safe_bind <| (hx held w g hw).imp ?_
  rintro a w₁ g₁ - ⟨hw₁, hactive⟩
  refine (hf a held w₁ g₁ hw₁).imp ?_
  rintro b w₂ g₂ - ⟨hw₂, hactive'⟩
  exact ⟨hw₂, hactive'.trans hactive⟩

theorem keeps_step_bind {rest : ∀ a, Walk Notes (f a)} (hx : Quiet defs x)
    (hf : ∀ a, Keeps defs own (rest a)) : Keeps defs own ((Walk.step x).bind rest) :=
  keeps_bind (keeps_step hx) hf

theorem keeps_ite {c : Prop} [Decidable c] {walk : Walk Notes x} {walk' : Walk Notes y}
    (h : Keeps defs own walk) (h' : Keeps defs own walk') :
    Keeps defs own (Walk.ite walk walk' : Walk Notes (if c then x else y)) :=
  fun held w g hw => safe_ite (fun _ => h held w g hw) fun _ => h' held w g hw

theorem keeps_forEach {f : α → Exec World Unit} {walk : ∀ a, Walk Notes (f a)} (l : List α)
    (hf : ∀ a, Keeps defs own (walk a)) : Keeps defs own (Walk.forEach walk l) := by
  intro held w g hw
  refine safe_forEach (fun a _ t g' ht => ?_) (fun _ _ ht => ht.1.shelters) ⟨hw, rfl⟩
  refine (hf a held t g' ht.1).imp ?_
  rintro _ t' g'' - ⟨ht', hactive⟩
  exact ⟨ht', hactive.trans ht.2⟩

/-- A map is loaded, and its reference is lost. -/
theorem keeps_mapLoad (id : ℤ) : Keeps defs own (walkMapLoad defs id) := by
  intro held w g hw
  refine (safe_mapLoad id hw.shelters).imp ?_
  rintro r w' _ - ⟨⟨-, -, rfl⟩ | ⟨i, m, map, -, hi, -, hload⟩, rfl⟩
  · exact ⟨hw, rfl⟩
  · exact ⟨(hw.load hi hload).lose, rfl⟩

theorem keeps_mapSendMapPacket :
    ∀ m s : Option ℕ, Keeps defs own (walkMapSendMapPacket defs m s)
  | some m, some s => keeps_step_bind (quiet_derefMap m) fun map =>
      keeps_bind (keeps_bind (keeps_mapLoad map.id) fun _ => keeps_step_bind (quiet_need _)
        fun _ => keeps_step_bind (quiet_derefMap _) fun _ => keeps_step (within_pure _))
        fun _ => keeps_step_bind (quiet_derefSession s) fun _ =>
          keeps_step (quiet_packetWrite _ _)
  | some _, none => keeps_step (within_pure ())
  | none, _ => keeps_step (within_pure ())

end Rules

/-! ## The list of players of a map -/

/-- A player with one reference more. -/
theorem Good.refPlayer (h : Good defs own held d w g) (hp : w.players.get p = some player) :
    Good defs (Function.update own p (own p + 1)) held d
      (w.setPlayer p { player with refs := player.refs + 1 }) g :=
  h.recountPlayer hp (by omega)

/-- A reference that was taken is given back. -/
theorem update_add_sub (own : ℕ → ℕ) (p : ℕ) :
    Function.update (Function.update own p (own p + 1)) p
      (Function.update own p (own p + 1) p - 1) = own := by
  rw [Function.update_self, Function.update_idem, Nat.add_sub_cancel, Function.update_eq_self]

/-- **`map_add_player`** for a player that is in no list. -/
theorem safe_mapAddPlayer (h : Good defs own held none w g)
    (hunlisted : (ledger defs w).Unlisted p) :
    Safe (Shelters defs none) (walkMapAddPlayer defs m p) w g fun _ w' g' =>
      Good defs own held none w' g' ∧ g'.active = g.active := by
  refine safe_step_bind fun _ w₁ href => ?_
  obtain ⟨player, hp, rfl⟩ := playerRef_eq_ok href
  have h₁ := h.refPlayer hp
  refine ⟨h₁.shelters, safe_step_bind fun _ w₂ hlist => ?_⟩
  obtain ⟨map, hm, rfl⟩ := updateMap_eq_ok.mp hlist
  have h₂ : Shelters defs none ((w.setPlayer p { player with refs := player.refs + 1 }).setMap m
      { map with players := p :: map.players }) g :=
    h₁.shelters.setMap hm rfl (Int.le_refl _)
  refine ⟨h₂, safe_step_bind fun map₂ _ hderef => ?_⟩
  obtain ⟨hm₂, rfl⟩ := derefMap_eq_ok.mp hderef
  obtain rfl := Option.some.inj ((Heap.get_set_self _ hm).symm.trans hm₂)
  refine ⟨h₂, safe_bind <| (safe_mapLoad _ h₂).imp ?_⟩
  rintro r w₃ g - ⟨hloaded, rfl⟩
  -- The map is in its tile, so it is the map that is loaded.
  obtain ⟨i, hid, hle, htile⟩ := h₁.tile_eq hm
  have hwhere : r = some m ∧ w₃ = ((w.setPlayer p { player with refs := player.refs + 1 }).setMap m
      { map with players := p :: map.players }).setMap m
        { map with refs := map.refs + 1, players := p :: map.players } := by
    rcases hloaded with ⟨hbad, -⟩ | ⟨j, k, map', hj, -, rfl, hload⟩
    · dsimp only at hbad
      omega
    · obtain rfl : i = j := by
        dsimp only at hj
        omega
      cases hload with
      | loaded htile' hget =>
        obtain rfl := Option.some.inj (htile.symm.trans htile')
        obtain rfl := Option.some.inj (hm₂.symm.trans hget)
        exact ⟨rfl, rfl⟩
      | created htile' _ _ => exact absurd (htile.symm.trans htile') (Option.some_ne_none _)
  obtain ⟨rfl, rfl⟩ := hwhere
  refine safe_step fun _ w₄ hset => ?_
  obtain ⟨player', hp', rfl⟩ := updatePlayer_eq_ok.mp hset
  obtain rfl := Option.some.inj ((Heap.get_set_self _ hp).symm.trans hp')
  have hentered := h₁.balanced.enter (box_of_get hm) (item_of_get hp') hunlisted
    (by rw [Function.update_self]; exact Nat.succ_pos _)
  rw [update_add_sub] at hentered
  have h₄ : Good defs own held none (((w.setPlayer p
      { player with refs := player.refs + 1 }).setMap m
        { map with players := p :: map.players }).setMap m
          { map with refs := map.refs + 1, players := p :: map.players } |>.setPlayer p
            { player with refs := player.refs + 1, map := some m }) g := by
    refine ⟨?_, h.uncached, h.clean⟩
    rw [ledger_setPlayer, ledger_setMap, ledger_setMap, Ledger.setBox, Ledger.setBox,
      Heap.set_set]
    exact hentered
  exact ⟨h₄.shelters, h₄, rfl⟩

/-- The player is listed only where it is. -/
theorem Good.unlisted (h : Good defs own held d w g) (hp : w.players.get p = some player)
    (hnot : ∀ m map, player.map = some m → w.maps.get m = some map → p ∉ map.players) :
    (ledger defs w).Unlisted p := by
  intro m box hm hmem
  have hbox := h.balanced.box_of_listed hm hmem (item_of_get hp)
  obtain ⟨map, hmap, rfl⟩ := Option.map_eq_some_iff.mp hm
  exact hnot m map hbox hmap hmem

/-- The list of a map is taken out of by `map_remove_player`.  The reference of the list
is the last one only of a player that nobody else has a reference to. -/
theorem safe_unlinkPlayer {I : World → Notes → Prop} (h : Good defs own held none w g)
    (hI : ∀ t g', Shelters defs none t g' → I t g')
    (hlast : own p = 0 → ∀ t g', Shelters defs (some p) t g' → I t g') :
    Safe I (walkUnlinkPlayer defs m p) w g fun _ w' g' =>
      Good defs own held none w' g' ∧ g'.active = g.active ∧
        (0 < own p → ∀ player, w.players.get p = some player → player.map = some m →
          (ledger defs w').Unlisted p) := by
  refine safe_step_bind fun map _ hderef => ?_
  obtain ⟨hm, rfl⟩ := derefMap_eq_ok.mp hderef
  refine ⟨hI _ _ h.shelters, safe_ite (fun hmem => ?_) fun hmem => ?_⟩
  · refine safe_step_bind fun _ w₁ herase => ?_
    obtain rfl := modify_eq_ok.mp herase
    have hbox : (ledger defs w).boxes.get m = some (mapBox map) := box_of_get hm
    have h₁ : Good defs (Function.update own p (own p + 1)) held none
        (w.setMap m { map with players := map.players.erase p }) g := by
      refine ⟨?_, h.uncached, h.clean⟩
      rw [ledger_setMap]
      exact h.balanced.unlist hbox hmem
    have hpos : 0 < Function.update own p (own p + 1) p := by
      rw [Function.update_self]
      exact Nat.succ_pos _
    obtain ⟨player, hp⟩ := h₁.player_of_own hpos
    have hcounted := h₁.balanced.counted p _ (item_of_get hp)
    have hrefs : (playerItem player).refs = player.refs := rfl
    rw [Function.update_self] at hcounted
    have hfree := safe_playerFree h₁ hp hpos (fun _ => hI) fun hle => hlast (by omega)
    rw [update_add_sub] at hfree
    refine ⟨hI _ _ h₁.shelters, safe_bind <| hfree.imp ?_⟩
    rintro _ w₂ g₂ hrun ⟨h₂, hactive⟩
    refine safe_step fun _ _ hpure => ?_
    obtain ⟨-, rfl⟩ := pure_eq_ok.mp hpure
    refine ⟨hI _ _ h₂.shelters, h₂, hactive, fun hown player' hp' hmap => ?_⟩
    obtain rfl := Option.some.inj (hp.symm.trans hp')
    -- It still has the reference of its owner, so nothing but its count was changed.
    obtain ⟨player', hp', ⟨-, rfl⟩ | ⟨hle, -⟩⟩ := playerFree_eq_ok hrun
    · have hunlisted : (ledger defs
          (w.setMap m { map with players := map.players.erase p })).Unlisted p := by
        rw [ledger_setMap]
        exact h.balanced.unlisted_erase hbox (item_of_get hp) hmap
      exact hunlisted
    · obtain rfl := Option.some.inj (hp.symm.trans hp')
      omega
  · refine safe_step fun _ _ hpure => ?_
    obtain ⟨-, rfl⟩ := pure_eq_ok.mp hpure
    refine ⟨hI _ _ h.shelters, h, rfl, fun _ player hp hmap => h.unlisted hp ?_⟩
    intro k map' hk hm'
    obtain rfl := Option.some.inj (hmap.symm.trans hk)
    obtain rfl := Option.some.inj (hm.symm.trans hm')
    exact hmem

/-- **`map_remove_player`**.  A player that is removed from its own map is in no list. -/
theorem safe_mapRemovePlayer {I : World → Notes → Prop} (h : Good defs own held none w g)
    (hI : ∀ t g', Shelters defs none t g' → I t g')
    (hlast : own p = 0 → ∀ t g', Shelters defs (some p) t g' → I t g') (oldMap : Option ℕ) :
    Safe I (walkMapRemovePlayer defs oldMap p) w g fun _ w' g' =>
      Good defs own held none w' g' ∧ g'.active = g.active ∧
        (0 < own p → ∀ player, w.players.get p = some player → player.map = oldMap →
          (ledger defs w').Unlisted p) := by
  cases oldMap with
  | none =>
    refine safe_step fun _ _ hpure => ?_
    obtain ⟨-, rfl⟩ := pure_eq_ok.mp hpure
    refine ⟨hI _ _ h.shelters, h, rfl, fun _ player hp hmap => h.unlisted hp ?_⟩
    intro k _ hk
    rw [hmap] at hk
    exact absurd hk.symm (Option.some_ne_none k)
  | some m =>
    refine safe_bind <| (safe_unlinkPlayer h hI hlast).imp ?_
    rintro removed w₁ g₁ - ⟨h₁, hactive, hunlisted⟩
    refine safe_step_bind fun player' _ hderef => ?_
    obtain ⟨-, rfl⟩ := derefPlayer_eq_ok.mp hderef
    refine ⟨hI _ _ h₁.shelters, safe_step_bind fun id _ hneed => ?_⟩
    obtain ⟨-, rfl⟩ := need_eq_ok.mp hneed
    refine ⟨hI _ _ h₁.shelters, safe_step fun _ w₂ hsend => ?_⟩
    have hsame : SameLedger defs w₁ w₂ := quiet_sendLeaving m _ removed _ _ _ hsend
    have h₂ := hsame.good h₁
    exact ⟨hI _ _ h₂.shelters, h₂, hactive, fun hown player hp hmap =>
      hsame.1 ▸ hunlisted hown player hp hmap⟩

/-- The change of the map, made by an owner of a reference. -/
theorem safe_changeMap (h : Good defs own held none w g) (hown : 0 < own p)
    (hp : w.players.get p = some player) (newMap : Option ℕ) :
    Safe (Shelters defs none) (walkChangeMap defs player.map p newMap) w g fun _ w' g' =>
      Good defs own held none w' g' ∧ g'.active = g.active := by
  cases newMap with
  | none => exact keeps_step (within_pure ()) held w g h
  | some m =>
    refine safe_bind <| (safe_mapRemovePlayer h (fun _ _ ht => ht)
      (fun hzero => by omega) player.map).imp ?_
    rintro _ w₁ g₁ - ⟨h₁, hactive, hunlisted⟩
    refine (safe_mapAddPlayer h₁ (hunlisted hown player hp rfl)).imp ?_
    rintro _ w₂ g₂ - ⟨h₂, hactive'⟩
    exact ⟨h₂, hactive'.trans hactive⟩

/-! ## Events, moves and spawns

They are made by an owner of a reference. -/

section Circle

variable {spawn : ℤ → ℕ → ℤ → ℤ → ℤ → Exec World ℤ}
  {walkSpawn : ∀ id p x y suppress, Walk Notes (spawn id p x y suppress)}

theorem keeps_activateEvent
    (hspawn : ∀ id x y suppress, Keeps defs own (walkSpawn id p x y suppress)) (x y : ℤ) (m : ℕ)
    (e : MapEvent) : Keeps defs own (walkActivateEvent walkSpawn x y m p e) := by
  refine keeps_step_bind (quiet_derefMap m) fun _ => keeps_ite ?_ (keeps_step (within_pure ()))
  obtain ⟨ex, ey, func, args⟩ := e
  cases func with
  | changeMap =>
    exact keeps_step_bind (quiet_need _) fun _ => keeps_step_bind (quiet_need _) fun _ =>
      keeps_step_bind (quiet_need _) fun _ => keeps_step_bind (quiet_need _) fun _ =>
        keeps_bind (hspawn _ _ _ _) fun _ => keeps_step (within_pure ())
  | _ => exact keeps_step_bind (quiet_derefPlayer p) fun _ => keeps_step (within_pure ())

/-- **`map_event_activate`** holds a reference while the events run. -/
theorem keeps_mapEventActivate
    (hspawn : ∀ id x y suppress, Keeps defs own (walkSpawn id p x y suppress)) (x y : ℤ) (m : ℕ) :
    Keeps defs own (walkMapEventActivate defs walkSpawn x y m p) := by
  intro held w g h
  refine safe_step_bind fun map _ hderef => ?_
  obtain ⟨hm, rfl⟩ := derefMap_eq_ok.mp hderef
  refine ⟨h.shelters, safe_bind <| (safe_mapLoad map.id h.shelters).imp ?_⟩
  rintro r w₁ g - ⟨hloaded, rfl⟩
  obtain ⟨i, hid, hle, htile⟩ := h.tile_eq hm
  obtain ⟨rfl, h₁⟩ : r = some m ∧ Good defs own (m :: held) none w₁ g := by
    rcases hloaded with ⟨hbad, -⟩ | ⟨j, k, map', hj, hlt, rfl, hload⟩
    · omega
    · obtain rfl : i = j := by omega
      have hgood := h.load hlt hload
      cases hload with
      | loaded htile' _ =>
        obtain rfl := Option.some.inj (htile.symm.trans htile')
        exact ⟨rfl, hgood⟩
      | created htile' _ _ => exact absurd (htile.symm.trans htile') (Option.some_ne_none _)
  have h₂ : Good defs own held none w₁ (g.enter m) := by
    refine ⟨h₁.balanced.mono fun k => ?_, h₁.uncached, h₁.clean⟩
    exact le_of_eq (List.perm_middle.count_eq k)
  refine safe_note h₂.shelters <| safe_bind <|
    (keeps_forEach map.events (keeps_activateEvent hspawn x y m) held w₁ _ h₂).imp ?_
  rintro _ w₃ g₃ - ⟨h₃, hactive⟩
  have hleave : (g₃.leave m).active = g.active := by
    show g₃.active.erase m = _
    rw [hactive]
    exact List.erase_cons_head _ _
  have h₄ : Good defs own (m :: held) none w₃ (g₃.leave m) := by
    refine ⟨h₃.balanced.mono fun k => ?_, h₃.uncached, h₃.clean⟩
    rw [hleave, hactive]
    exact le_of_eq (List.perm_middle.symm.count_eq k)
  refine safe_note h₄.shelters <| safe_step_bind fun map₄ _ hderef' => ?_
  obtain ⟨hm₄, rfl⟩ := derefMap_eq_ok.mp hderef'
  refine ⟨h₄.shelters, (safe_mapUnloadWith _ h₄ hm₄).imp ?_⟩
  rintro _ w₅ g₅ - ⟨h₅, hactive'⟩
  exact ⟨h₅, hactive'.trans hleave⟩

variable {activate : ℤ → ℤ → ℕ → ℕ → Exec World Unit}
  {walkActivate : ∀ x y m p, Walk Notes (activate x y m p)}

/-- **`player_move`**. -/
theorem keeps_playerMoveWith (hown : 0 < own p)
    (hactivate : ∀ x y m, Keeps defs own (walkActivate x y m p)) (x y : ℤ) (args : MoveArgs) :
    Keeps defs own (walkPlayerMoveWith defs walkActivate p x y args) := by
  have hmoveTo : Keeps defs own (walkMoveTo walkActivate p x y args.suppressEvents) := by
    refine keeps_step_bind (quiet_updatePlayer p fun _ => rfl) fun _ =>
      keeps_bind ?_ fun _ => keeps_step (quiet_announce p)
    exact keeps_ite (keeps_step (within_pure ())) <| keeps_step_bind (quiet_derefPlayer p)
      fun _ => keeps_step_bind (quiet_need _) fun m => hactivate x y m
  have hmoveWithin : ∀ oldMap, Keeps defs own (walkMoveWithin walkActivate oldMap p x y args) := by
    intro oldMap
    refine keeps_step_bind (quiet_derefPlayer p) fun _ => keeps_step_bind (quiet_need _)
      fun m => keeps_step_bind (quiet_derefMap m) fun _ => keeps_ite ?_ (keeps_step (within_pure _))
    refine keeps_step_bind (quiet_toggleCoord m x y true) fun _ =>
      keeps_ite ?_ (keeps_step (within_pure _))
    exact keeps_step_bind (quiet_enableOldCoord p oldMap) fun _ => keeps_ite
      (keeps_bind hmoveTo fun _ => keeps_step (within_pure _)) (keeps_step (within_pure _))
  intro held w g h
  refine safe_step_bind fun player _ hderef => ?_
  obtain ⟨hp, rfl⟩ := derefPlayer_eq_ok.mp hderef
  refine ⟨h.shelters, safe_bind <| (safe_changeMap h hown hp args.map).imp ?_⟩
  rintro _ w₁ g₁ - ⟨h₁, hactive⟩
  have hrest : Keeps defs own (.bind (.step (moveValid p x y args.map)) fun valid =>
      .ite (walkMoveWithin walkActivate player.map p x y args) (.step (pure false)) :
        Walk Notes (moveValid p x y args.map >>= fun valid =>
          if valid then moveWithin activate player.map p x y args else pure false)) :=
    keeps_step_bind (quiet_moveValid p x y args.map) fun _ =>
      keeps_ite (hmoveWithin player.map) (keeps_step (within_pure _))
  refine (hrest held w₁ g₁ h₁).imp ?_
  rintro _ w₂ g₂ - ⟨h₂, hactive'⟩
  exact ⟨h₂, hactive'.trans hactive⟩

variable {move : ℕ → ℤ → ℤ → MoveArgs → Exec World Bool}
  {walkMove : ∀ p x y args, Walk Notes (move p x y args)}

/-- **`map_spawn_player`**. -/
theorem keeps_mapSpawnPlayerWith (hmove : ∀ x y args, Keeps defs own (walkMove p x y args))
    (id x y suppress : ℤ) :
    Keeps defs own (walkMapSpawnPlayerWith defs walkMove id p x y suppress) :=
  keeps_ite (keeps_step (within_pure _)) <| keeps_bind (keeps_mapLoad id) fun loaded =>
    keeps_step_bind (quiet_derefPlayer p) fun player =>
      keeps_bind (keeps_mapSendMapPacket loaded player.session) fun _ =>
        keeps_bind (hmove x y _) fun _ => keeps_step_bind (quiet_need _) fun m =>
          keeps_step_bind (quiet_sendPositions m p) fun _ => keeps_step (within_pure _)

end Circle

theorem keeps_mapSpawnPlayer (fuel : ℕ) (hown : 0 < own p) (id x y suppress : ℤ) :
    Keeps defs own (walkMapSpawnPlayer defs fuel id p x y suppress) := by
  induction fuel generalizing id x y suppress with
  | zero => exact keeps_step (within_stop _)
  | succ fuel ih =>
    exact keeps_mapSpawnPlayerWith (fun x y args => keeps_playerMoveWith hown
      (fun x y m => keeps_mapEventActivate ih x y m) x y args) id x y suppress

theorem keeps_playerMove (fuel : ℕ) (hown : 0 < own p) (x y : ℤ) (args : MoveArgs) :
    Keeps defs own (walkPlayerMove defs fuel p x y args) :=
  keeps_playerMoveWith hown (fun x y m => keeps_mapEventActivate
    (keeps_mapSpawnPlayer fuel hown) x y m) x y args

end World
end MmoBackend
