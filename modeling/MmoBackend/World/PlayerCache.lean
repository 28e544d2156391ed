import MmoBackend.Library.Assoc
import MmoBackend.Library.Holdings
import MmoBackend.Library.Trace
import MmoBackend.World.Registry

/-!
# The player cache and its references

A player enters the cache with one reference, which belongs to whoever inserts it, and
every `player_cache_find` adds one for its caller.  `player_free` gives a reference back;
with the last one it removes the player from the cache, and the table calls
`player_cache_destroy_cache` on the way.  That callback would free the player once more if
it saw a reference left.  It sees none, since the count has been lowered before, and
`playerFree_last` is stated for any function in the place of the inner `player_free`.

`Cached` is the invariant.  A player that was inserted is there and is found under its id
while callers hold references to it, as many as it counts, and is gone and not found
afterwards.
-/

namespace MmoBackend

open Authentication Exec

namespace World

variable {defs : Maps.MapDefs}

/-- A player that was just created, with an id and no map. -/
structure Fresh (player : Player) (id : CString) : Prop where
  refs : player.refs = 1
  own : player.id = some id
  modified : player.modified = 0
  map : player.map = none

/-- The new player `player` is created and inserted under `id`. -/
def insertFresh (defs : Maps.MapDefs) (player : Player) (id : CString) : Exec World ℤ := do
  let w ← Exec.get
  Exec.modify fun w => { w with players := w.players.alloc player }
  playerCacheInsert defs id w.players.next

/-! ## The three calls -/

section Calls

variable {w : World} {p : ℕ} {player : Player} {id : CString}

/-- The state after a fresh player was inserted. -/
def inserted (player : Player) (id : CString) (w : World) : World :=
  { w with
    players := w.players.alloc player
    cache := (id, w.players.next) :: w.cache.filter fun e => e.1 ≠ id }

/-- The state after a player was counted anew. -/
def countPlayer (p : ℕ) (player : Player) (refs : ℤ) (w : World) : World :=
  w.setPlayer p { player with refs := refs }

/-- The state after a player was removed and destroyed. -/
def removed (p : ℕ) (id : CString) (w : World) : World :=
  { w with
    players := w.players.free p
    cache := w.cache.filter fun e => e.1 ≠ id }

theorem lock_of_nil (hlocks : w.locks = []) (l : Lock) : lock l w = .ok ((), w.setLocks [l]) :=
  lock_eq_ok.mpr ⟨hlocks ▸ List.not_mem_nil, by rw [hlocks]⟩

theorem setLocks_nil (hlocks : w.locks = []) : w.setLocks [] = w := by
  rw [← hlocks]
  rfl

/-- The two locks are different, and both are given back. -/
theorem erase_locks (p : ℕ) : ([Lock.player p, .cache].erase .cache).erase (.player p) = [] := by
  simp

theorem lock_player (w : World) (p : ℕ) : lock (.player p) (w.setLocks [.cache])
    = .ok ((), w.setLocks [.player p, .cache]) := by
  refine lock_eq_ok.mpr ⟨?_, rfl⟩
  show Lock.player p ∉ [Lock.cache]
  simp

/-- **Inserting a player** under an id that is not cached. -/
theorem insertFresh_run (hlocks : w.locks = []) (hid : w.cache.lookup id = none)
    (player : Player) : insertFresh defs player id w = .ok (1, inserted player id w) := by
  have hlock := lock_of_nil (w := { w with players := w.players.alloc player }) hlocks .cache
  rw [insertFresh, get_bind,
    modify_bind, playerCacheInsert, bind_of_ok hlock,
    get_bind, modify_bind]
  dsimp only [setLocks]
  rw [hid]
  exact congrArg (fun v => Except.ok (1, v)) (setLocks_nil (w := inserted player id w) hlocks)

/-- **Finding a player** that is cached counts a reference. -/
theorem playerCacheFind_of_some (hlocks : w.locks = []) (hid : w.cache.lookup id = some p)
    (hp : w.players.get p = some player) :
    playerCacheFind id w = .ok (some p, countPlayer p player (player.refs + 1) w) := by
  have hid' : (w.setLocks [.cache]).cache.lookup id = some p := hid
  have hp' : (w.setLocks [.player p, .cache]).players.get p = some player := hp
  rw [playerCacheFind, bind_of_ok (lock_of_nil hlocks .cache),
    get_bind, hid']
  dsimp only
  rw [bind_of_ok (lock_player w p),
    bind_of_ok ((updatePlayer_eq_ok (u := ())).mpr ⟨player, hp', rfl⟩),
    bind_of_ok ((unlock_eq_ok (u := ())).mpr rfl), bind_of_ok ((unlock_eq_ok (u := ())).mpr rfl)]
  show Except.ok (some p, World.setLocks (([Lock.player p, .cache].erase .cache).erase (.player p))
    (countPlayer p player (player.refs + 1) w)) = _
  rw [erase_locks, setLocks_nil]
  exact hlocks

/-- Nothing is found under an id that is not cached. -/
theorem playerCacheFind_of_none (hlocks : w.locks = []) (hid : w.cache.lookup id = none) :
    playerCacheFind id w = .ok (none, w) := by
  have hid' : (w.setLocks [.cache]).cache.lookup id = none := hid
  rw [playerCacheFind, bind_of_ok (lock_of_nil hlocks .cache),
    get_bind, hid']
  dsimp only
  exact congrArg (fun v => Except.ok (none, v)) (setLocks_nil hlocks)

section Free

variable (free : ℕ → Exec World Unit)

/-- `player_free` after the count. -/
theorem playerFreeWith_eq (hlocks : w.locks = []) (hp : w.players.get p = some player) :
    playerFreeWith defs free p w
      = (if 0 < player.refs - 1 then do
          unlock .cache
          unlock (.player p)
        else releasePlayer defs free p)
        ((countPlayer p player (player.refs - 1) w).setLocks [.player p, .cache]) := by
  have hp' : (w.setLocks [.player p, .cache]).players.get p = some player := hp
  have hget : ((countPlayer p player (player.refs - 1) w).setLocks
      [.player p, .cache]).players.get p = some { player with refs := player.refs - 1 } :=
    Heap.get_set_self _ hp
  have hcount : updatePlayer p (fun player => { player with refs := player.refs - 1 })
      (w.setLocks [.player p, .cache])
        = .ok ((), (countPlayer p player (player.refs - 1) w).setLocks [.player p, .cache]) :=
    updatePlayer_eq_ok.mpr ⟨player, hp', rfl⟩
  rw [playerFreeWith, bind_of_ok (lock_of_nil hlocks .cache), bind_of_ok (lock_player w p),
    bind_of_ok hcount, bind_of_ok (derefPlayer_eq_ok.mpr ⟨hget, rfl⟩)]

/-- A reference that is not the last. -/
theorem playerFreeWith_more (hlocks : w.locks = []) (hp : w.players.get p = some player)
    (hrefs : 0 < player.refs - 1) :
    playerFreeWith defs free p w = .ok ((), countPlayer p player (player.refs - 1) w) := by
  rw [playerFreeWith_eq free hlocks hp, if_pos hrefs,
    bind_of_ok ((unlock_eq_ok (u := ())).mpr rfl)]
  show Except.ok ((), World.setLocks (([Lock.player p, .cache].erase .cache).erase (.player p))
    (countPlayer p player (player.refs - 1) w)) = _
  rw [erase_locks, setLocks_nil]
  exact hlocks

/-- Removing a player without references: the callback of the table returns at once. -/
theorem uncachePlayer_run (hp : w.players.get p = some player) (hrefs : player.refs = 0)
    (hplayer : player.id = some id) (hid : w.cache.lookup id = some p) :
    uncachePlayer free p w
      = .ok ((), { w with cache := w.cache.filter fun e => e.1 ≠ id }) := by
  have hp' : ({ w with cache := w.cache.filter fun e => e.1 ≠ id } : World).players.get p
      = some player := hp
  rw [uncachePlayer, bind_of_ok (derefPlayer_eq_ok.mpr ⟨hp, rfl⟩), hplayer]
  dsimp only
  rw [playerCacheRemove, get_bind, hid]
  dsimp only
  rw [modify_bind, playerCacheDestroyCache,
    bind_of_ok (derefPlayer_eq_ok.mpr ⟨hp', rfl⟩), if_pos hrefs]
  rfl

/-- **The last reference.**  Whatever the `player_free` is that the callback would call, the
player is removed and destroyed once. -/
theorem playerFreeWith_last (hlocks : w.locks = []) (hp : w.players.get p = some player)
    (hrefs : player.refs - 1 = 0) (hmodified : player.modified = 0) (hmap : player.map = none)
    (hplayer : player.id = some id) (hid : w.cache.lookup id = some p) :
    playerFreeWith defs free p w
      = .ok ((), removed p id (countPlayer p player (player.refs - 1) w)) := by
  have hget : ((countPlayer p player (player.refs - 1) w).setLocks
      [.player p, .cache]).players.get p = some { player with refs := player.refs - 1 } :=
    Heap.get_set_self _ hp
  rw [playerFreeWith_eq free hlocks hp, if_neg (by omega), releasePlayer]
  have hid' : ((countPlayer p player (player.refs - 1) w).setLocks
      [.player p, .cache]).cache.lookup id = some p := hid
  have hunlocked : (countPlayer p player (player.refs - 1) w).locks = [] := hlocks
  generalize (countPlayer p player (player.refs - 1) w) = v at hget hid' hunlocked ⊢
  have hwrite : writeModified p (v.setLocks [.player p, .cache])
      = .ok ((), v.setLocks [.player p, .cache]) := by
    rw [writeModified, bind_of_ok (derefPlayer_eq_ok.mpr ⟨hget, rfl⟩), if_pos hmodified]
    rfl
  have hunload : unloadPlayerMap defs free p (v.setLocks [.player p, .cache])
      = .ok ((), v.setLocks [.player p, .cache]) := by
    rw [unloadPlayerMap, bind_of_ok (derefPlayer_eq_ok.mpr ⟨hget, rfl⟩)]
    dsimp only
    rw [hmap]
    rfl
  rw [bind_of_ok hwrite, bind_of_ok hunload,
    bind_of_ok (uncachePlayer_run free hget hrefs hplayer hid'),
    bind_of_ok ((unlock_eq_ok (u := ())).mpr rfl), destroyPlayer]
  show Except.ok ((), World.setLocks (([Lock.player p, .cache].erase .cache).erase (.player p))
    (removed p id v)) = _
  rw [erase_locks]
  exact congrArg (fun u => Except.ok ((), u)) (setLocks_nil (w := removed p id v) hunlocked)

end Free

end Calls

/-! ## The callers -/

/-- Callers at work with the cache.  `held t p` is the number of references to `p` that `t`
has obtained and not released. -/
structure CacheUse (T : Type) where
  world : World
  held : T → ℕ → ℕ
  /-- The id a player was inserted under. -/
  name : ℕ → Option CString
  /-- How often a player has ceased to be there. -/
  destroyed : ℕ → ℕ

/-- A call of one of the three functions. -/
inductive CacheAction (T : Type) where
  /-- `player_cache_insert` with a fresh player. -/
  | insert (t : T) (player : Player) (id : CString)
  /-- `player_cache_find`, and what it returns. -/
  | find (t : T) (id : CString) (result : Option ℕ)
  /-- `player_free`. -/
  | free (t : T) (p : ℕ)

namespace CacheUse

variable {T : Type}

/-- Whether a player ceases to be there. -/
def ceases (w w' : World) (p : ℕ) : ℕ :=
  if (w.players.get p).isSome ∧ w'.players.get p = none then 1 else 0

/-- The cache is empty and nobody holds anything. -/
def start (w : World) : CacheUse T := ⟨w, fun _ _ => 0, fun _ => none, fun _ => 0⟩

variable [DecidableEq T]

/-- A caller has `n` references to a player. -/
def hold (held : T → ℕ → ℕ) (t : T) (p n : ℕ) : T → ℕ → ℕ :=
  fun u q => if u = t ∧ q = p then n else held u q

/-- The state after a call. -/
def after (s : CacheUse T) (w : World) (held : T → ℕ → ℕ) : CacheUse T where
  world := w
  held := held
  name := s.name
  destroyed p := s.destroyed p + ceases s.world w p

/-- The state after a player was inserted. -/
def afterInsert (s : CacheUse T) (t : T) (id : CString) (w : World) : CacheUse T :=
  { s.after w (hold s.held t s.world.players.next (s.held t s.world.players.next + 1)) with
    name := Function.update s.name s.world.players.next (some id) }

/-- The state after a player was found, or not. -/
def afterFind (s : CacheUse T) (t : T) (w : World) : Option ℕ → CacheUse T
  | none => s.after w s.held
  | some p => s.after w (hold s.held t p (s.held t p + 1))

/-- The calls, in any order.  A caller frees only references it holds. -/
inductive Step (defs : Maps.MapDefs) : CacheUse T → CacheAction T → CacheUse T → Prop
  | insert {s : CacheUse T} {t : T} {player : Player} {id : CString} {r : ℤ} {w : World} :
      Fresh player id → s.world.cache.lookup id = none →
      insertFresh defs player id s.world = .ok (r, w) →
      Step defs s (.insert t player id) (s.afterInsert t id w)
  | find {s : CacheUse T} {t : T} {id : CString} {result : Option ℕ} {w : World} :
      playerCacheFind id s.world = .ok (result, w) →
      Step defs s (.find t id result) (s.afterFind t w result)
  | free {s : CacheUse T} {t : T} {p : ℕ} {w : World} : 0 < s.held t p →
      playerFree defs p s.world = .ok ((), w) →
      Step defs s (.free t p) (s.after w (hold s.held t p (s.held t p - 1)))

theorem hold_self (held : T → ℕ → ℕ) (t : T) (p n : ℕ) : hold held t p n t p = n :=
  if_pos ⟨rfl, rfl⟩

theorem hold_of_ne_caller (held : T → ℕ → ℕ) {t u : T} (hu : u ≠ t) (p n q : ℕ) :
    hold held t p n u q = held u q := if_neg fun h => hu h.1

theorem hold_of_ne (held : T → ℕ → ℕ) (t u : T) {p q : ℕ} (hq : q ≠ p) (n : ℕ) :
    hold held t p n u q = held u q := if_neg fun h => hq h.2

/-! ## The invariant -/

/-- A player that is there: it counts the references to it, of which there are some, and it
is found under its id. -/
structure Alive (s : CacheUse T) (p : ℕ) (id : CString) (player : Player) (n : ℕ) : Prop where
  get : s.world.players.get p = some player
  refs : player.refs = (n + 1 : ℕ)
  holdings : Holdings (n + 1) fun t => s.held t p
  own : player.id = some id
  modified : player.modified = 0
  map : player.map = none
  cached : s.world.cache.lookup id = some p
  destroyed : s.destroyed p = 0

/-- A player that is gone: nobody holds a reference to it, it is not found, and it was
destroyed once. -/
structure Gone (s : CacheUse T) (p : ℕ) (id : CString) : Prop where
  get : s.world.players.get p = none
  held : ∀ t, s.held t p = 0
  cached : s.world.cache.lookup id ≠ some p
  destroyed : s.destroyed p = 1

/-- **The count of every player is the number of references to it.** -/
structure Cached (s : CacheUse T) : Prop where
  unlocked : s.world.locks = []
  known : ∀ p id, s.name p = some id → (∃ player n, s.Alive p id player n) ∨ s.Gone p id
  found : ∀ id p, s.world.cache.lookup id = some p → s.name p = some id
  unknown : ∀ p, s.name p = none → (∀ t, s.held t p = 0) ∧ s.destroyed p = 0
  fresh : ∀ p, s.world.players.next ≤ p → s.name p = none

theorem cached_start {w : World} (hlocks : w.locks = []) (hcache : w.cache = []) :
    (start w : CacheUse T).Cached where
  unlocked := hlocks
  known p id h := absurd h (by simp [start])
  found id p h := by
    have hnil : w.cache.lookup id = some p := h
    rw [hcache] at hnil
    exact absurd hnil (by simp)
  unknown _ _ := ⟨fun _ => rfl, rfl⟩
  fresh _ _ := rfl

/-- A call does not touch a player. -/
structure Untouched (s s' : CacheUse T) (p : ℕ) (id : CString) : Prop where
  get : s'.world.players.get p = s.world.players.get p
  held : ∀ t, s'.held t p = s.held t p
  destroyed : s'.destroyed p = s.destroyed p
  cached : s'.world.cache.lookup id = some p ↔ s.world.cache.lookup id = some p

theorem Untouched.known {s s' : CacheUse T} {p : ℕ} {id : CString} (h : Untouched s s' p id)
    (hp : (∃ player n, s.Alive p id player n) ∨ s.Gone p id) :
    (∃ player n, s'.Alive p id player n) ∨ s'.Gone p id := by
  rcases hp with ⟨player, n, halive⟩ | hgone
  · exact Or.inl ⟨player, n, h.get.trans halive.get, halive.refs,
      halive.holdings.congr fun t => (h.held t).symm, halive.own, halive.modified, halive.map,
      h.cached.mpr halive.cached, h.destroyed.trans halive.destroyed⟩
  · exact Or.inr ⟨h.get.trans hgone.get, fun t => (h.held t).trans (hgone.held t),
      fun hc => hgone.cached (h.cached.mp hc), h.destroyed.trans hgone.destroyed⟩

theorem ceases_of_get_eq {w w' : World} {p : ℕ} (h : w'.players.get p = w.players.get p) :
    ceases w w' p = 0 := by
  refine if_neg fun hc => ?_
  rw [h] at hc
  exact absurd hc.1 (by simp [hc.2])

/-! ## One call -/

theorem Cached.ne_next {s : CacheUse T} (h : Cached s) {p : ℕ} {id : CString}
    (hp : s.name p = some id) : p ≠ s.world.players.next := by
  rintro rfl
  exact absurd ((h.fresh _ (Nat.le_refl _)).symm.trans hp) (by simp)

/-- A player that was never inserted is as before after a call about another one. -/
theorem Cached.unknown_after {s : CacheUse T} (h : Cached s) {w : World} {t : T} {p q n : ℕ}
    (hq : s.name q = none) (hqp : q ≠ p) (hget : w.players.get q = s.world.players.get q) :
    (∀ u, hold s.held t p n u q = 0) ∧ s.destroyed q + ceases s.world w q = 0 := by
  obtain ⟨hheld, hdestroyed⟩ := h.unknown q hq
  refine ⟨fun u => (hold_of_ne _ _ _ hqp _).trans (hheld u), ?_⟩
  rw [hdestroyed, ceases_of_get_eq hget]

/-- **An insertion** makes a player with one reference and touches no other. -/
theorem cached_insert {s : CacheUse T} (h : Cached s) (t : T) {player : Player} {id : CString}
    (hfresh : Fresh player id) (hid : s.world.cache.lookup id = none) :
    Cached (s.afterInsert t id (inserted player id s.world)) := by
  have hnext := h.unknown _ (h.fresh _ (Nat.le_refl s.world.players.next))
  have hcease : ∀ p, ceases s.world (inserted player id s.world) p = 0 := by
    intro p
    refine if_neg fun hc => ?_
    obtain ⟨old, hthere⟩ := Option.isSome_iff_exists.mp hc.1
    exact absurd (hc.2.symm.trans (Heap.get_alloc_of_get player hthere)) (by simp)
  have hname : ∀ p, (s.afterInsert t id (inserted player id s.world)).name p
      = if p = s.world.players.next then some id else s.name p := fun p =>
    Function.update_apply _ _ _ _
  have hlookup : ∀ id', id' ≠ id → (inserted player id s.world).cache.lookup id'
      = s.world.cache.lookup id' := fun id' hne =>
    (Assoc.lookup_cons_of_ne _ _ hne).trans (Assoc.lookup_filter_of_ne _ hne)
  refine ⟨h.unlocked, fun p id' hp => ?_, fun id' p hp => ?_, fun p hp => ?_, fun p hp => ?_⟩
  · rw [hname] at hp
    split at hp
    · rename_i hnew
      obtain rfl := Option.some.inj hp
      refine Or.inl ⟨player, 0, ?_⟩
      rw [hnew]
      refine ⟨Heap.get_alloc_next _ _, hfresh.refs, ?_, hfresh.own, hfresh.modified, hfresh.map,
        List.lookup_cons_self, ?_⟩
      · refine Holdings.zero.take (t := t) ?_ fun u hu => ?_
        · show hold s.held t _ _ t _ = _
          rw [hold_self, hnext.1]
        · show hold s.held t _ _ u _ = _
          rw [hold_of_ne_caller _ hu, hnext.1]
      · show s.destroyed _ + ceases _ _ _ = 0
        rw [hnext.2, hcease]
    · rename_i hne
      refine Untouched.known ⟨(Heap.get_alloc _ _ _).trans (if_neg hne),
        fun u => hold_of_ne _ _ _ hne _, ?_, ?_⟩ (h.known p id' hp)
      · show s.destroyed p + ceases _ _ p = _
        rw [hcease, Nat.add_zero]
      · by_cases hsame : id' = id
        · subst hsame
          refine iff_of_false (fun hc => hne ?_) (fun hc => absurd (hid.symm.trans hc) (by simp))
          exact (Option.some.inj (List.lookup_cons_self.symm.trans hc)).symm
        · show (inserted player id s.world).cache.lookup id' = _ ↔ _
          rw [hlookup id' hsame]
  · have hp' : (inserted player id s.world).cache.lookup id' = some p := hp
    rw [hname]
    by_cases hsame : id' = id
    · subst hsame
      rw [if_pos (Option.some.inj (List.lookup_cons_self.symm.trans hp')).symm]
    · rw [hlookup id' hsame] at hp'
      have hname' := h.found id' p hp'
      rw [if_neg (h.ne_next hname'), hname']
  · rw [hname] at hp
    split at hp
    · exact absurd hp (by simp)
    · rename_i hne
      exact h.unknown_after hp hne ((Heap.get_alloc _ _ _).trans (if_neg hne))
  · have hle : s.world.players.next + 1 ≤ p := hp
    rw [hname, if_neg (by omega)]
    exact h.fresh p (by omega)

/-- A call that counts the references of one player anew touches no other. -/
theorem cached_count {s : CacheUse T} (h : Cached s) {p n k m : ℕ} {id : CString}
    {player : Player} (hp : s.name p = some id) (halive : s.Alive p id player n) (t : T)
    (hholdings : Holdings (k + 1) fun u => hold s.held t p m u p) :
    Cached (s.after (countPlayer p player (k + 1 : ℕ) s.world) (hold s.held t p m)) := by
  have hget : ∀ q, q ≠ p → (countPlayer p player (k + 1 : ℕ) s.world).players.get q
      = s.world.players.get q := fun q hq => Heap.get_set_of_ne _ hq
  have hself : (countPlayer p player (k + 1 : ℕ) s.world).players.get p
      = some { player with refs := (k + 1 : ℕ) } := Heap.get_set_self _ halive.get
  have hcease : ∀ q, ceases s.world (countPlayer p player (k + 1 : ℕ) s.world) q = 0 := by
    intro q
    by_cases hq : q = p
    · rw [hq]
      exact if_neg fun hc => absurd (hc.2.symm.trans hself) (by simp)
    · exact ceases_of_get_eq (hget q hq)
  refine ⟨h.unlocked, fun q id' hq => ?_, h.found, fun q hq => ?_, h.fresh⟩
  · by_cases hqp : q = p
    · subst hqp
      obtain rfl := Option.some.inj (hp.symm.trans hq)
      refine Or.inl ⟨_, k, hself, rfl, hholdings, halive.own, halive.modified, halive.map,
        halive.cached, ?_⟩
      show s.destroyed q + ceases _ _ q = 0
      rw [halive.destroyed, hcease]
    · refine Untouched.known ⟨hget q hqp, fun u => hold_of_ne _ _ _ hqp _, ?_, Iff.rfl⟩
        (h.known q id' hq)
      show s.destroyed q + ceases _ _ q = _
      rw [hcease, Nat.add_zero]
  · have hqp : q ≠ p := by
      rintro rfl
      exact absurd (hp.symm.trans hq) (by simp)
    exact h.unknown_after hq hqp (hget q hqp)

/-- **The release of the last reference** destroys the player and touches no other. -/
theorem cached_last {s : CacheUse T} (h : Cached s) {p : ℕ} {id : CString} {player : Player}
    (hp : s.name p = some id) (halive : s.Alive p id player 0) {t : T}
    (hnone : ∀ u, hold s.held t p 0 u p = 0) :
    Cached (s.after (removed p id (countPlayer p player (player.refs - 1) s.world))
      (hold s.held t p 0)) := by
  have hget : ∀ q, q ≠ p → (removed p id (countPlayer p player (player.refs - 1)
      s.world)).players.get q = s.world.players.get q := fun q hq =>
    (if_neg hq).trans (Heap.get_set_of_ne _ hq)
  have hself : (removed p id (countPlayer p player (player.refs - 1) s.world)).players.get p
      = none := Heap.get_free_self _ p
  have hcease : ceases s.world (removed p id (countPlayer p player (player.refs - 1) s.world)) p
      = 1 := if_pos ⟨by rw [halive.get]; rfl, hself⟩
  have hlookup : ∀ q id', q ≠ p → ((s.world.cache.filter fun e => e.1 ≠ id).lookup id' = some q ↔
      s.world.cache.lookup id' = some q) := by
    intro q id' hq
    by_cases hsame : id' = id
    · subst hsame
      rw [Assoc.lookup_filter_self, halive.cached, Option.some.injEq]
      exact iff_of_false (by simp) (Ne.symm hq)
    · rw [Assoc.lookup_filter_of_ne _ hsame]
  refine ⟨h.unlocked, fun q id' hq => ?_, fun id' q hq => ?_, fun q hq => ?_, h.fresh⟩
  · by_cases hqp : q = p
    · subst hqp
      obtain rfl := Option.some.inj (hp.symm.trans hq)
      refine Or.inr ⟨hself, hnone, fun hc => ?_, ?_⟩
      · exact absurd ((Assoc.lookup_filter_self s.world.cache id).symm.trans hc) (by simp)
      · show s.destroyed q + ceases _ _ q = 1
        rw [halive.destroyed, hcease]
    · refine Untouched.known ⟨hget q hqp, fun u => hold_of_ne _ _ _ hqp _, ?_,
        hlookup q id' hqp⟩ (h.known q id' hq)
      show s.destroyed q + ceases _ _ q = _
      rw [ceases_of_get_eq (hget q hqp), Nat.add_zero]
  · by_cases hqp : q = p
    · subst hqp
      have hq' : (s.world.cache.filter fun e => e.1 ≠ id).lookup id' = some q := hq
      by_cases hsame : id' = id
      · rw [hsame, Assoc.lookup_filter_self] at hq'
        exact absurd hq' (by simp)
      · rw [Assoc.lookup_filter_of_ne _ hsame] at hq'
        exact h.found id' q hq'
    · exact h.found id' q ((hlookup q id' hqp).mp hq)
  · have hqp : q ≠ p := by
      rintro rfl
      exact absurd (hp.symm.trans hq) (by simp)
    exact h.unknown_after hq hqp (hget q hqp)

/-- A player somebody holds a reference to is there. -/
theorem Cached.alive_of_held {s : CacheUse T} (h : Cached s) {t : T} {p : ℕ}
    (ht : 0 < s.held t p) : ∃ id player n, s.name p = some id ∧ s.Alive p id player n := by
  cases hname : s.name p with
  | none =>
    have hzero := (h.unknown p hname).1 t
    omega
  | some id =>
    rcases h.known p id hname with ⟨player, n, halive⟩ | hgone
    · exact ⟨id, player, n, rfl, halive⟩
    · have hzero := hgone.held t
      omega

/-- A player that is cached is there. -/
theorem Cached.alive_of_lookup {s : CacheUse T} (h : Cached s) {p : ℕ} {id : CString}
    (hid : s.world.cache.lookup id = some p) : ∃ player n, s.Alive p id player n := by
  rcases h.known p id (h.found id p hid) with halive | hgone
  · exact halive
  · exact absurd hid hgone.cached

/-- What is held after one reference to a player is given back. -/
theorem Alive.give {s : CacheUse T} {p n : ℕ} {id : CString} {player : Player}
    (h : s.Alive p id player n) {t : T} (ht : 0 < s.held t p) :
    Holdings n fun u => hold s.held t p (s.held t p - 1) u p := by
  refine h.holdings.give (t := t) ?_ fun u hu => hold_of_ne_caller _ hu _ _ _
  rw [hold_self]
  omega

/-- **What `player_free` does** for a caller that holds a reference.  The callback of the
table frees nothing, since the call is the same whatever it would call. -/
theorem playerFreeWith_held (defs : Maps.MapDefs) {s : CacheUse T} (h : Cached s) {t : T} {p : ℕ}
    (ht : 0 < s.held t p) : ∃ w, (∀ free, playerFreeWith defs free p s.world = .ok ((), w)) ∧
      Cached (s.after w (hold s.held t p (s.held t p - 1))) := by
  obtain ⟨id, player, n, hname, halive⟩ := h.alive_of_held ht
  have hgive := halive.give ht
  have hrefs := halive.refs
  cases n with
  | zero =>
    have hzero : s.held t p - 1 = 0 := by
      rw [← hgive.eq_zero t, hold_self]
    rw [hzero] at hgive ⊢
    exact ⟨_, fun free => playerFreeWith_last free h.unlocked halive.get
      (by omega) halive.modified halive.map halive.own halive.cached,
      cached_last h hname halive hgive.eq_zero⟩
  | succ k =>
    have hcount : player.refs - 1 = (k + 1 : ℕ) := by omega
    refine ⟨_, fun free => playerFreeWith_more free h.unlocked halive.get (by omega), ?_⟩
    rw [hcount]
    exact cached_count h hname halive t hgive

/-- **A call keeps the counts.** -/
theorem cached_step {s s' : CacheUse T} {a : CacheAction T} (h : Cached s)
    (hstep : Step defs s a s') : Cached s' := by
  cases hstep with
  | @insert t player id r w hfresh hid hrun =>
    rw [insertFresh_run h.unlocked hid] at hrun
    obtain ⟨-, rfl⟩ := Prod.mk.inj (Except.ok.inj hrun)
    exact cached_insert h t hfresh hid
  | @find t id result w hrun =>
    cases hid : s.world.cache.lookup id with
    | none =>
      rw [playerCacheFind_of_none h.unlocked hid] at hrun
      obtain ⟨rfl, rfl⟩ := Prod.mk.inj (Except.ok.inj hrun)
      refine ⟨h.unlocked, fun p id' hp => ?_, h.found, fun p hp => ?_, h.fresh⟩
      · refine Untouched.known (s := s) ⟨rfl, fun _ => rfl, ?_, Iff.rfl⟩ (h.known p id' hp)
        show s.destroyed p + ceases _ _ p = _
        rw [ceases_of_get_eq rfl, Nat.add_zero]
      · obtain ⟨hheld, hdestroyed⟩ := h.unknown p hp
        refine ⟨hheld, ?_⟩
        show s.destroyed p + ceases _ _ p = 0
        rw [hdestroyed, ceases_of_get_eq rfl]
    | some p =>
      obtain ⟨player, n, halive⟩ := h.alive_of_lookup hid
      rw [playerCacheFind_of_some h.unlocked hid halive.get] at hrun
      obtain ⟨rfl, rfl⟩ := Prod.mk.inj (Except.ok.inj hrun)
      have hcount : player.refs + 1 = (n + 1 + 1 : ℕ) := by
        rw [halive.refs, Nat.cast_succ (n + 1)]
      rw [hcount]
      refine cached_count h (h.found id p hid) halive t
        (halive.holdings.take (t := t) ?_ fun u hu => hold_of_ne_caller _ hu _ _ _)
      rw [hold_self]
  | @free t p w ht hrun =>
    obtain ⟨w', hfree, hcached⟩ := playerFreeWith_held defs h ht
    rw [playerFree, hfree] at hrun
    obtain ⟨-, rfl⟩ := Prod.mk.inj (Except.ok.inj hrun)
    exact hcached

/-! ## Any calls -/

/-- `player_cache_find` returns the player that was inserted under the id and has references
left, and null when there is none. -/
def FindsLive (s : CacheUse T) : Prop :=
  ∀ id, ∃ result w, playerCacheFind id s.world = .ok (result, w) ∧
    ∀ p, result = some p ↔ s.name p = some id ∧
      ∃ player, s.world.players.get p = some player ∧ 0 < player.refs

/-- Every call a caller may make returns.  A call of `player_free` is the same whatever the
callback of the table would call in its turn. -/
def CallsReturn (defs : Maps.MapDefs) (s : CacheUse T) : Prop :=
  (∀ player id, Fresh player id → s.world.cache.lookup id = none →
    ∃ w, insertFresh defs player id s.world = .ok (1, w)) ∧
  ∀ t p, 0 < s.held t p → ∃ w, playerFree defs p s.world = .ok ((), w) ∧
    ∀ free, playerFreeWith defs free p s.world = .ok ((), w)

theorem findsLive_of_cached {s : CacheUse T} (h : Cached s) : FindsLive s := by
  intro id
  cases hid : s.world.cache.lookup id with
  | none =>
    refine ⟨none, s.world, playerCacheFind_of_none h.unlocked hid, fun p => ?_⟩
    refine iff_of_false (by simp) ?_
    rintro ⟨hname, player, hp, -⟩
    rcases h.known p id hname with ⟨_, _, halive⟩ | hgone
    · exact absurd (hid.symm.trans halive.cached) (by simp)
    · exact absurd (hgone.get.symm.trans hp) (by simp)
  | some q =>
    obtain ⟨player, n, halive⟩ := h.alive_of_lookup hid
    refine ⟨some q, _, playerCacheFind_of_some h.unlocked hid halive.get, fun p => ?_⟩
    constructor
    · rintro ⟨⟩
      exact ⟨h.found id q hid, player, halive.get, by rw [halive.refs]; omega⟩
    · rintro ⟨hname, player', hp, -⟩
      rcases h.known p id hname with ⟨_, _, halive'⟩ | hgone
      · exact hid.symm.trans halive'.cached
      · exact absurd (hgone.get.symm.trans hp) (by simp)

/-- **The player cache counts.**  For any callers and every sequence of their calls: a player
that was inserted counts the references to it that are not released; while there are some it
is there and is what `player_cache_find` returns for its id, and when the last one has been
released it is not found and has been destroyed, once. -/
theorem player_cache_counts {w : World} (hlocks : w.locks = []) (hcache : w.cache = [])
    {l : List (CacheAction T × CacheUse T)} {s : CacheUse T}
    (h : Trace (Step defs) (start w) l s) : Cached s ∧ FindsLive s ∧ CallsReturn defs s := by
  have hcached := Trace.invariant (I := Cached) (fun _ _ _ => cached_step)
    (cached_start hlocks hcache) h
  refine ⟨hcached, findsLive_of_cached hcached, fun player id _ hid =>
    ⟨_, insertFresh_run hcached.unlocked hid player⟩, fun t p ht => ?_⟩
  obtain ⟨w', hfree, -⟩ := playerFreeWith_held defs hcached ht
  exact ⟨w', hfree _, hfree⟩

/-- The id `test`. -/
def testId : CString := [116, 101, 115, 116]

/-- A player, as `player_create` makes it, with an id. -/
def testPlayer : Player := ⟨5, 7, 0, 0, 1, none, none, none, some testId⟩

/-- One caller inserts a player, and another finds it.  Both release it, and it is gone. -/
theorem player_cache_two : ∃ (l : List (CacheAction ℕ × CacheUse ℕ)) (s : CacheUse ℕ),
    Trace (Step Maps.mapLoaders) (start (boot [])) l s ∧
    l.map Prod.fst = [.insert 0 testPlayer testId, .find 1 testId (some 0), .free 0 0, .free 1 0,
      .find 1 testId none] ∧
    s.Gone 0 testId ∧ Cached s ∧ FindsLive s ∧ CallsReturn Maps.mapLoaders s := by
  have hrun : Exec.value (do
      let _ ← insertFresh Maps.mapLoaders testPlayer testId
      let found ← playerCacheFind testId
      playerFree Maps.mapLoaders 0
      playerFree Maps.mapLoaders 0
      let lost ← playerCacheFind testId
      let w ← Exec.get
      pure (decide (found = some 0 ∧ lost = none ∧ w.players.get 0 = none)))
      (boot []) = some true := by
    decide +kernel
  obtain ⟨_, hrun⟩ := Exec.value_eq_some.mp hrun
  simp only [Exec.bind_eq_ok, Exec.get_eq_ok, Exec.pure_eq_ok, decide_eq_true_iff] at hrun
  obtain ⟨r, w₁, hinsert, _, w₂, hfind, _, w₃, hfree, _, w₄, hlast, _, w₅, hlost, w, _, ⟨rfl, rfl⟩,
    ⟨rfl, rfl, hgone⟩, -⟩ := hrun
  have h₁ := (Trace.nil (s := (start (boot []) : CacheUse ℕ))).snoc
    (Step.insert (t := 0) ⟨rfl, rfl, rfl, rfl⟩ rfl hinsert)
  have h₂ := h₁.snoc (.find (t := 1) hfind)
  have h₃ := h₂.snoc (.free (t := 0) (p := 0) Nat.one_pos hfree)
  have h₄ := h₃.snoc (.free (t := 1) (p := 0) Nat.one_pos hlast)
  have h₅ := h₄.snoc (.find (t := 1) hlost)
  obtain ⟨hcached, hresult⟩ := player_cache_counts rfl rfl h₅
  refine ⟨_, _, h₅, rfl, ?_, hcached, hresult⟩
  rcases hcached.known 0 testId rfl with ⟨_, _, halive⟩ | h
  · exact absurd (hgone.symm.trans halive.get) (Option.some_ne_none _).symm
  · exact h

end CacheUse

end World
end MmoBackend
