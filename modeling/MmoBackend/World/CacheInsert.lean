import MmoBackend.World.PlayerCache

/-!
# Inserting a player that is cached already

`player_cache_insert` takes the return value of `g_hash_table_insert` for an error: it prints
that the player could not be inserted and returns 0.  But on a present key the table has by
then stored the new player and called `player_cache_destroy_cache` on the old one, while the
lock of the cache is held.  The callback reads its count with the wrong sense: a player with
references is given to `player_free`, which takes the same lock again, and only a player
without any is let go.

So a refused insertion is without effect in a single case, `refusedQuietly_iff`: the player
has no references left and is inserted over itself.
-/

namespace MmoBackend

open Authentication Exec

namespace World

variable {defs : Maps.MapDefs} {w : World} {id : CString} {p q : ℕ} {old : Player}

/-- The call returns 0, every id is mapped to the player it was mapped to, and every player
has the references it had. -/
def RefusedQuietly (defs : Maps.MapDefs) (id : CString) (p : ℕ) (w : World) : Prop :=
  ∃ w', playerCacheInsert defs id p w = .ok (0, w') ∧
    (∀ key, w'.cache.lookup key = w.cache.lookup key) ∧
    ∀ k, (w'.players.get k).map Player.refs = (w.players.get k).map Player.refs

/-- The state in which the callback is called on the old player. -/
def overwritten (id : CString) (p : ℕ) (w : World) : World :=
  { w with
    cache := (id, p) :: w.cache.filter fun e => e.1 ≠ id
    locks := .cache :: w.locks }

/-- **A refused call** stores the new player and calls the callback on the old one. -/
theorem playerCacheInsert_eq (hlock : Lock.cache ∉ w.locks) (hcached : w.cache.lookup id = some q) :
    playerCacheInsert defs id p w
      = (do
          playerCacheDestroyCache (playerFree defs) q
          unlock .cache
          pure 0) (overwritten id p w) := by
  have hcached' : (w.setLocks (.cache :: w.locks)).cache.lookup id = some q := hcached
  rw [playerCacheInsert, bind_of_ok ((lock_eq_ok (u := ())).mpr ⟨hlock, rfl⟩),
    get_bind, modify_bind, hcached']
  rfl

/-- A lock that the thread holds cannot be taken. -/
theorem lock_held {l : Lock} (hheld : l ∈ w.locks) : lock l w = .error .deadlock := by
  rw [lock, get_bind, if_pos hheld]
  rfl

/-- **A player with references is not refused**: the callback waits for the lock that the
call holds. -/
theorem playerCacheInsert_deadlock (hlock : Lock.cache ∉ w.locks)
    (hcached : w.cache.lookup id = some q) (hq : w.players.get q = some old)
    (hrefs : old.refs ≠ 0) : playerCacheInsert defs id p w = .error .deadlock := by
  have hq' : (overwritten id p w).players.get q = some old := hq
  have hheld : lock .cache (overwritten id p w) = .error .deadlock := lock_held List.mem_cons_self
  rw [playerCacheInsert_eq hlock hcached]
  refine bind_of_error ?_
  rw [playerCacheDestroyCache, bind_of_ok (derefPlayer_eq_ok.mpr ⟨hq', rfl⟩), if_neg hrefs]
  exact bind_of_error hheld

/-- **A player without references is replaced.** -/
theorem playerCacheInsert_replaced (hlock : Lock.cache ∉ w.locks)
    (hcached : w.cache.lookup id = some q) (hq : w.players.get q = some old)
    (hrefs : old.refs = 0) :
    playerCacheInsert defs id p w
      = .ok (0, { w with cache := (id, p) :: w.cache.filter fun e => e.1 ≠ id }) := by
  have hq' : (overwritten id p w).players.get q = some old := hq
  have hcall : playerCacheDestroyCache (playerFree defs) q (overwritten id p w)
      = .ok ((), overwritten id p w) := by
    rw [playerCacheDestroyCache, bind_of_ok (derefPlayer_eq_ok.mpr ⟨hq', rfl⟩), if_pos hrefs]
    rfl
  rw [playerCacheInsert_eq hlock hcached, bind_of_ok hcall,
    bind_of_ok ((unlock_eq_ok (u := ())).mpr rfl)]
  show Except.ok (0, World.setLocks ((Lock.cache :: w.locks).erase .cache) _) = _
  rw [List.erase_cons_head]
  rfl

/-- The callback follows the pointer to the old player. -/
theorem derefs_of_playerCacheInsert (hlock : Lock.cache ∉ w.locks)
    (hcached : w.cache.lookup id = some q) {r : ℤ × World}
    (h : playerCacheInsert defs id p w = .ok r) : ∃ old, w.players.get q = some old := by
  rw [playerCacheInsert_eq hlock hcached, bind_eq_ok] at h
  obtain ⟨_, _, hcall, -⟩ := h
  rw [playerCacheDestroyCache, bind_eq_ok] at hcall
  obtain ⟨old, _, hderef, -⟩ := hcall
  exact ⟨old, (derefPlayer_eq_ok.mp hderef).1⟩

/-- **When a refused insertion changes nothing.**  For every state in which the thread does
not hold the lock of the cache, every id that is cached and every player: the call returns 0
and nothing has changed exactly when the player is the one that is cached and has no
references. -/
theorem refusedQuietly_iff (hlock : Lock.cache ∉ w.locks)
    (hcached : w.cache.lookup id = some q) :
    RefusedQuietly defs id p w ↔ p = q ∧ ∃ old, w.players.get q = some old ∧ old.refs = 0 := by
  constructor
  · rintro ⟨w', hcall, hcache, -⟩
    obtain ⟨old, hq⟩ := derefs_of_playerCacheInsert hlock hcached hcall
    by_cases hrefs : old.refs = 0
    · rw [playerCacheInsert_replaced hlock hcached hq hrefs] at hcall
      obtain ⟨-, rfl⟩ := Prod.mk.inj (Except.ok.inj hcall)
      have hself : some p = some q := by
        rw [← hcached, ← hcache id]
        exact (List.lookup_cons_self).symm
      exact ⟨Option.some.inj hself, old, hq, hrefs⟩
    · rw [playerCacheInsert_deadlock hlock hcached hq hrefs] at hcall
      exact absurd hcall (by simp)
  · rintro ⟨rfl, old, hq, hrefs⟩
    refine ⟨_, playerCacheInsert_replaced hlock hcached hq hrefs, fun key => ?_, fun _ => rfl⟩
    by_cases hkey : key = id
    · rw [hkey, hcached]
      exact List.lookup_cons_self
    · exact (Assoc.lookup_cons_of_ne _ _ hkey).trans (Assoc.lookup_filter_of_ne _ hkey)

/-- A player of the account `a` that was just created. -/
def freshPlayer : Player := ⟨0, 0, 0, 0, 1, none, none, none, some [97]⟩

/-- The account is loaded by two threads: one player is cached, the other exists. -/
def loadedTwice : World :=
  { inserted freshPlayer [97] (boot []) with
    players := (inserted freshPlayer [97] (boot [])).players.alloc freshPlayer }

/-- A player without references is cached. -/
def loadedUnused : World := inserted { freshPlayer with refs := 0 } [97] (boot [])

/-- Nothing changes when the cached player is inserted again that nobody uses, but it does when
another one is inserted while the first one is used. -/
theorem refusedQuietly_iff_loadedTwice :
    RefusedQuietly Maps.mapLoaders [97] 0 loadedUnused ∧
      ¬RefusedQuietly Maps.mapLoaders [97] 1 loadedTwice :=
  ⟨(refusedQuietly_iff List.not_mem_nil rfl).mpr ⟨rfl, _, rfl, rfl⟩,
    fun h => absurd ((refusedQuietly_iff List.not_mem_nil rfl).mp h).1 Nat.one_ne_zero⟩

/-- **The second thread stops.**  Its insertion is refused while the first player is used. -/
theorem not_refusedQuietly : ¬∀ (defs : Maps.MapDefs) (w : World) (id : CString) (p q : ℕ),
    Lock.cache ∉ w.locks → w.cache.lookup id = some q → RefusedQuietly defs id p w := by
  intro h
  obtain ⟨w', hcall, -⟩ := h Maps.mapLoaders loadedTwice [97] 1 0 List.not_mem_nil rfl
  have hold : loadedTwice.players.get 0 = some freshPlayer := rfl
  rw [playerCacheInsert_deadlock List.not_mem_nil rfl hold (by decide)] at hcall
  exact absurd hcall (by simp)

end World
end MmoBackend
