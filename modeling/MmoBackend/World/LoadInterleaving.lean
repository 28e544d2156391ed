import MmoBackend.Library.Holdings
import MmoBackend.Library.Trace
import MmoBackend.World.Registry

/-!
# Threads that load and unload one map

`map_load` and `map_unload` do not hold the lock of the map id all the time.  A load
leaves the lock and then reads `tiles[id]` once more for its return value, and an unload
looks whether `tiles[id]` is null before it takes the lock.  The steps of any number of
threads are interleaved at these points; `InPieces` says that the pieces, run one after the
other, are the functions.

Nothing protects the two reads outside the lock except the references themselves.  A
thread whose load has left the lock owns a reference, and so does one that is about to
unload, and as long as somebody owns a reference the count is not zero and the map is not
freed.  `Counted` is the invariant: the count is the number of references that are owned,
and who owns how many can be read off the phases.
-/

namespace MmoBackend

open Exec Maps

namespace World

variable (defs : MapDefs)

/-! ## The pieces of the two functions -/

/-- `map_load` under the lock. -/
def mapLoadSection (i : ℕ) : Exec World Unit := do
  let map ← Exec.need defs.loaders[i]?
  lock (.map i)
  let m ← ensureTile i map
  updateMap m fun map => { map with refs := map.refs + 1 }
  unlock (.map i)

/-- `map_unload` under the lock.  It reads `tiles[id]` again. -/
def mapUnloadSection (i : ℕ) : Exec World Unit := do
  lock (.map i)
  let w ← Exec.get
  let m ← Exec.need (w.tiles i)
  unrefTile (playerFree defs) i m
  unlock (.map i)

/-- The two functions, run by one thread alone, are their pieces one after the other. -/
structure InPieces (i : ℕ) : Prop where
  /-- `map_load` is its section and the read of `tiles[id]` behind it. -/
  load : mapLoadTile defs i = (do
    mapLoadSection defs i
    let w ← Exec.get
    pure (w.tiles i))
  /-- `map_unload` is its test and the section behind it. -/
  unload (w : World) : mapUnloadTile defs (playerFree defs) i w
    = if w.tiles i = none then .ok ((), w) else mapUnloadSection defs i w

theorem mapLoadTile_eq (i : ℕ) :
    mapLoadTile defs i = (do
      mapLoadSection defs i
      let w ← Exec.get
      pure (w.tiles i)) := by
  simp only [mapLoadTile, mapLoadSection, Exec.assoc]

theorem mapUnloadTile_eq {i : ℕ} {map : Map} (hload : defs.loaders[i]? = some map) (w : World) :
    mapUnloadTile defs (playerFree defs) i w
      = if w.tiles i = none then .ok ((), w) else mapUnloadSection defs i w := by
  rw [mapUnloadTile, hload, need_some_bind]
  cases htile : w.tiles i with
  | none =>
    rw [if_pos rfl, get_bind, htile]
    rfl
  | some m =>
    rw [if_neg (Option.some_ne_none m), get_bind, htile,
      mapUnloadSection]
    show (do lock (.map i); unrefTile (playerFree defs) i m; unlock (.map i) : Exec World Unit) w
      = _
    cases hlock : lock (.map i) w with
    | error e => rw [bind_of_error hlock, bind_of_error hlock]
    | ok r =>
      obtain ⟨⟨⟩, w₁⟩ := r
      obtain ⟨-, rfl⟩ := lock_eq_ok.mp hlock
      have htile' : (w.setLocks (.map i :: w.locks)).tiles i = some m := htile
      rw [bind_of_ok hlock, bind_of_ok hlock, get_bind, htile',
        need_some_bind]

/-! ## What the sections do

Both leave the lock as they found it. -/

section Sections

variable {defs} {i m : ℕ} {map : Map} {w : World}

/-- The state when map `m` is counted anew. -/
def countRefs (m : ℕ) (map : Map) (refs : ℤ) (w : World) : World :=
  w.setMap m { map with refs := refs }

/-- The state when a new map is loaded that has one reference. -/
def makeTile (i : ℕ) (map : Map) (w : World) : World :=
  { w with
    maps := w.maps.alloc { map with refs := 1 }
    tiles := Function.update w.tiles i (some w.maps.next) }

/-- The state when the map of `tiles[i]` is freed. -/
def freeTile (i m : ℕ) (w : World) : World :=
  { w with maps := w.maps.free m, tiles := Function.update w.tiles i none }

/-- A load of a map that is there counts a reference. -/
theorem mapLoadSection_of_some {fresh : Map} (hload : defs.loaders[i]? = some fresh)
    (hlock : Lock.map i ∉ w.locks) (htile : w.tiles i = some m) (hm : w.maps.get m = some map) :
    mapLoadSection defs i w = .ok ((), countRefs m map (map.refs + 1) w) := by
  have hunlock : (Lock.map i :: w.locks).erase (.map i) = w.locks := List.erase_cons_head _ _
  have hensure : ensureTile i fresh (w.setLocks (.map i :: w.locks))
      = .ok (m, w.setLocks (.map i :: w.locks)) := by
    simp only [ensureTile, bind_eq_ok, get_eq_ok]
    refine ⟨_, _, ⟨rfl, rfl⟩, ?_⟩
    rw [show (w.setLocks (.map i :: w.locks)).tiles i = some m from htile]
    exact pure_eq_ok.mpr ⟨rfl, rfl⟩
  have hget : (w.setLocks (.map i :: w.locks)).maps.get m = some map := hm
  rw [mapLoadSection, hload, need_some_bind, bind_of_ok ((lock_eq_ok (u := ())).mpr ⟨hlock, rfl⟩),
    bind_of_ok hensure, bind_of_ok ((updateMap_eq_ok (u := ())).mpr ⟨map, hget, rfl⟩), unlock_eq_ok]
  show { w with
    maps := w.maps.set m { map with refs := map.refs + 1 }
    locks := (Lock.map i :: w.locks).erase (.map i) } = _
  rw [hunlock]
  rfl

/-- A load of a map that is not there makes it, with one reference. -/
theorem mapLoadSection_of_none (hload : defs.loaders[i]? = some map)
    (hlock : Lock.map i ∉ w.locks) (htile : w.tiles i = none) :
    mapLoadSection defs i w = .ok ((), makeTile i map w) := by
  have hunlock : (Lock.map i :: w.locks).erase (.map i) = w.locks := List.erase_cons_head _ _
  have hrefs : map.refs + 1 = 1 := by
    rw [(defs.fresh i map hload).2.1]
    rfl
  have hensure : ensureTile i map (w.setLocks (.map i :: w.locks))
      = .ok (w.maps.next, addTile i map (w.setLocks (.map i :: w.locks))) := by
    simp only [ensureTile, bind_eq_ok, get_eq_ok]
    refine ⟨_, _, ⟨rfl, rfl⟩, ?_⟩
    rw [show (w.setLocks (.map i :: w.locks)).tiles i = none from htile]
    simp only [bind_eq_ok, modify_eq_ok, pure_eq_ok]
    exact ⟨(), _, rfl, rfl, rfl⟩
  have hget : (addTile i map (w.setLocks (.map i :: w.locks))).maps.get w.maps.next = some map :=
    Heap.get_alloc_next w.maps map
  have hcount : updateMap w.maps.next (fun map => { map with refs := map.refs + 1 })
      (addTile i map (w.setLocks (.map i :: w.locks))) = .ok ((), _) :=
    updateMap_eq_ok.mpr ⟨map, hget, rfl⟩
  rw [mapLoadSection, hload, need_some_bind, bind_of_ok ((lock_eq_ok (u := ())).mpr ⟨hlock, rfl⟩),
    bind_of_ok hensure, bind_of_ok hcount, unlock_eq_ok]
  show { w with
    maps := (w.maps.alloc map).set w.maps.next { map with refs := map.refs + 1 }
    tiles := Function.update w.tiles i (some w.maps.next)
    locks := (Lock.map i :: w.locks).erase (.map i) } = _
  rw [hunlock, hrefs, Heap.set_alloc]
  rfl

/-- The locked section of an unload, up to the count. -/
theorem mapUnloadSection_eq (hlock : Lock.map i ∉ w.locks) (htile : w.tiles i = some m)
    (hm : w.maps.get m = some map) :
    mapUnloadSection defs i w = ((if map.refs - 1 = 0 then do
        mapFree (playerFree defs) m
        Exec.modify fun w => { w with tiles := Function.update w.tiles i none }
      else pure ()) >>= fun _ => unlock (.map i))
      ((countRefs m map (map.refs - 1) w).setLocks (.map i :: w.locks)) := by
  have htile' : (w.setLocks (.map i :: w.locks)).tiles i = some m := htile
  have hget : (w.setLocks (.map i :: w.locks)).maps.get m = some map := hm
  rw [mapUnloadSection, bind_of_ok ((lock_eq_ok (u := ())).mpr ⟨hlock, rfl⟩),
    get_bind, htile', need_some_bind, unrefTile, Exec.assoc,
    bind_of_ok (derefMap_eq_ok.mpr ⟨hget, rfl⟩), Exec.assoc,
    modify_bind]
  rfl

/-- An unload that leaves references counts one less. -/
theorem mapUnloadSection_of_ne (hlock : Lock.map i ∉ w.locks) (htile : w.tiles i = some m)
    (hm : w.maps.get m = some map) (hrefs : map.refs - 1 ≠ 0) :
    mapUnloadSection defs i w = .ok ((), countRefs m map (map.refs - 1) w) := by
  have hunlock : (Lock.map i :: w.locks).erase (.map i) = w.locks := List.erase_cons_head _ _
  rw [mapUnloadSection_eq hlock htile hm, if_neg hrefs, bind_of_ok (pure_eq_ok.mpr ⟨rfl, rfl⟩),
    unlock_eq_ok]
  show { w with
    maps := w.maps.set m { map with refs := map.refs - 1 }
    locks := (Lock.map i :: w.locks).erase (.map i) } = _
  rw [hunlock]
  rfl

/-- The last unload frees the map. -/
theorem mapUnloadSection_of_eq (hlock : Lock.map i ∉ w.locks) (htile : w.tiles i = some m)
    (hm : w.maps.get m = some map) (hplayers : map.players = []) (hrefs : map.refs - 1 = 0) :
    mapUnloadSection defs i w
      = .ok ((), freeTile i m (countRefs m map (map.refs - 1) w)) := by
  have hunlock : (Lock.map i :: w.locks).erase (.map i) = w.locks := List.erase_cons_head _ _
  have hget : ((countRefs m map (map.refs - 1) w).setLocks (.map i :: w.locks)).maps.get m
      = some { map with refs := map.refs - 1 } := Heap.get_set_self _ hm
  have hfree : mapFree (playerFree defs) m
      ((countRefs m map (map.refs - 1) w).setLocks (.map i :: w.locks))
        = .ok ((), { (countRefs m map (map.refs - 1) w).setLocks (.map i :: w.locks) with
            maps := (countRefs m map (map.refs - 1) w).maps.free m }) := by
    rw [mapFree, bind_of_ok (derefMap_eq_ok.mpr ⟨hget, rfl⟩)]
    show (do Exec.forEach map.players (playerFree defs); _ : Exec World Unit) _ = _
    rw [hplayers]
    rfl
  rw [mapUnloadSection_eq hlock htile hm, if_pos hrefs, Exec.assoc, bind_of_ok hfree,
    modify_bind, unlock_eq_ok]
  show { w with
    maps := (w.maps.set m { map with refs := map.refs - 1 }).free m
    tiles := Function.update w.tiles i none
    locks := (Lock.map i :: w.locks).erase (.map i) } = _
  rw [hunlock]
  rfl

end Sections

/-! ## The threads -/

/-- Where a thread stands. -/
inductive LoadPhase where
  /-- Outside both functions. -/
  | idle
  /-- In `map_load`, behind the lock and before the return. -/
  | loaded
  /-- In `map_unload`, behind the test and before the lock. -/
  | tested
  deriving DecidableEq

/-- The references a thread owns because of where it stands. -/
def LoadPhase.owns : LoadPhase → ℕ
  | .idle => 0
  | .loaded => 1
  | .tested => 1

/-- Threads at work on one map id.  `spare t` is the number of loads of `t` that have
returned and that it has not begun to unload. -/
structure Loading (T : Type) where
  world : World
  phase : T → LoadPhase
  spare : T → ℕ
  /-- The completed locked sections of `map_load`. -/
  loads : ℕ
  /-- The completed locked sections of `map_unload`. -/
  unloads : ℕ

/-- What a thread does next. -/
inductive LoadAction (T : Type) where
  /-- The locked section of `map_load`. -/
  | load (t : T)
  /-- The read of `tiles[id]` that `map_load` returns. -/
  | back (t : T) (result : Option ℕ)
  /-- The test of `map_unload`. -/
  | test (t : T)
  /-- The locked section of `map_unload`. -/
  | unload (t : T)

namespace Loading

variable {T : Type}

/-- No thread has begun anything. -/
def start (w : World) : Loading T := ⟨w, fun _ => .idle, fun _ => 0, 0, 0⟩

/-- The references a thread owns. -/
def owned (s : Loading T) (t : T) : ℕ := s.spare t + (s.phase t).owns

theorem owned_pos {s : Loading T} {t : T} (h : 0 < s.spare t ∨ s.phase t ≠ .idle) :
    0 < s.owned t := by
  unfold owned
  rcases h with hspare | hphase
  · omega
  · cases ht : s.phase t with
    | idle => exact absurd ht hphase
    | loaded => exact Nat.succ_pos _
    | tested => exact Nat.succ_pos _

theorem owned_idle {s : Loading T} {t : T} (h : s.phase t = .idle) : s.owned t = s.spare t := by
  rw [owned, h]
  rfl

variable [DecidableEq T]

/-- A thread goes on. -/
def move (s : Loading T) (t : T) (phase : LoadPhase) (spare : ℕ) : Loading T :=
  { s with
    phase := Function.update s.phase t phase
    spare := Function.update s.spare t spare }

/-- A thread has completed the locked section of `map_load`. -/
def afterLoad (s : Loading T) (t : T) (w : World) : Loading T :=
  { s.move t .loaded (s.spare t) with world := w, loads := s.loads + 1 }

/-- A thread has completed the locked section of `map_unload`. -/
def afterUnload (s : Loading T) (t : T) (w : World) : Loading T :=
  { s.move t .idle (s.spare t) with world := w, unloads := s.unloads + 1 }

/-- The steps of the threads, in any order.  A thread begins an unload only for a load of
its own that has returned. -/
inductive Step (i : ℕ) : Loading T → LoadAction T → Loading T → Prop
  | load {s : Loading T} {t : T} {w : World} : s.phase t = .idle →
      mapLoadSection defs i s.world = .ok ((), w) →
      Step i s (.load t) (s.afterLoad t w)
  | back {s : Loading T} {t : T} : s.phase t = .loaded →
      Step i s (.back t (s.world.tiles i)) (s.move t .idle (s.spare t + 1))
  | testNull {s : Loading T} {t : T} : s.phase t = .idle → 0 < s.spare t →
      s.world.tiles i = none → Step i s (.test t) (s.move t .idle (s.spare t - 1))
  | test {s : Loading T} {t : T} : s.phase t = .idle → 0 < s.spare t →
      s.world.tiles i ≠ none → Step i s (.test t) (s.move t .tested (s.spare t - 1))
  | unload {s : Loading T} {t : T} {w : World} : s.phase t = .tested →
      mapUnloadSection defs i s.world = .ok ((), w) →
      Step i s (.unload t) (s.afterUnload t w)

theorem owned_move_self (s : Loading T) (t : T) (phase : LoadPhase) (spare : ℕ) :
    (s.move t phase spare).owned t = spare + phase.owns := by
  simp [owned, move]

theorem owned_move_of_ne (s : Loading T) {t u : T} (hu : u ≠ t) (phase : LoadPhase) (spare : ℕ) :
    (s.move t phase spare).owned u = s.owned u := by
  simp [owned, move, hu]

/-- A step that leaves the references where they are. -/
theorem owned_move (s : Loading T) {t : T} {phase : LoadPhase} {spare : ℕ}
    (h : spare + phase.owns = s.owned t) (u : T) : (s.move t phase spare).owned u = s.owned u := by
  by_cases hu : u = t
  · rw [hu, owned_move_self, h]
  · exact owned_move_of_ne s hu phase spare

/-! ## The invariant -/

/-- The map is there exactly while there are references, and has as many as it counts. -/
def TileCounts (i n : ℕ) (w : World) : Prop :=
  match w.tiles i with
  | none => n = 0
  | some m => ∃ map, w.maps.get m = some map ∧ map.players = [] ∧ map.refs = n ∧ 0 < n

/-- **The count is the number of references that the threads own**, and that number is the
completed loads less the completed unloads. -/
structure Counted (i : ℕ) (s : Loading T) : Prop where
  unlocked : Lock.map i ∉ s.world.locks
  le : s.unloads ≤ s.loads
  holdings : Holdings (s.loads - s.unloads) s.owned
  tile : TileCounts i (s.loads - s.unloads) s.world

variable {defs} {i : ℕ}

/-- While somebody owns a reference the map is there. -/
theorem Counted.tile_of_pos {s : Loading T} (h : Counted i s) {t : T} (ht : 0 < s.owned t) :
    ∃ m map, s.world.tiles i = some m ∧ s.world.maps.get m = some map ∧ map.players = [] ∧
      map.refs = (s.loads - s.unloads : ℕ) ∧ 0 < s.loads - s.unloads := by
  have hpos := h.holdings.pos ht
  have htile := h.tile
  unfold TileCounts at htile
  split at htile
  · omega
  · rename_i m hm
    obtain ⟨map, hmap, hplayers, hrefs, -⟩ := htile
    exact ⟨m, map, hm, hmap, hplayers, hrefs, hpos⟩

theorem counted_start {w : World} (hlock : Lock.map i ∉ w.locks) (htile : w.tiles i = none) :
    Counted i (start w : Loading T) := by
  refine ⟨hlock, Nat.le_refl 0, Holdings.zero.congr fun t => rfl, ?_⟩
  show TileCounts i 0 w
  rw [TileCounts, htile]

/-! ## One step -/

/-- What a step does to the map of the id. -/
def Moves (i : ℕ) (s : Loading T) : LoadAction T → Loading T → Prop
  | .load _, s' =>
    match s.world.tiles i with
    | none => s'.world.tiles i = some s.world.maps.next ∧ s'.world.maps.next = s.world.maps.next + 1
    | some m => s'.world.tiles i = some m ∧ s'.world.maps.next = s.world.maps.next
  | .back _ result, s' => s'.world = s.world ∧ ∃ m map,
    result = some m ∧ s'.world.tiles i = some m ∧ s'.world.maps.get m = some map
  | .test _, s' => s'.world = s.world
  | .unload _, s' => ∃ m, s.world.tiles i = some m ∧
    (s'.loads = s'.unloads → s'.world.tiles i = none ∧ s'.world.maps.get m = none) ∧
    (s'.loads ≠ s'.unloads →
      s'.world.tiles i = some m ∧ ∃ map, s'.world.maps.get m = some map)

/-- A step of a thread that neither loads nor unloads. -/
theorem Counted.of_move {s : Loading T} (h : Counted i s) {t : T} {phase : LoadPhase} {spare : ℕ}
    (hsame : spare + phase.owns = s.owned t) : Counted i (s.move t phase spare) :=
  ⟨h.unlocked, h.le, h.holdings.congr fun u => (owned_move s hsame u).symm, h.tile⟩

theorem counted_load {fresh : Map} (hload : defs.loaders[i]? = some fresh) {s : Loading T}
    (h : Counted i s) {t : T} (hphase : s.phase t = .idle) {w : World}
    (hrun : mapLoadSection defs i s.world = .ok ((), w)) :
    Counted i (s.afterLoad t w) ∧ Moves i s (.load t) (s.afterLoad t w) := by
  have hmore : s.loads + 1 - s.unloads = s.loads - s.unloads + 1 := Nat.succ_sub h.le
  have hown : (s.move t .loaded (s.spare t)).owned t = s.owned t + 1 := by
    rw [owned_move_self, owned_idle hphase]
    rfl
  have hholdings : Holdings (s.loads + 1 - s.unloads) (s.move t .loaded (s.spare t)).owned :=
    hmore ▸ h.holdings.take hown fun u hu => owned_move_of_ne s hu _ _
  have hle : s.unloads ≤ s.loads + 1 := Nat.le_succ_of_le h.le
  have htile := h.tile
  unfold TileCounts at htile
  unfold Moves
  split at htile
  · rename_i hnone
    rw [mapLoadSection_of_none hload h.unlocked hnone] at hrun
    obtain ⟨-, rfl⟩ := Prod.mk.inj (Except.ok.inj hrun)
    have hupdate : (makeTile i fresh s.world).tiles i = some s.world.maps.next :=
      Function.update_self ..
    refine ⟨⟨h.unlocked, hle, hholdings, ?_⟩, ?_⟩
    · show TileCounts i (s.loads + 1 - s.unloads) (makeTile i fresh s.world)
      rw [TileCounts, hupdate, hmore, htile]
      exact ⟨_, Heap.get_alloc_next s.world.maps _, (defs.fresh i fresh hload).2.2, rfl,
        Nat.one_pos⟩
    · rw [hnone]
      exact ⟨hupdate, rfl⟩
  · rename_i m hm
    obtain ⟨map, hmap, hplayers, hrefs, -⟩ := htile
    rw [mapLoadSection_of_some hload h.unlocked hm hmap] at hrun
    obtain ⟨-, rfl⟩ := Prod.mk.inj (Except.ok.inj hrun)
    have hsame : (countRefs m map (map.refs + 1) s.world).tiles i = some m := hm
    refine ⟨⟨h.unlocked, hle, hholdings, ?_⟩, ?_⟩
    · show TileCounts i (s.loads + 1 - s.unloads) (countRefs m map (map.refs + 1) s.world)
      rw [TileCounts, hsame, hmore]
      exact ⟨_, Heap.get_set_self _ hmap, hplayers, by rw [hrefs, Nat.cast_succ], Nat.succ_pos _⟩
    · rw [hm]
      exact ⟨hsame, rfl⟩

theorem counted_unload {s : Loading T} (h : Counted i s) {t : T} (hphase : s.phase t = .tested)
    {w : World} (hrun : mapUnloadSection defs i s.world = .ok ((), w)) :
    Counted i (s.afterUnload t w) ∧ Moves i s (.unload t) (s.afterUnload t w) := by
  obtain ⟨m, map, hm, hmap, hplayers, hrefs, hpos⟩ :=
    h.tile_of_pos (owned_pos (Or.inr (by rw [hphase]; decide)))
  have hless : s.loads - s.unloads = s.loads - (s.unloads + 1) + 1 := by omega
  have hown : s.owned t = (s.move t .idle (s.spare t)).owned t + 1 := by
    rw [owned_move_self, owned, hphase]
    rfl
  have hholdings : Holdings (s.loads - (s.unloads + 1)) (s.move t .idle (s.spare t)).owned :=
    (hless ▸ h.holdings : Holdings (s.loads - (s.unloads + 1) + 1) s.owned).give hown
      fun u hu => owned_move_of_ne s hu _ _
  have hle : s.unloads + 1 ≤ s.loads := by omega
  unfold Moves
  by_cases hlast : map.refs - 1 = 0
  · rw [mapUnloadSection_of_eq h.unlocked hm hmap hplayers hlast] at hrun
    obtain ⟨-, rfl⟩ := Prod.mk.inj (Except.ok.inj hrun)
    have hgone : (freeTile i m (countRefs m map (map.refs - 1) s.world)).tiles i = none :=
      Function.update_self ..
    have hall : s.loads = s.unloads + 1 := by omega
    refine ⟨⟨h.unlocked, hle, hholdings, ?_⟩, m, hm, fun _ => ⟨hgone, Heap.get_free_self _ m⟩,
      fun hmore => absurd hall hmore⟩
    show TileCounts i (s.loads - (s.unloads + 1)) (freeTile i m _)
    rw [TileCounts, hgone]
    show s.loads - (s.unloads + 1) = 0
    omega
  · rw [mapUnloadSection_of_ne h.unlocked hm hmap hlast] at hrun
    obtain ⟨-, rfl⟩ := Prod.mk.inj (Except.ok.inj hrun)
    have hsame : (countRefs m map (map.refs - 1) s.world).tiles i = some m := hm
    have hmore : s.loads ≠ s.unloads + 1 := by omega
    refine ⟨⟨h.unlocked, hle, hholdings, ?_⟩, m, hm, fun hall => absurd hall hmore,
      fun _ => ⟨hsame, _, Heap.get_set_self _ hmap⟩⟩
    show TileCounts i (s.loads - (s.unloads + 1)) (countRefs m map (map.refs - 1) s.world)
    rw [TileCounts, hsame]
    refine ⟨_, Heap.get_set_self _ hmap, hplayers, ?_, by omega⟩
    show map.refs - 1 = _
    omega

/-- **A step keeps the count.** -/
theorem counted_step {fresh : Map} (hload : defs.loaders[i]? = some fresh) {s s' : Loading T}
    {a : LoadAction T} (h : Counted i s) (hstep : Step defs i s a s') :
    Counted i s' ∧ Moves i s a s' := by
  cases hstep with
  | load hphase hrun => exact counted_load hload h hphase hrun
  | @back t hphase =>
    obtain ⟨m, map, hm, hmap, -⟩ := h.tile_of_pos (owned_pos (Or.inr (by rw [hphase]; decide)))
    refine ⟨h.of_move ?_, rfl, m, map, hm, hm, hmap⟩
    rw [owned, hphase]
    rfl
  | @testNull t hphase hspare hnone =>
    obtain ⟨m, map, hm, -⟩ := h.tile_of_pos (owned_pos (Or.inl hspare))
    exact absurd (hnone.symm.trans hm) (by simp)
  | @test t hphase hspare _ =>
    refine ⟨h.of_move ?_, rfl⟩
    rw [owned_idle hphase]
    exact Nat.sub_add_cancel hspare
  | unload hphase hrun => exact counted_unload h hphase hrun

/-- Whatever a thread does next, it does not use a map that is not there. -/
def NothingMissing (defs : MapDefs) (i : ℕ) (s : Loading T) : Prop :=
  ∀ t, (s.phase t = .idle → ∃ w, mapLoadSection defs i s.world = .ok ((), w)) ∧
    (s.phase t = .tested → ∃ w, mapUnloadSection defs i s.world = .ok ((), w))

theorem nothingMissing_of_counted {fresh : Map} (hload : defs.loaders[i]? = some fresh)
    {s : Loading T} (h : Counted i s) : NothingMissing defs i s := by
  refine fun t => ⟨fun _ => ?_, fun hphase => ?_⟩
  · have htile := h.tile
    unfold TileCounts at htile
    split at htile
    · rename_i hnone
      exact ⟨_, mapLoadSection_of_none hload h.unlocked hnone⟩
    · rename_i m hm
      obtain ⟨map, hmap, -⟩ := htile
      exact ⟨_, mapLoadSection_of_some hload h.unlocked hm hmap⟩
  · obtain ⟨m, map, hm, hmap, hplayers, -⟩ :=
      h.tile_of_pos (owned_pos (Or.inr (by rw [hphase]; decide)))
    by_cases hlast : map.refs - 1 = 0
    · exact ⟨_, mapUnloadSection_of_eq h.unlocked hm hmap hplayers hlast⟩
    · exact ⟨_, mapUnloadSection_of_ne h.unlocked hm hmap hlast⟩

/-- **The registry counts.**  For every map id, any threads, and every order of their steps:
`refs` is the number of completed loads less the completed unloads, and the map is there
exactly while that number is not zero; no step uses a map that is not there; a load makes a
map only when there is none and returns the one that is there; an unload frees the map
exactly when it leaves no reference.  The steps are the pieces of `map_load` and
`map_unload`. -/
theorem map_registry_counts (hi : i < defs.count) {w : World} (hlock : Lock.map i ∉ w.locks)
    (htile : w.tiles i = none) {l : List (LoadAction T × Loading T)} {s : Loading T}
    (h : Trace (Step defs i) (start w) l s) :
    InPieces defs i ∧ Counted i s ∧ NothingMissing defs i s ∧
      ∀ a s', Step defs i s a s' → Moves i s a s' := by
  have hload : defs.loaders[i]? = some defs.loaders[i] := List.getElem?_eq_getElem hi
  have hcounted := Trace.invariant (I := Counted i)
    (fun _ _ _ ht hstep => (counted_step hload ht hstep).1) (counted_start hlock htile) h
  exact ⟨⟨mapLoadTile_eq defs i, mapUnloadTile_eq defs hload⟩, hcounted,
    nothingMissing_of_counted hload hcounted,
    fun a s' hstep => (counted_step hload hcounted hstep).2⟩

/-- Two threads have loaded the first map of the repository. -/
theorem map_registry_two : ∃ s : Loading ℕ, s.loads = 2 ∧ Counted 0 s ∧
    NothingMissing mapLoaders 0 s ∧ ∀ a s', Step mapLoaders 0 s a s' → Moves 0 s a s' := by
  have hfirst : mapLoadSection mapLoaders 0 (boot [])
      = .ok ((), makeTile 0 mapDefTestTile (boot [])) :=
    mapLoadSection_of_none rfl List.not_mem_nil rfl
  have hsecond : mapLoadSection mapLoaders 0 (makeTile 0 mapDefTestTile (boot [])) = .ok ((), _) :=
    mapLoadSection_of_some rfl List.not_mem_nil rfl rfl
  exact ⟨_, rfl, (map_registry_counts (by decide) List.not_mem_nil rfl
    ((Trace.nil.snoc (.load (t := 0) rfl hfirst)).snoc (.load (t := 1) rfl hsecond))).2⟩

end Loading

end World
end MmoBackend
