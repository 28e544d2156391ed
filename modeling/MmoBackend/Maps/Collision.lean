import MmoBackend.Library.Marks
import MmoBackend.Maps.Map

/-!
# `map.c`: the collision bitmap over any sequence of calls

Any number of threads disable and enable cells of one map.  Each call is atomic under
the lock of its row, so whatever the threads do is one sequence of calls, and
`runCoordCalls` is that sequence on a map that `map_create` made.

What comes out is a history of a set of marks: `blockedCells`, read off the bits, is the
set, and each call is the call of the same kind on it (`coordStep_of_call`).  The
refinement over a whole sequence is `collision_is_a_set`.  Since eight cells share a
byte, all of it rests on `mapToggleCoord_spec`, where the width must be a multiple of
eight.
-/

namespace MmoBackend
namespace Maps

/-- A call of `map_disable_coord` or `map_enable_coord` by one of the threads. -/
structure CoordCall where
  thread : ℕ
  disable : Bool
  x : ℤ
  y : ℤ

namespace CoordCall

/-- The call on the set of blocked cells. -/
def op (call : CoordCall) : Marks.Op (ℤ × ℤ) := ⟨call.disable, (call.x, call.y)⟩

/-- The call on the map. -/
def run (call : CoordCall) (map : Map) : Option (Bool × Map) :=
  if call.disable then mapDisableCoord map call.x call.y else mapEnableCoord map call.x call.y

end CoordCall

/-- A sequence of calls: each call with its result and the map after it, and the map at
the end.  `none` if a call uses memory outside the rows of the map. -/
def runCoordCalls : List CoordCall → Map → Option (List ((CoordCall × Bool) × Map) × Map)
  | [], map => some ([], map)
  | call :: calls, map => do
    let (result, map') ← call.run map
    let (log, last) ← runCoordCalls calls map'
    some (((call, result), map') :: log, last)

/-- One call does to the map what the same call does to the set of its blocked cells, and a
refused call does nothing at all. -/
structure CoordStep (map : Map) (e : CoordCall × Bool) (map' : Map) : Prop where
  marks : Marks.Step (cells map) (blockedCells map) (e.1.op, e.2) (blockedCells map')
  cells_eq : cells map' = cells map
  refused : e.2 = false → map' = map

/-- **What the bits of a map say.**  Every cell of the map can be looked up, and it is walkable
exactly when it is not blocked. -/
def BitsTell (map : Map) : Prop :=
  ∀ x y, (x, y) ∈ cells map →
    ∃ walkable, mapCoordIsWalkable map x y = some walkable ∧
      (walkable = true ↔ (x, y) ∉ blockedCells map)

theorem bitsTell {map : Map} (hmap : WellShaped map) : BitsTell map := by
  intro x y hc
  obtain ⟨b, hb⟩ := exists_bit hmap hc
  obtain ⟨hx, -, hy, -⟩ := mem_cells.mp hc
  refine ⟨!b, by rw [mapCoordIsWalkable_eq map hx hy, hb, Option.map_some], ?_⟩
  rw [mem_blockedCells hc, hb]
  cases b <;> simp

/-! ## A new map -/

theorem wellShaped_mapCreate (id height : ℤ) {width : ℤ} (h : width % 8 = 0) :
    WellShaped (mapCreate id width height) := by
  refine ⟨h, ⟨List.length_replicate, fun row hrow => ?_⟩⟩
  rw [List.eq_of_mem_replicate hrow, mapRowCreate, List.length_replicate, mapGetSegments_eq]
  rfl

/-- No cell of a new map is blocked. -/
theorem blockedCells_mapCreate (id width height : ℤ) :
    blockedCells (mapCreate id width height) = ∅ := by
  ext ⟨x, y⟩
  refine iff_of_false (fun h => ?_) (Set.notMem_empty _)
  obtain ⟨-, hwalkable⟩ := h
  rw [mapCoordIsWalkable, Option.map_eq_some_iff] at hwalkable
  obtain ⟨segment, hsegment, hset⟩ := hwalkable
  unfold segmentAt at hsegment
  split at hsegment
  · obtain ⟨row, hrow, hbyte⟩ := Option.bind_eq_some_iff.mp hsegment
    have hrow' := List.eq_of_mem_replicate (List.mem_of_getElem? hrow)
    rw [hrow'] at hbyte
    have hzero := List.eq_of_mem_replicate (List.mem_of_getElem? hbyte)
    rw [hzero] at hset
    exact absurd hset (by simp)
  · exact absurd hsegment (by simp)

/-! ## One call -/

theorem CoordCall.run_eq (call : CoordCall) (map : Map) :
    call.run map = mapToggleCoord map call.x call.y call.disable := by
  cases h : call.disable <;> simp [run, h, mapDisableCoord, mapEnableCoord]

/-- **A call never leaves the rows of the map**, keeps their shape, and is the same call on
the set of blocked cells. -/
theorem coordStep_of_call {map : Map} (hmap : WellShaped map) (call : CoordCall) :
    ∃ result map', call.run map = some (result, map') ∧ WellShaped map' ∧
      CoordStep map (call, result) map' := by
  rw [call.run_eq]
  rcases mapToggleCoord_spec hmap call.x call.y call.disable with
    ⟨hrun, hc, hfree⟩ | ⟨hrun, hbad⟩
  · have hblocked := blockedCells_switchCoord hmap hc call.disable
    refine ⟨true, _, hrun, wellShaped_switchCoord hmap _ _ _,
      ⟨⟨iff_of_true rfl ⟨hc, hfree⟩, fun _ hmark => ?_, fun _ hmark => ?_,
        fun h => Bool.noConfusion h⟩, rfl, fun h => Bool.noConfusion h⟩⟩
    · have hdisable : call.disable = true := hmark
      rw [hblocked, if_pos hdisable]
      rfl
    · have henable : ¬call.disable = true := ne_true_of_eq_false hmark
      rw [hblocked, if_neg henable]
      rfl
  · refine ⟨false, map, hrun, hmap, ⟨⟨iff_of_false (fun h => Bool.noConfusion h) ?_,
      fun h => Bool.noConfusion h, fun h => Bool.noConfusion h, fun _ => rfl⟩, rfl, fun _ => rfl⟩⟩
    rintro ⟨hc, hfree⟩
    rcases hbad with hout | ⟨hdisable, htaken⟩
    · exact hout hc
    · exact hfree hdisable htaken

/-! ## Any sequence of calls -/

/-- Every sequence of calls runs to its end, and its log is a history of steps. -/
theorem trace_runCoordCalls {map : Map} (hmap : WellShaped map) (calls : List CoordCall) :
    ∃ log last, runCoordCalls calls map = some (log, last) ∧ WellShaped last ∧
      Trace CoordStep map log last ∧ ∀ e ∈ log, WellShaped e.2 := by
  induction calls generalizing map with
  | nil => exact ⟨[], map, rfl, hmap, .nil, fun e he => absurd he List.not_mem_nil⟩
  | cons call calls ih =>
    obtain ⟨result, map', hrun, hmap', hstep⟩ := coordStep_of_call hmap call
    obtain ⟨log, last, hlog, hlast, htrace, hall⟩ := ih hmap'
    refine ⟨((call, result), map') :: log, last, ?_, hlast,
      Trace.cons_iff.mpr ⟨hstep, htrace⟩, fun e he => ?_⟩
    · rw [runCoordCalls, hrun, Option.bind_eq_bind, Option.bind_some]
      dsimp only
      rw [hlog]
      rfl
    · rcases List.mem_cons.mp he with rfl | he
      · exact hmap'
      · exact hall e he

/-- The history of a map is a history of the set of its blocked cells. -/
theorem marks_of_trace {map last : Map} {log : List ((CoordCall × Bool) × Map)}
    (h : Trace CoordStep map log last) :
    Trace (Marks.Step (cells map)) (blockedCells map)
      (log.map (Prod.map (Prod.map CoordCall.op id) blockedCells)) (blockedCells last) := by
  have hcells : ∀ t i u, cells t = cells map → CoordStep t i u → cells u = cells map :=
    fun t i u ht hstep => hstep.cells_eq.trans ht
  exact h.map hcells (fun t i u ht hstep => ht ▸ hstep.marks) rfl

/-- Between two successful disables of a cell there is a successful enable of it. -/
def EnabledBetween (log : List ((CoordCall × Bool) × Map)) : Prop :=
  ∀ l₁ e₁ l₂ e₂ l₃, log = l₁ ++ e₁ :: (l₂ ++ e₂ :: l₃) →
    e₁.1.1.disable = true → e₁.1.2 = true → e₂.1.1.disable = true → e₂.1.2 = true →
    (e₁.1.1.x, e₁.1.1.y) = (e₂.1.1.x, e₂.1.1.y) →
    ∃ e ∈ l₂, e.1.1.disable = false ∧ e.1.2 = true ∧
      (e.1.1.x, e.1.1.y) = (e₁.1.1.x, e₁.1.1.y)

theorem enabledBetween_of_trace {map last : Map} {log : List ((CoordCall × Bool) × Map)}
    (h : Trace CoordStep map log last) : EnabledBetween log := by
  rintro l₁ ⟨⟨⟨thread₁, disable₁, x₁, y₁⟩, result₁⟩, map₁⟩ l₂
    ⟨⟨⟨thread₂, disable₂, x₂, y₂⟩, result₂⟩, map₂⟩ l₃ rfl hdisable₁ hresult₁ hdisable₂ hresult₂ hc
  obtain rfl : disable₁ = true := hdisable₁
  obtain rfl : result₁ = true := hresult₁
  obtain rfl : disable₂ = true := hdisable₂
  obtain rfl : result₂ = true := hresult₂
  obtain ⟨rfl, rfl⟩ : x₁ = x₂ ∧ y₁ = y₂ := Prod.mk.inj hc
  have hmarks := marks_of_trace h
  rw [List.map_append, List.map_cons, List.map_append, List.map_cons] at hmarks
  obtain ⟨e, he, hunmark⟩ := Marks.exists_unmark_between hmarks
  obtain ⟨e', he', rfl⟩ := List.mem_map.mp he
  obtain ⟨hop, hresult⟩ := Prod.mk.inj hunmark
  obtain ⟨henable, hcell⟩ := Marks.Op.mk.inj hop
  exact ⟨e', he', henable, hresult, hcell⟩

/-- **The collision bitmap is a set of cells.**  On a map made with a width that is a
multiple of eight, every sequence of calls by any threads runs to its end.  Its results are
those of a set of cells that is empty at first, a refused call changes nothing, and at every
moment the walkable cells are those outside the set.  So between two successful disables of a
cell there is an enable of it. -/
theorem collision_is_a_set (mapId height : ℤ) {width : ℤ} (hwidth : width % 8 = 0)
    (calls : List CoordCall) :
    ∃ log last, runCoordCalls calls (mapCreate mapId width height) = some (log, last) ∧
      blockedCells (mapCreate mapId width height) = ∅ ∧
      Trace CoordStep (mapCreate mapId width height) log last ∧
      Trace (Marks.Step (cells (mapCreate mapId width height))) ∅
        (log.map (Prod.map (Prod.map CoordCall.op id) blockedCells)) (blockedCells last) ∧
      BitsTell (mapCreate mapId width height) ∧ (∀ e ∈ log, BitsTell e.2) ∧ EnabledBetween log := by
  have hmap := wellShaped_mapCreate mapId height hwidth
  obtain ⟨log, last, hrun, -, htrace, hall⟩ := trace_runCoordCalls hmap calls
  have hempty := blockedCells_mapCreate mapId width height
  exact ⟨log, last, hrun, hempty, htrace, hempty ▸ marks_of_trace htrace, bitsTell hmap,
    fun e he => bitsTell (hall e he), enabledBetween_of_trace htrace⟩

/-- Two threads and two cells of one byte. -/
def twoThreads : List CoordCall :=
  [⟨0, true, 8, 1⟩, ⟨1, true, 9, 1⟩, ⟨1, true, 8, 1⟩, ⟨0, false, 8, 1⟩, ⟨1, true, 8, 1⟩,
    ⟨0, true, -1, 1⟩]

theorem collision_twoThreads :
    ∃ log last, runCoordCalls twoThreads (mapCreate 0 16 3) = some (log, last) ∧
      blockedCells (mapCreate 0 16 3) = ∅ ∧ Trace CoordStep (mapCreate 0 16 3) log last ∧
      Trace (Marks.Step (cells (mapCreate 0 16 3))) ∅
        (log.map (Prod.map (Prod.map CoordCall.op id) blockedCells)) (blockedCells last) ∧
      BitsTell (mapCreate 0 16 3) ∧ (∀ e ∈ log, BitsTell e.2) ∧ EnabledBetween log :=
  collision_is_a_set 0 3 (by decide) twoThreads

example : (runCoordCalls twoThreads (mapCreate 0 16 3)).map (fun r => r.1.map (·.1.2))
    = some [true, true, false, true, true, false] := by decide

end Maps
end MmoBackend
