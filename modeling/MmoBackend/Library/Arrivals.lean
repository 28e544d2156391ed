import Mathlib.Data.List.Basic
import Mathlib.Data.List.TakeDrop

/-!
# A stream that arrives in segments

The receiving end of a non-blocking connection.  `ready` is what has arrived and
has not been read, `coming` are the segments still on their way, and `timing`
says when they come: its next entry is the number of segments that arrive before
the next system call.  Once `timing` is exhausted a segment arrives only when the
reader waits for one.  Every way a stream can be cut and every moment at which a
piece of it can arrive is therefore a value of this type, and a statement about
all of them is a statement about all timings.

`read` is one system call: it returns what is there, at most what was asked for,
and nothing when nothing is there, which is what would-block looks like to a
caller that only tests for a positive count.  `readLoop` is the usual loop around
it, which stops at the first empty answer.  `wait` returns once something is
there.

All three only move bytes.  `Later s got t` says that the state `t` was reached
from `s` by letting some segments arrive and taking `got` from the front, and it
composes, so what a longer piece of code consumes is the concatenation of what
its calls consume.
-/

namespace MmoBackend

/-- The receiving end of a connection. -/
structure Arrivals (α : Type) where
  /-- Arrived and not yet read. -/
  ready : List α
  /-- The segments still to arrive. -/
  coming : List (List α)
  /-- How many of them arrive before each later system call. -/
  timing : List ℕ

namespace Arrivals

variable {α : Type}

/-- Everything that can still be read. -/
def all (s : Arrivals α) : List α := s.ready ++ s.coming.flatten

/-- A connection on which everything has arrived. -/
def ofList (l : List α) : Arrivals α := ⟨l, [], []⟩

/-- Another segment is sent. -/
def send (segment : List α) (s : Arrivals α) : Arrivals α :=
  { s with coming := s.coming ++ [segment] }

/-- The segments that are due arrive. -/
def tick (s : Arrivals α) : Arrivals α :=
  { ready := s.ready ++ (s.coming.take (s.timing.headD 0)).flatten
    coming := s.coming.drop (s.timing.headD 0)
    timing := s.timing.tail }

/-- `read()`: at most `n` of what is there. -/
def read (n : ℕ) (s : Arrivals α) : List α × Arrivals α :=
  (s.tick.ready.take n, { s.tick with ready := s.tick.ready.drop n })

/-- Read until `n` elements are there or nothing more is. -/
def readLoop (n : ℕ) (s : Arrivals α) : List α × Arrivals α :=
  if (s.read n).1 = [] then ([], (s.read n).2)
  else
    let more := readLoop (n - (s.read n).1.length) (s.read n).2
    ((s.read n).1 ++ more.1, more.2)
termination_by n
decreasing_by
  rename_i h
  have hpos : 0 < (s.read n).1.length := List.length_pos_of_ne_nil h
  have hle : (s.read n).1.length ≤ n := List.length_take_le n _
  omega

/-- The next segment that brings anything, and what comes after it. -/
def nextSegment : List (List α) → Option (List α × List (List α))
  | [] => none
  | [] :: c => nextSegment c
  | (a :: l) :: c => some (a :: l, c)

/-- `poll()`: wait until something is there.  `none` if nothing ever comes. -/
def wait (s : Arrivals α) : Option (Arrivals α) :=
  if s.tick.ready = [] then
    (nextSegment s.tick.coming).map fun p => { s.tick with ready := p.1, coming := p.2 }
  else some s.tick

/-! ## What a call consumes -/

/-- `t` was reached from `s` by letting segments arrive and taking `got` from the
front. -/
def Later (s : Arrivals α) (got : List α) (t : Arrivals α) : Prop :=
  ∃ k, got ++ t.ready = s.ready ++ (s.coming.take k).flatten ∧ t.coming = s.coming.drop k

theorem Later.refl (s : Arrivals α) : Later s [] s :=
  ⟨0, by rw [List.nil_append, List.take_zero, List.flatten_nil, List.append_nil], rfl⟩

theorem Later.trans {s t u : Arrivals α} {a b : List α} (hst : Later s a t)
    (htu : Later t b u) : Later s (a ++ b) u := by
  obtain ⟨k, hk, hkc⟩ := hst
  obtain ⟨m, hm, hmc⟩ := htu
  refine ⟨k + m, ?_, ?_⟩
  · rw [List.append_assoc, hm, ← List.append_assoc, hk, hkc, List.append_assoc,
      ← List.flatten_append, List.take_add]
  · rw [hmc, hkc, List.drop_drop]

/-- Nothing is lost and nothing is reordered. -/
theorem Later.append_all {s t : Arrivals α} {got : List α} (h : Later s got t) :
    got ++ t.all = s.all := by
  obtain ⟨k, hk, hkc⟩ := h
  rw [all, all, ← List.append_assoc, hk, hkc, List.append_assoc, ← List.flatten_append,
    List.take_append_drop]

/-- The same for what has arrived after any number of further segments. -/
theorem Later.append_take {s t : Arrivals α} {got : List α} (h : Later s got t) :
    ∃ m, ∀ k, got ++ (t.ready ++ (t.coming.take k).flatten)
      = s.ready ++ (s.coming.take (m + k)).flatten := by
  obtain ⟨m, hm, hmc⟩ := h
  refine ⟨m, fun k => ?_⟩
  rw [← List.append_assoc, hm, hmc, List.append_assoc, ← List.flatten_append, List.take_add]

theorem later_tick (s : Arrivals α) : Later s [] s.tick :=
  ⟨s.timing.headD 0, rfl, rfl⟩

theorem later_read (n : ℕ) (s : Arrivals α) : Later s (s.read n).1 (s.read n).2 := by
  refine ⟨s.timing.headD 0, ?_, rfl⟩
  rw [read, List.take_append_drop]
  rfl

theorem later_readLoop (n : ℕ) (s : Arrivals α) :
    Later s (s.readLoop n).1 (s.readLoop n).2 := by
  induction n using Nat.strongRecOn generalizing s with
  | ind n ih =>
    rw [readLoop]
    split
    · rename_i h
      have hread := later_read n s
      rwa [h] at hread
    · rename_i h
      have hpos : 0 < (s.read n).1.length := List.length_pos_of_ne_nil h
      have hle : (s.read n).1.length ≤ n := List.length_take_le n _
      exact (later_read n s).trans (ih _ (by omega) _)

theorem length_readLoop_le (n : ℕ) (s : Arrivals α) : (s.readLoop n).1.length ≤ n := by
  induction n using Nat.strongRecOn generalizing s with
  | ind n ih =>
    rw [readLoop]
    split
    · exact Nat.zero_le n
    · rename_i h
      have hpos : 0 < (s.read n).1.length := List.length_pos_of_ne_nil h
      have hle : (s.read n).1.length ≤ n := List.length_take_le n _
      have hmore := ih (n - (s.read n).1.length) (by omega) (s.read n).2
      rw [List.length_append]
      omega

/-- Asking for nothing reads nothing. -/
theorem readLoop_zero (s : Arrivals α) : (s.readLoop 0).1 = [] :=
  List.eq_nil_of_length_eq_zero (Nat.le_zero.mp (length_readLoop_le 0 s))

/-- **What is there is read.**  If `n` elements have arrived, the loop returns
them, whatever arrives meanwhile. -/
theorem readLoop_of_le {n : ℕ} {s : Arrivals α} (h : n ≤ s.ready.length) :
    (s.readLoop n).1 = s.ready.take n := by
  have hread : (s.read n).1 = s.ready.take n := List.take_append_of_le_length h
  rw [readLoop]
  split
  · rename_i hnil
    rw [← hread, hnil]
  · have hlen : (s.read n).1.length = n := by
      rw [hread, List.length_take]
      omega
    show (s.read n).1 ++ (readLoop (n - (s.read n).1.length) (s.read n).2).1 = _
    rw [hlen, Nat.sub_self, readLoop_zero, List.append_nil, hread]

/-- A read from a connection with something there returns something. -/
theorem readLoop_ne_nil {n : ℕ} {s : Arrivals α} (hn : 0 < n) (hs : s.ready ≠ []) :
    (s.readLoop n).1 ≠ [] := by
  have hread : (s.read n).1 ≠ [] := by
    obtain ⟨a, l, hl⟩ := List.exists_cons_of_ne_nil hs
    cases n with
    | zero => exact absurd hn (Nat.lt_irrefl 0)
    | succ n => simp [read, tick, hl]
  rw [readLoop, if_neg hread]
  exact List.append_ne_nil_of_left_ne_nil hread _

/-- Reading until one call brings something and the next one nothing. -/
theorem readLoop_of_read {n : ℕ} {s t u : Arrivals α} {got : List α} (hread : s.read n = (got, t))
    (hgot : got ≠ []) (hrest : t.read (n - got.length) = ([], u)) : s.readLoop n = (got, u) := by
  have hstop : t.readLoop (n - got.length) = ([], u) := by
    rw [readLoop, hrest, if_pos rfl]
  rw [readLoop, hread, if_neg hgot]
  dsimp only
  rw [hstop, List.append_nil]

/-! ## Asking again and again -/

/-- The loop is run until it brings something. -/
inductive Polls (n : ℕ) : Arrivals α → List α → Arrivals α → Prop
  | here {s : Arrivals α} :
      (s.readLoop n).1 ≠ [] → Polls n s (s.readLoop n).1 (s.readLoop n).2
  | again {s t : Arrivals α} {got : List α} :
      (s.readLoop n).1 = [] → Polls n (s.readLoop n).2 got t → Polls n s got t

namespace Polls

variable {n : ℕ} {s t t' : Arrivals α} {got got' : List α}

theorem ne_nil (h : Polls n s got t) : got ≠ [] := by
  induction h with
  | here h => exact h
  | again _ _ ih => exact ih

theorem later (h : Polls n s got t) : Later s got t := by
  induction h with
  | here => exact later_readLoop n _
  | @again s t got hnil _ ih =>
    have hfirst := later_readLoop n s
    rw [hnil] at hfirst
    exact hfirst.trans ih

/-- There is one outcome. -/
theorem inj (h : Polls n s got t) (h' : Polls n s got' t') : got = got' ∧ t = t' := by
  induction h with
  | here hne =>
    cases h' with
    | here => exact ⟨rfl, rfl⟩
    | again hnil => exact absurd hnil hne
  | again hnil _ ih =>
    cases h' with
    | here hne => exact absurd hnil hne
    | again _ hrest => exact ih hrest

end Polls

/-! ## What a bounded number of calls can do

`Reads s t n` is what is known of code that asked for `n` elements in all, however
it went: at most that many were consumed, and on a connection on which nothing
arrives unasked nothing arrived. -/

/-- `t` was reached from `s` by reading at most `n` elements. -/
def Reads (s t : Arrivals α) (n : ℕ) : Prop :=
  ∃ got, Later s got t ∧ got.length ≤ n ∧
    (s.timing = [] → t.timing = [] ∧ t.coming = s.coming ∧ s.ready = got ++ t.ready)

theorem Reads.refl (s : Arrivals α) (n : ℕ) : Reads s s n :=
  ⟨[], Later.refl s, Nat.zero_le n, fun h => ⟨h, rfl, rfl⟩⟩

theorem Reads.trans {s t u : Arrivals α} {n m : ℕ} (hst : Reads s t n) (htu : Reads t u m) :
    Reads s u (n + m) := by
  obtain ⟨a, ha, han, hquiet⟩ := hst
  obtain ⟨b, hb, hbm, hquiet'⟩ := htu
  refine ⟨a ++ b, ha.trans hb, ?_, fun h => ?_⟩
  · rw [List.length_append]
    omega
  · obtain ⟨ht, htc, hready⟩ := hquiet h
    obtain ⟨hu, huc, hready'⟩ := hquiet' ht
    exact ⟨hu, huc.trans htc, by rw [hready, hready', List.append_assoc]⟩

theorem quiet_read {n : ℕ} {s : Arrivals α} (h : s.timing = []) :
    (s.read n).2.timing = [] ∧ (s.read n).2.coming = s.coming ∧
      s.ready = (s.read n).1 ++ (s.read n).2.ready := by
  simp [read, tick, h]

theorem quiet_readLoop {n : ℕ} {s : Arrivals α} (h : s.timing = []) :
    (s.readLoop n).2.timing = [] ∧ (s.readLoop n).2.coming = s.coming ∧
      s.ready = (s.readLoop n).1 ++ (s.readLoop n).2.ready := by
  induction n using Nat.strongRecOn generalizing s with
  | ind n ih =>
    obtain ⟨ht, hc, hr⟩ := quiet_read (n := n) h
    rw [readLoop]
    split
    · rename_i hnil
      rw [hnil] at hr
      exact ⟨ht, hc, hr⟩
    · rename_i hne
      have hpos : 0 < (s.read n).1.length := List.length_pos_of_ne_nil hne
      have hle : (s.read n).1.length ≤ n := List.length_take_le n _
      obtain ⟨ht', hc', hr'⟩ := ih (n - (s.read n).1.length) (by omega) ht
      refine ⟨ht', hc'.trans hc, ?_⟩
      rw [List.append_assoc, ← hr']
      exact hr

theorem tick_of_quiet {s : Arrivals α} (h : s.timing = []) : s.tick = s := by
  obtain ⟨ready, coming, timing⟩ := s
  obtain rfl : timing = [] := h
  simp [tick]

/-- On a connection on which nothing arrives unasked the loop takes what is there. -/
theorem readLoop_of_quiet (n : ℕ) {s : Arrivals α} (h : s.timing = []) :
    s.readLoop n = (s.ready.take n, { s with ready := s.ready.drop n }) := by
  induction n using Nat.strongRecOn generalizing s with
  | ind n ih =>
    have hread : s.read n = (s.ready.take n, { s with ready := s.ready.drop n }) := by
      rw [read, tick_of_quiet h]
    rw [readLoop, hread]
    split
    · rename_i hnil
      have htake : s.ready.take n = [] := hnil
      rw [htake]
    · rename_i hne
      have hpos : 0 < (s.ready.take n).length := List.length_pos_of_ne_nil hne
      rw [List.length_take] at hpos
      have hmore := ih (n - min n s.ready.length) (by omega)
        (s := { s with ready := s.ready.drop n }) h
      dsimp only
      rw [List.length_take, hmore]
      rcases Nat.le_total n s.ready.length with hle | hle
      · rw [Nat.min_eq_left hle, Nat.sub_self, List.take_zero, List.drop_zero, List.append_nil]
      · rw [List.drop_eq_nil_of_le hle, List.take_nil, List.drop_nil, List.append_nil]

/-- All that has arrived is read, if there is room for it. -/
theorem readLoop_ofList {n : ℕ} {l : List α} (h : l.length ≤ n) :
    (ofList l).readLoop n = (l, ofList []) := by
  rw [readLoop_of_quiet n rfl]
  simp [ofList, List.take_of_length_le h, List.drop_eq_nil_of_le h]

theorem reads_readLoop (n : ℕ) (s : Arrivals α) : Reads s (s.readLoop n).2 n :=
  ⟨_, later_readLoop n s, length_readLoop_le n s, quiet_readLoop⟩

/-! ## Waiting -/

theorem nextSegment_eq_some {c : List (List α)} {l : List α} {c' : List (List α)}
    (h : nextSegment c = some (l, c')) :
    l ≠ [] ∧ ∃ k, c.drop k = l :: c' ∧ (c.take k).flatten = [] := by
  induction c with
  | nil => exact absurd h (by simp [nextSegment])
  | cons seg c ih =>
    cases seg with
    | nil =>
      obtain ⟨hne, k, hk, hkc⟩ := ih h
      exact ⟨hne, k + 1, by simpa using hk, by simpa using hkc⟩
    | cons a l' =>
      rw [nextSegment, Option.some.injEq, Prod.mk.injEq] at h
      exact ⟨h.1 ▸ List.cons_ne_nil a l', 0, by simp [← h.1, ← h.2], by simp⟩

/-- The same, counted from behind the segment. -/
theorem nextSegment_eq_take_drop {c : List (List α)} {l : List α} {c' : List (List α)}
    (h : nextSegment c = some (l, c')) :
    ∃ k, l = (c.take k).flatten ∧ c' = c.drop k := by
  obtain ⟨-, k, hk, hnil⟩ := nextSegment_eq_some h
  refine ⟨k + 1, ?_, ?_⟩
  · rw [List.take_add, hk, List.flatten_append, hnil, List.nil_append, List.take_one,
      List.head?_cons, Option.toList_some, List.flatten_singleton]
  · rw [← List.drop_drop, hk, List.drop_one, List.tail_cons]

theorem flatten_eq_nil_of_nextSegment {c : List (List α)} (h : nextSegment c = none) :
    c.flatten = [] := by
  induction c with
  | nil => rfl
  | cons seg c ih =>
    cases seg with
    | nil => exact ih h
    | cons a l => exact absurd h (by simp [nextSegment])

theorem later_wait {s t : Arrivals α} (h : s.wait = some t) : Later s [] t := by
  unfold wait at h
  split at h
  · rename_i hnil
    obtain ⟨⟨l, c⟩, hnext, rfl⟩ := Option.map_eq_some_iff.mp h
    obtain ⟨k, hk, hkc⟩ := nextSegment_eq_take_drop hnext
    have harrive : Later s.tick [] { s.tick with ready := l, coming := c } :=
      ⟨k, by rw [hnil]; exact hk, hkc⟩
    exact (later_tick s).trans harrive
  · rw [← Option.some.inj h]
    exact later_tick s

theorem ready_ne_nil_of_wait {s t : Arrivals α} (h : s.wait = some t) : t.ready ≠ [] := by
  unfold wait at h
  split at h
  · obtain ⟨⟨l, c⟩, hnext, rfl⟩ := Option.map_eq_some_iff.mp h
    exact (nextSegment_eq_some hnext).1
  · rename_i hne
    rw [← Option.some.inj h]
    exact hne

/-- Waiting never returns exactly when nothing is left to arrive. -/
theorem wait_eq_none_iff {s : Arrivals α} : s.wait = none ↔ s.all = [] := by
  have hall : s.tick.all = s.all := (later_tick s).append_all
  rw [← hall]
  unfold wait
  split
  · rename_i hnil
    rw [Option.map_eq_none_iff, all, hnil, List.nil_append]
    constructor
    · exact flatten_eq_nil_of_nextSegment
    · intro hc
      by_contra hne
      obtain ⟨⟨l, c⟩, hnext⟩ := Option.ne_none_iff_exists'.mp hne
      obtain ⟨hl, -⟩ := nextSegment_eq_some hnext
      obtain ⟨k, hk, -⟩ := nextSegment_eq_take_drop hnext
      have hsub : (s.tick.coming.take k).flatten = [] := by
        rw [List.flatten_eq_nil_iff] at hc ⊢
        exact fun l' hl' => hc l' (List.mem_of_mem_take hl')
      exact hl (hk.trans hsub)
  · rename_i hne
    refine iff_of_false (Option.some_ne_none _) fun h => hne ?_
    exact (List.append_eq_nil_iff.mp h).1

/-- Waiting on a connection on which nothing arrives unasked lets one segment
arrive, and only when there was nothing to read. -/
theorem quiet_wait {s t : Arrivals α} (hs : s.timing = []) (h : s.wait = some t) :
    t.timing = [] ∧ (s = t ∨ s.ready = [] ∧
      ∃ k, s.coming.drop k = t.ready :: t.coming ∧ (s.coming.take k).flatten = []) := by
  rw [wait, tick_of_quiet hs] at h
  split at h
  · rename_i hnil
    obtain ⟨⟨l, c⟩, hnext, rfl⟩ := Option.map_eq_some_iff.mp h
    exact ⟨hs, Or.inr ⟨hnil, (nextSegment_eq_some hnext).2⟩⟩
  · obtain rfl := Option.some.inj h
    exact ⟨hs, Or.inl rfl⟩

theorem wait_segment {l : List α} {c : List (List α)} (hl : l ≠ []) :
    wait ⟨[], l :: c, []⟩ = some ⟨l, c, []⟩ := by
  obtain ⟨a, l', rfl⟩ := List.exists_cons_of_ne_nil hl
  simp [wait, tick, nextSegment]

/-! ## The front of what is there -/

/-- The front of what is there is read, and the rest stays. -/
theorem readLoop_front {s : Arrivals α} {l after : List α} (h : s.ready = l ++ after) :
    ∃ t more, s.readLoop l.length = (l, t) ∧ Later s l t ∧ t.ready = after ++ more := by
  have hlen : l.length ≤ s.ready.length := by
    rw [h, List.length_append]
    exact Nat.le_add_right _ _
  have hgot : (s.readLoop l.length).1 = l := by
    rw [readLoop_of_le hlen, h, List.take_left']
    rfl
  have hlater := later_readLoop l.length s
  rw [hgot] at hlater
  obtain ⟨k, hk, -⟩ := id hlater
  rw [h, List.append_assoc] at hk
  exact ⟨_, _, Prod.ext hgot rfl, hlater, List.append_cancel_left hk⟩

/-- Waiting where something is there. -/
theorem wait_front {s : Arrivals α} {l after : List α} (h : s.ready = l ++ after) (hl : l ≠ []) :
    ∃ t more, s.wait = some t ∧ Later s [] t ∧ t.ready = l ++ more := by
  have hne : s.tick.ready ≠ [] := by
    simp [tick, h, hl]
  refine ⟨s.tick, after ++ (s.coming.take (s.timing.headD 0)).flatten, ?_, later_tick s, ?_⟩
  · rw [wait, if_neg hne]
  · rw [tick, h, List.append_assoc]

/-! ## Where the segments end

Positions in the stream are counted from its end, so that they stay the same while it is
read. -/

/-- A segment ends where `r` elements are still to come. -/
def EndsBefore (segments : List (List α)) (r : ℕ) : Prop :=
  ∃ k, (segments.drop k).flatten.length = r

theorem endsBefore_length (segments : List (List α)) :
    EndsBefore segments segments.flatten.length := ⟨0, rfl⟩

theorem EndsBefore.le {segments : List (List α)} {r : ℕ} (h : EndsBefore segments r) :
    r ≤ segments.flatten.length := by
  obtain ⟨k, rfl⟩ := h
  have hsplit : (segments.take k).flatten ++ (segments.drop k).flatten = segments.flatten := by
    rw [← List.flatten_append, List.take_append_drop]
  rw [← hsplit, List.length_append]
  exact Nat.le_add_left _ _

/-- No segment ends between two positions, of which the later one is in what has
arrived. -/
theorem not_endsBefore_between_iff {segments : List (List α)} {r r' : ℕ}
    (h : segments.flatten.length < r') :
    (∀ n, r < n → n < r' → ¬EndsBefore segments n) ↔ segments.flatten.length ≤ r := by
  constructor
  · intro hnone
    by_contra hlt
    exact hnone _ (by omega) h (endsBefore_length segments)
  · intro hle n hn _ hends
    have hn' := hends.le
    omega

/-- Waiting only passes ends in front of everything that is left. -/
theorem endsBefore_wait {s t : Arrivals α} (hs : s.timing = []) (h : s.wait = some t) {r : ℕ}
    (hr : r < s.all.length) : EndsBefore t.coming r ↔ EndsBefore s.coming r := by
  obtain ⟨-, rfl | ⟨hready, k, hk, hnil⟩⟩ := quiet_wait hs h
  · exact Iff.rfl
  · have hdrop : ∀ j, t.coming.drop j = s.coming.drop (k + (j + 1)) := fun j => by
      rw [← List.drop_drop, hk, List.drop_succ_cons]
    have hall : s.coming.flatten = s.all := by rw [all, hready, List.nil_append]
    constructor
    · rintro ⟨j, hj⟩
      exact ⟨k + (j + 1), hdrop j ▸ hj⟩
    · rintro ⟨j, hj⟩
      rcases Nat.lt_or_ge k j with hlt | hle
      · refine ⟨j - k - 1, ?_⟩
        rw [hdrop, show k + (j - k - 1 + 1) = j by omega]
        exact hj
      -- The first `k` segments are empty, so this is the start of what is left.
      · have hpre : (s.coming.take j).flatten = [] := by
          rw [List.flatten_eq_nil_iff] at hnil ⊢
          exact fun l hl => hnil l (List.take_subset_take_left s.coming hle hl)
        have hsplit : (s.coming.take j).flatten ++ (s.coming.drop j).flatten
            = s.coming.flatten := by
          rw [← List.flatten_append, List.take_append_drop]
        rw [hpre, List.nil_append, hall] at hsplit
        rw [hsplit] at hj
        omega

/-! ## Segments of whole blocks

A sender that writes in blocks, of which none is cut by the end of a segment.  What is left to
read is then a list of blocks, and a reader that takes one block at a time finds the next one
whole whenever it has waited. -/

/-- What is left are the blocks `bs`, none of them cut. -/
def InBlocks {β : Type} (enc : β → List α) (s : Arrivals α) (bs : List β) : Prop :=
  ∃ (here : List β) (later : List (List β)), s.ready = (here.map enc).flatten ∧
    s.coming = later.map (fun seg => (seg.map enc).flatten) ∧ bs = here ++ later.flatten

section InBlocks

variable {β : Type} {enc : β → List α} {s t : Arrivals α} {bs : List β}

theorem flatten_map_blocks (l : List (List β)) :
    (l.map fun seg => (seg.map enc).flatten).flatten = (l.flatten.map enc).flatten := by
  induction l with
  | nil => rfl
  | cons seg l ih => simp [ih]

theorem InBlocks.all_eq (h : InBlocks enc s bs) : s.all = (bs.map enc).flatten := by
  obtain ⟨here, later, hready, hcoming, rfl⟩ := h
  rw [all, hready, hcoming, flatten_map_blocks, List.map_append, List.flatten_append]

/-- More segments arrive. -/
theorem InBlocks.arrive (h : InBlocks enc s bs) (hlater : Later s [] t) : InBlocks enc t bs := by
  obtain ⟨here, later, hready, hcoming, rfl⟩ := h
  obtain ⟨k, hk, hkc⟩ := hlater
  refine ⟨here ++ (later.take k).flatten, later.drop k, ?_, ?_, ?_⟩
  · rw [← List.nil_append t.ready, hk, hready, hcoming, ← List.map_take, flatten_map_blocks,
      List.map_append, List.flatten_append]
  · rw [hkc, hcoming, List.map_drop]
  · rw [List.append_assoc, ← List.flatten_append, List.take_append_drop]

/-- **The next block** is there as a whole, and the others are left when it has been taken. -/
theorem InBlocks.next (h : InBlocks enc s bs) (hne : s.ready ≠ []) :
    ∃ b rest after, bs = b :: rest ∧ s.ready = enc b ++ after ∧
      ∀ t, Later s (enc b) t → InBlocks enc t rest := by
  obtain ⟨here, later, hready, hcoming, rfl⟩ := h
  cases here with
  | nil => exact absurd hready hne
  | cons b here =>
    refine ⟨b, here ++ later.flatten, (here.map enc).flatten, rfl, hready, fun t hlater => ?_⟩
    have hrest : InBlocks enc { s with ready := (here.map enc).flatten } (here ++ later.flatten) :=
      ⟨here, later, rfl, hcoming, rfl⟩
    obtain ⟨k, hk, hkc⟩ := hlater
    rw [hready, List.map_cons, List.flatten_cons, List.append_assoc] at hk
    exact hrest.arrive ⟨k, List.append_cancel_left hk, hkc⟩

/-- Waiting returns if there are more blocks. -/
theorem InBlocks.wait (h : InBlocks enc s bs) (hne : bs ≠ []) (henc : ∀ b, enc b ≠ []) :
    ∃ t, s.wait = some t := by
  refine Option.ne_none_iff_exists'.mp fun hnone => ?_
  rw [wait_eq_none_iff, h.all_eq, List.flatten_eq_nil_iff] at hnone
  obtain ⟨b, rest, rfl⟩ := List.exists_cons_of_ne_nil hne
  exact henc b (hnone _ List.mem_cons_self)

theorem inBlocks_nil (h : s.all = []) : InBlocks enc s [] := by
  obtain ⟨hready, hcoming⟩ := List.append_eq_nil_iff.mp h
  refine ⟨[], s.coming.map fun _ => [], hready, ?_, ?_⟩
  · rw [List.map_map]
    refine (List.map_id s.coming).symm.trans (List.map_congr_left fun segment hmem => ?_)
    exact List.flatten_eq_nil_iff.mp hcoming segment hmem
  · simp

/-- More blocks are sent. -/
theorem InBlocks.send (h : InBlocks enc s bs) (more : List β) :
    InBlocks enc (s.send (more.map enc).flatten) (bs ++ more) := by
  obtain ⟨here, later, hready, hcoming, rfl⟩ := h
  refine ⟨here, later ++ [more], hready, ?_, ?_⟩
  · rw [Arrivals.send, hcoming, List.map_append, List.map_singleton]
  · rw [List.flatten_append, List.flatten_singleton, List.append_assoc]

/-- **One block** that is polled for is read as a whole. -/
theorem Polls.block {b : β} {n : ℕ} {got : List α} (hpolls : Polls n s got t)
    (h : InBlocks enc s [b]) (hlen : (enc b).length ≤ n) : got = enc b ∧ t.all = [] := by
  induction hpolls with
  | @here s hne =>
    have hread : (s.read n).1 ≠ [] := fun hnil => hne (by rw [readLoop, if_pos hnil])
    have hready : s.tick.ready ≠ [] := fun hnil => hread (by rw [read, hnil, List.take_nil])
    obtain ⟨b', rest, after, hb, hfront, -⟩ := (h.arrive (later_tick s)).next hready
    obtain ⟨rfl, -⟩ := List.cons.inj hb
    have hprefix : enc b <+: (s.readLoop n).1 := by
      rw [readLoop, if_neg hread]
      refine List.IsPrefix.trans ?_ (List.prefix_append _ _)
      rw [read, hfront, List.take_append, List.take_of_length_le hlen]
      exact List.prefix_append _ _
    obtain ⟨more, hmore⟩ := hprefix
    have hall := (later_readLoop n s).append_all
    rw [h.all_eq, List.map_singleton, List.flatten_singleton, ← hmore, List.append_assoc,
      List.append_right_eq_self, List.append_eq_nil_iff] at hall
    rw [← hmore, hall.1, List.append_nil]
    exact ⟨rfl, hall.2⟩
  | @again s t got hnil _ ih =>
    have hlater := later_readLoop n s
    rw [hnil] at hlater
    exact ih (h.arrive hlater)

end InBlocks

end Arrivals
end MmoBackend
