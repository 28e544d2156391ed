import MmoBackend.Networking.ReadFrame

/-!
# Reading a stream of frames

`readFrames` is a reader that waits for input, calls `ws_read_frame`, and starts
again, until nothing more can come.  What it produces depends on how the stream
was cut into segments, because `ws_read` gives up at the first would-block and its
caller goes on with what it has.

A cut between two frames does no harm.  A cut inside a frame is harmful as soon as
the reader gets there before the next segment does: the call takes a piece of a
frame for a whole one, and since no call consumes more than the frame it returns
announces, the right frames in the right order would leave bytes over.
`sameFrames_iff` puts the two together.
-/

namespace MmoBackend
namespace Networking

open Bytes

/-! ## The reader -/

/-- A frame as its user sees it: the extended length is read through `ws_length`,
so the part of the union that `ws_read_frame` leaves uninitialised is not seen. -/
def observe (frame : WSFrame) : WSFrame :=
  { frame with lengthExt := BitVec.ofNat 64 (wsLength frame) }

/-- Wait for input and read a frame, at most `n` times.  The result of each call is
recorded; a fault ends the reader.  `g i` is the memory the `i`-th call finds. -/
def readFrames (g : ℕ → Garbage) :
    ℕ → Arrivals UInt8 → List (Except Stop (Option WSFrame))
  | 0, _ => []
  | n + 1, s =>
    match s.wait with
    | none => []
    | some t =>
      match wsReadFrame (g 0) t with
      | .error e => [.error e]
      | .ok (frame, u) => .ok (frame.map observe) :: readFrames (fun i => g (i + 1)) n u

/-- The reader on a whole stream.  Every call consumes something, so there are at
most as many calls as there are bytes. -/
def readAll (g : ℕ → Garbage) (s : Arrivals UInt8) : List (Except Stop (Option WSFrame)) :=
  readFrames g s.all.length s

theorem readFrames_succ_of_none {g : ℕ → Garbage} {n : ℕ} {s : Arrivals UInt8}
    (h : s.wait = none) : readFrames g (n + 1) s = [] := by
  rw [readFrames, h]

theorem readFrames_succ_of_ok {g : ℕ → Garbage} {n : ℕ} {s t u : Arrivals UInt8}
    {frame : Option WSFrame} (hwait : s.wait = some t)
    (hread : wsReadFrame (g 0) t = .ok (frame, u)) :
    readFrames g (n + 1) s
      = .ok (frame.map observe) :: readFrames (fun i => g (i + 1)) n u := by
  rw [readFrames, hwait]
  simp only [hread]

/-! ## Every call makes progress -/

/-- Something, possibly nothing, was consumed. -/
def Consumes (s t : Arrivals UInt8) : Prop := ∃ got, Arrivals.Later s got t

instance : IsPreorder (Arrivals UInt8) Consumes where
  refl s := ⟨[], Arrivals.Later.refl s⟩
  trans := fun _ _ _ ⟨a, ha⟩ ⟨b, hb⟩ => ⟨a ++ b, ha.trans hb⟩

theorem within_wsRead (old : List UInt8) : Exec.Within Consumes (wsRead old) := by
  intro s l t h
  rw [wsRead_eq, Except.ok.injEq, Prod.mk.injEq] at h
  exact ⟨_, h.2 ▸ Arrivals.later_readLoop old.length s⟩

theorem within_allocFrame (extra : BitVec 64) : Exec.Within Consumes (allocFrame extra) :=
  Exec.within_of_state_eq fun _ _ _ => allocFrame_reads

theorem within_wsReadRest (g : Garbage) (temp : WSFrame) (n : ℕ) :
    Exec.Within Consumes (wsReadRest g temp n) := by
  have hkey : Exec.Within Consumes (wsReadKey g temp) :=
    Exec.within_ite (Exec.within_bind (within_wsRead _) fun _ => Exec.within_pure _)
      (Exec.within_pure _)
  have hbody : ∀ key, Exec.Within Consumes (wsReadBody g key n) := fun key =>
    Exec.within_ite (Exec.within_bind (within_wsRead _) fun _ => Exec.within_pure _)
      (Exec.within_pure _)
  exact Exec.within_bind hkey fun key => Exec.within_bind (hbody key) fun _ =>
    Exec.within_ite (Exec.within_pure _) (Exec.within_pure _)

theorem within_wsReadSize (g : Garbage) (temp : WSFrame) :
    Exec.Within Consumes (wsReadSize g temp) := by
  unfold wsReadSize
  refine Exec.within_ite ?_ (Exec.within_ite ?_ ?_)
  · exact Exec.within_bind (within_wsRead _) fun _ =>
      Exec.within_bind (within_allocFrame _) fun _ => within_wsReadRest _ _ _
  · exact Exec.within_bind (within_wsRead _) fun _ =>
      Exec.within_ite (Exec.within_pure _)
        (Exec.within_bind (within_allocFrame _) fun _ => within_wsReadRest _ _ _)
  · exact Exec.within_bind (within_allocFrame _) fun _ => within_wsReadRest _ _ _

/-- **A call with something to read consumes something.** -/
theorem length_all_lt_of_wsReadFrame {g : Garbage} {frame : Option WSFrame}
    {s t : Arrivals UInt8} (hs : s.ready ≠ []) (h : wsReadFrame g s = .ok (frame, t)) :
    t.all.length < s.all.length := by
  rw [wsReadFrame, Exec.bind_eq_ok] at h
  obtain ⟨l, u, hread, hsize⟩ := h
  rw [wsRead_eq, Except.ok.injEq, Prod.mk.injEq] at hread
  obtain ⟨got, hgot⟩ := within_wsReadSize g _ u frame t hsize
  have hhead := (Arrivals.later_readLoop 2 s).append_all
  have hpos : 0 < (s.readLoop 2).1.length :=
    List.length_pos_of_ne_nil (Arrivals.readLoop_ne_nil (by decide) hs)
  have hu : (s.readLoop 2).2 = u := hread.2
  have hrest := hgot.append_all
  rw [← hhead, hu, ← hrest, List.length_append, List.length_append]
  omega

/-! ## The frames of a stream -/

/-- The frames a client can send that the reader takes. -/
structure Readable (f : Rfc6455.Frame) : Prop where
  masked : f.maskKey.isSome
  accepted : AcceptedOpcode f.opcode
  short : f.payload.length < 32768

/-- The bytes of a sequence of frames. -/
def stream (frames : List Rfc6455.Frame) : List UInt8 := frames.flatMap Rfc6455.encode

@[simp] theorem stream_nil : stream [] = [] := rfl

@[simp] theorem stream_cons (f : Rfc6455.Frame) (frames : List Rfc6455.Frame) :
    stream (f :: frames) = Rfc6455.encode f ++ stream frames := List.flatMap_cons

/-- The frame the user of the reader sees for `f`. -/
def seen (f : Rfc6455.Frame) : WSFrame :=
  observe (received zeroGarbage f (f.maskKey.getD ⟨#[0, 0, 0, 0], rfl⟩))

theorem encode_ne_nil (f : Rfc6455.Frame) : Rfc6455.encode f ≠ [] := List.cons_ne_nil _ _

/-- The frame that is seen does not depend on what the memory contained. -/
theorem observe_received (g : Garbage) {f : Rfc6455.Frame} {key : Vector UInt8 4}
    (hkey : f.maskKey = some key) (hlen : f.payload.length < 32768) :
    observe (received g f key) = seen f := by
  rw [seen, hkey, Option.getD_some, observe, observe, wsLength_received g key hlen,
    wsLength_received _ key hlen]
  rfl

theorem wireSize_observe (frame : WSFrame) : wireSize (observe frame) = wireSize frame := rfl

/-- What a frame announces is what it takes on the wire. -/
theorem wireSize_seen {f : Rfc6455.Frame} (hf : Readable f) :
    wireSize (seen f) = (Rfc6455.encode f).length := by
  obtain ⟨key, hkey⟩ := Option.isSome_iff_exists.mp hf.masked
  have hlen := hf.short
  rw [← observe_received zeroGarbage hkey hlen, wireSize_observe]
  obtain ⟨-, -, hmask, hl7⟩ := headerFields_encode f zeroGarbage
  have hl : (received zeroGarbage f key).length.toNat
      = Rfc6455.length7 f.payload.length := hl7
  have hm : (received zeroGarbage f key).mask = 1 := by
    rw [hkey] at hmask
    exact hmask
  have hdata : (received zeroGarbage f key).data.getD [] = f.payload :=
    bodyOf_getD f.payload
  have hext : extSize (received zeroGarbage f key)
      = (Rfc6455.lengthExt f.payload.length).length := by
    rw [extSize, hl, Rfc6455.length7, Rfc6455.lengthExt]
    by_cases h7 : f.payload.length < 126
    · rw [if_pos h7, if_pos h7, if_neg (by omega), if_neg (by omega), List.length_nil]
    · have h16 : f.payload.length < 65536 := by omega
      rw [if_neg h7, if_neg h7, if_pos h16, if_pos h16, if_pos rfl, length_beBytes]
  rw [encode_masked hkey, wireSize, hext, keySize, if_pos hm, hdata]
  simp only [List.length_append, Vector.length_toList, Rfc6455.length_applyMask,
    List.length_cons, List.length_nil]

/-! ## Cuts between frames -/

/-- Every segment boundary that is still to come is a boundary between two frames
of `frames`. -/
def AlignedFrom (frames : List Rfc6455.Frame) (s : Arrivals UInt8) : Prop :=
  ∀ k, ∃ j, s.ready ++ (s.coming.take k).flatten = stream (frames.take j)

/-- Waiting keeps the boundaries. -/
theorem AlignedFrom.later {frames : List Rfc6455.Frame} {s t : Arrivals UInt8}
    (h : AlignedFrom frames s) (hlater : Arrivals.Later s [] t) : AlignedFrom frames t := by
  obtain ⟨m, hm⟩ := hlater.append_take
  intro k
  obtain ⟨j, hj⟩ := h (m + k)
  exact ⟨j, (hm k).trans hj⟩

/-- So does reading the first frame. -/
theorem AlignedFrom.read {f : Rfc6455.Frame} {frames : List Rfc6455.Frame}
    {s t : Arrivals UInt8} (h : AlignedFrom (f :: frames) s)
    (hlater : Arrivals.Later s (Rfc6455.encode f) t) : AlignedFrom frames t := by
  obtain ⟨m, hm⟩ := hlater.append_take
  intro k
  obtain ⟨j, hj⟩ := h (m + k)
  have hk := (hm k).trans hj
  cases j with
  | zero => exact absurd (List.append_eq_nil_iff.mp hk).1 (encode_ne_nil f)
  | succ j =>
    rw [List.take_succ_cons, stream_cons] at hk
    exact ⟨j, List.append_cancel_left hk⟩

/-- **Aligned segments are read as the frames they are made of.** -/
theorem readFrames_of_aligned {frames : List Rfc6455.Frame} (hframes : ∀ f ∈ frames, Readable f)
    {g : ℕ → Garbage} {n : ℕ} {s : Arrivals UInt8} (hall : s.all = stream frames)
    (haligned : AlignedFrom frames s) (hn : frames.length ≤ n) :
    readFrames g n s = frames.map fun f => .ok (some (seen f)) := by
  induction frames generalizing g n s with
  | nil =>
    cases n with
    | zero => rfl
    | succ n => exact readFrames_succ_of_none (Arrivals.wait_eq_none_iff.mpr hall)
  | cons f frames ih =>
    obtain ⟨n, rfl⟩ : ∃ k, n = k + 1 := ⟨n - 1, by rw [List.length_cons] at hn; omega⟩
    have hf : Readable f := hframes f List.mem_cons_self
    obtain ⟨key, hkey⟩ := Option.isSome_iff_exists.mp hf.masked
    -- something is left, so waiting returns
    have hne : s.all ≠ [] := by
      rw [hall, stream_cons]
      exact List.append_ne_nil_of_left_ne_nil (encode_ne_nil f) _
    obtain ⟨t, hwait⟩ : ∃ t, s.wait = some t :=
      Option.ne_none_iff_exists'.mp fun h => hne (Arrivals.wait_eq_none_iff.mp h)
    have hlater := Arrivals.later_wait hwait
    have ht := haligned.later hlater
    -- what is there is a whole number of frames, at least one
    obtain ⟨j, hj⟩ := ht 0
    rw [List.take_zero, List.flatten_nil, List.append_nil] at hj
    cases j with
    | zero => exact absurd hj (Arrivals.ready_ne_nil_of_wait hwait)
    | succ j =>
      rw [List.take_succ_cons, stream_cons] at hj
      obtain ⟨u, r', hread, hlater', -⟩ :=
        wsReadFrame_encode (g 0) hkey hf.accepted hf.short hj
      have hrest : u.all = stream frames := by
        have h := hlater'.append_all
        rw [← List.nil_append t.all, hlater.append_all, hall, stream_cons] at h
        exact List.append_cancel_left h
      rw [readFrames_succ_of_ok hwait hread, List.map_cons, Option.map_some,
        observe_received (g 0) hkey hf.short,
        ih (fun f' hf' => hframes f' (List.mem_cons_of_mem f hf')) hrest (ht.read hlater')
          (Nat.le_of_succ_le_succ hn)]

/-! ## Cuts inside a frame

If a slow reader produces the right frames, then no call read less than its frame,
and a call that read all of its frame found it in one piece. -/

/-- The first result of a reader that returns anything. -/
theorem readFrames_eq_cons {g : ℕ → Garbage} {n : ℕ} {s : Arrivals UInt8} {frame : WSFrame}
    {l : List (Except Stop (Option WSFrame))}
    (h : readFrames g n s = .ok (some frame) :: l) :
    ∃ m t frame' u, n = m + 1 ∧ s.wait = some t ∧ wsReadFrame (g 0) t = .ok (some frame', u) ∧
      observe frame' = frame ∧ readFrames (fun i => g (i + 1)) m u = l := by
  cases n with
  | zero => exact absurd h (by simp [readFrames])
  | succ m =>
    cases hwait : s.wait with
    | none => exact absurd h (by rw [readFrames_succ_of_none hwait]; simp)
    | some t =>
      cases hread : wsReadFrame (g 0) t with
      | error e => exact absurd h (by simp [readFrames, hwait, hread])
      | ok r =>
        obtain ⟨frame', u⟩ := r
        rw [readFrames_succ_of_ok hwait hread, List.cons.injEq, Except.ok.injEq,
          Option.map_eq_some_iff] at h
        obtain ⟨⟨frame', rfl, hframe⟩, hl⟩ := h
        exact ⟨m, t, frame', u, rfl, rfl, hread, hframe, hl⟩

/-- A reader that produced the frames of `frames` has not read more than them. -/
theorem length_all_le_of_readFrames {frames : List Rfc6455.Frame}
    (hframes : ∀ f ∈ frames, Readable f) {g : ℕ → Garbage} {n : ℕ} {s : Arrivals UInt8}
    (hn : s.all.length ≤ n)
    (h : readFrames g n s = frames.map fun f => .ok (some (seen f))) :
    s.all.length ≤ (stream frames).length := by
  induction frames generalizing g n s with
  | nil =>
    cases hwait : s.wait with
    | none => rw [Arrivals.wait_eq_none_iff.mp hwait, stream_nil]
    | some t =>
      cases n with
      | zero => rw [Nat.le_zero.mp hn]; exact Nat.zero_le _
      | succ n => exact absurd h (by rw [readFrames, hwait]; dsimp only; split <;> simp)
  | cons f frames ih =>
    rw [List.map_cons] at h
    obtain ⟨m, t, frame, u, rfl, hwait, hread, hframe, hl⟩ := readFrames_eq_cons h
    have hall := (Arrivals.later_wait hwait).append_all
    rw [List.nil_append] at hall
    have hlt := length_all_lt_of_wsReadFrame (Arrivals.ready_ne_nil_of_wait hwait) hread
    obtain ⟨got, hlater, hgot, -⟩ := wsReadFrame_reads hread
    rw [← wireSize_observe, hframe, wireSize_seen (hframes f List.mem_cons_self)] at hgot
    have hrest := ih (fun f' hf' => hframes f' (List.mem_cons_of_mem f hf'))
      (by rw [hall] at hlt; omega) hl
    rw [← hall, ← hlater.append_all, stream_cons, List.length_append, List.length_append]
    omega

/-- **A slow reader that produces the right frames met only boundaries between
frames.** -/
theorem alignedFrom_of_readFrames {frames : List Rfc6455.Frame}
    (hframes : ∀ f ∈ frames, Readable f) {g : ℕ → Garbage} {n : ℕ} {s : Arrivals UInt8}
    (hn : s.all.length ≤ n) (hslow : s.timing = []) (hall : s.all = stream frames)
    (h : readFrames g n s = frames.map fun f => .ok (some (seen f))) :
    AlignedFrom frames s := by
  induction frames generalizing g n s with
  | nil =>
    intro k
    obtain ⟨hready, hcoming⟩ := List.append_eq_nil_iff.mp hall
    refine ⟨0, ?_⟩
    rw [hready, List.nil_append, List.take_nil, stream_nil, List.flatten_eq_nil_iff]
    exact fun l hl => List.flatten_eq_nil_iff.mp hcoming l (List.mem_of_mem_take hl)
  | cons f frames ih =>
    rw [List.map_cons] at h
    obtain ⟨m, t, frame, u, rfl, hwait, hread, hframe, hl⟩ := readFrames_eq_cons h
    obtain ⟨htslow, hcase⟩ := Arrivals.quiet_wait hslow hwait
    have htall := (Arrivals.later_wait hwait).append_all
    rw [List.nil_append] at htall
    have hlt := length_all_lt_of_wsReadFrame (Arrivals.ready_ne_nil_of_wait hwait) hread
    have hrec : ∀ f' ∈ frames, Readable f' :=
      fun f' hf' => hframes f' (List.mem_cons_of_mem f hf')
    have hum : u.all.length ≤ m := by
      rw [htall] at hlt
      omega
    obtain ⟨got, hlater, hgot, hquiet⟩ := wsReadFrame_reads hread
    obtain ⟨huslow, hucoming, huready⟩ := hquiet htslow
    rw [← wireSize_observe, hframe, wireSize_seen (hframes f List.mem_cons_self)] at hgot
    -- the call read all of its frame: otherwise too much is left for the others
    have hsplit : got ++ u.all = Rfc6455.encode f ++ stream frames := by
      rw [hlater.append_all, htall, hall, stream_cons]
    have hgoteq : got = Rfc6455.encode f := by
      have hle := length_all_le_of_readFrames hrec hum hl
      have hlen := congrArg List.length hsplit
      rw [List.length_append, List.length_append] at hlen
      exact List.append_inj_left hsplit (by omega)
    have huall : u.all = stream frames := by
      rw [hgoteq] at hsplit
      exact List.append_cancel_left hsplit
    have hu := ih hrec hum huslow huall hl
    have ht : AlignedFrom (f :: frames) t := by
      intro k
      obtain ⟨j, hj⟩ := hu k
      refine ⟨j + 1, ?_⟩
      rw [List.take_succ_cons, stream_cons, ← hj, huready, hgoteq, hucoming, List.append_assoc]
    rcases hcase with rfl | ⟨hnil, k₀, hk₀, hempty⟩
    · exact ht
    · -- the boundaries of `s` are those of `t` and the empty segments skipped
      intro k
      rw [hnil, List.nil_append]
      rcases Nat.lt_or_ge k₀ k with hk | hk
      · obtain ⟨i, rfl⟩ : ∃ i, k = k₀ + (i + 1) := ⟨k - k₀ - 1, by omega⟩
        obtain ⟨j, hj⟩ := ht i
        refine ⟨j, ?_⟩
        rw [List.take_add, hk₀, List.flatten_append, hempty, List.nil_append,
          List.take_succ_cons, List.flatten_cons, hj]
      · refine ⟨0, ?_⟩
        rw [List.take_zero, stream_nil, List.flatten_eq_nil_iff]
        exact fun l hl' => List.flatten_eq_nil_iff.mp hempty l
          ((List.take_prefix_take_left hk).subset hl')

/-! ## Two cuts of one stream -/

/-- The segments are cut between frames only. -/
def Aligned (frames : List Rfc6455.Frame) (segs : List (List UInt8)) : Prop :=
  ∀ k, ∃ j, (segs.take k).flatten = stream (frames.take j)

/-- Whatever the memory contains and whenever the segments arrive, the two cuts are
read as the same sequence of frames. -/
def SameFrames (segs₁ segs₂ : List (List UInt8)) : Prop :=
  ∀ g₁ g₂ timing₁ timing₂, readAll g₁ ⟨[], segs₁, timing₁⟩ = readAll g₂ ⟨[], segs₂, timing₂⟩

/-- There are at most as many frames as bytes. -/
theorem length_le_length_stream (frames : List Rfc6455.Frame) :
    frames.length ≤ (stream frames).length := by
  induction frames with
  | nil => exact Nat.zero_le _
  | cons f frames ih =>
    have hpos : 0 < (Rfc6455.encode f).length := List.length_pos_of_ne_nil (encode_ne_nil f)
    rw [stream_cons, List.length_append, List.length_cons]
    omega

/-- Aligned segments are read as the frames they are made of, at any timing. -/
theorem readAll_of_aligned {frames : List Rfc6455.Frame} (hframes : ∀ f ∈ frames, Readable f)
    {segs : List (List UInt8)} (hsegs : segs.flatten = stream frames)
    (haligned : Aligned frames segs) (g : ℕ → Garbage) (timing : List ℕ) :
    readAll g ⟨[], segs, timing⟩ = frames.map fun f => .ok (some (seen f)) := by
  refine readFrames_of_aligned hframes hsegs haligned ?_
  rw [show (Arrivals.all ⟨[], segs, timing⟩) = stream frames from hsegs]
  exact length_le_length_stream frames

theorem readFrames_congr {g : ℕ → Garbage} {n : ℕ} {s t : Arrivals UInt8}
    (h : s.wait = t.wait) : readFrames g n s = readFrames g n t := by
  cases n with
  | zero => rfl
  | succ n => rw [readFrames, readFrames, h]

/-- If everything arrives at once the cuts do not matter. -/
theorem readAll_at_once {frames : List Rfc6455.Frame} (hframes : ∀ f ∈ frames, Readable f)
    {segs : List (List UInt8)} (hsegs : segs.flatten = stream frames) (g : ℕ → Garbage) :
    readAll g ⟨[], segs, [segs.length]⟩ = frames.map fun f => .ok (some (seen f)) := by
  have hall : Arrivals.all ⟨[], segs, [segs.length]⟩ = stream frames := hsegs
  have hwait : Arrivals.wait ⟨[], segs, [segs.length]⟩
      = (Arrivals.ofList (stream frames)).wait := by
    simp [Arrivals.wait, Arrivals.tick, Arrivals.ofList, hsegs]
  have haligned : AlignedFrom frames (Arrivals.ofList (stream frames)) := by
    intro k
    refine ⟨frames.length, ?_⟩
    rw [List.take_length, Arrivals.ofList, List.take_nil, List.flatten_nil, List.append_nil]
  rw [readAll, hall, readFrames_congr hwait]
  exact readFrames_of_aligned hframes (List.append_nil _) haligned
    (length_le_length_stream frames)

/-- If a cut is read as the same frames as another cut of the same stream, it is
aligned. -/
theorem aligned_of_sameFrames {frames : List Rfc6455.Frame}
    (hframes : ∀ f ∈ frames, Readable f) {segs₁ segs₂ : List (List UInt8)}
    (h₁ : segs₁.flatten = stream frames) (h₂ : segs₂.flatten = stream frames)
    (h : SameFrames segs₁ segs₂) : Aligned frames segs₁ := by
  have hslow := h (fun _ => zeroGarbage) (fun _ => zeroGarbage) [] [segs₂.length]
  rw [readAll_at_once hframes h₂] at hslow
  exact alignedFrom_of_readFrames (s := ⟨[], segs₁, []⟩) hframes (le_refl _) rfl h₁ hslow

theorem SameFrames.symm {segs₁ segs₂ : List (List UInt8)} (h : SameFrames segs₁ segs₂) :
    SameFrames segs₂ segs₁ :=
  fun g₁ g₂ timing₁ timing₂ => (h g₂ g₁ timing₂ timing₁).symm

/-- **Which cuts do not matter.**  Two cuts of a stream of masked frames of fewer
than `32768` bytes each are always read as the same frames exactly when both are
cut between frames only. -/
theorem sameFrames_iff {frames : List Rfc6455.Frame} (hframes : ∀ f ∈ frames, Readable f)
    {segs₁ segs₂ : List (List UInt8)} (h₁ : segs₁.flatten = stream frames)
    (h₂ : segs₂.flatten = stream frames) :
    SameFrames segs₁ segs₂ ↔ Aligned frames segs₁ ∧ Aligned frames segs₂ := by
  constructor
  · intro h
    exact ⟨aligned_of_sameFrames hframes h₁ h₂ h, aligned_of_sameFrames hframes h₂ h₁ h.symm⟩
  · rintro ⟨haligned₁, haligned₂⟩ g₁ g₂ timing₁ timing₂
    rw [readAll_of_aligned hframes h₁ haligned₁, readAll_of_aligned hframes h₂ haligned₂]

theorem readable_maskedBinary {payload : List UInt8} (h : payload.length < 32768) :
    Readable (maskedBinary payload) := ⟨rfl, Or.inl (le_refl 2), h⟩

/-- Two frames, sent in one segment or in two. -/
theorem sameFrames_two :
    SameFrames [stream [maskedBinary [7], maskedBinary [8, 9]]]
      [stream [maskedBinary [7]], stream [maskedBinary [8, 9]]] := by
  have hframes : ∀ f ∈ [maskedBinary [7], maskedBinary [8, 9]], Readable f := by
    intro f hf
    rcases List.mem_pair.mp hf with rfl | rfl
    · exact readable_maskedBinary (by decide)
    · exact readable_maskedBinary (by decide)
  refine (sameFrames_iff hframes (by decide) (by decide)).mpr ⟨fun k => ?_, fun k => ?_⟩
  · match k with
    | 0 => exact ⟨0, rfl⟩
    | k + 1 => exact ⟨2, by simp⟩
  · match k with
    | 0 => exact ⟨0, rfl⟩
    | 1 => exact ⟨1, by decide⟩
    | k + 2 => exact ⟨2, by simp⟩

/-- **A cut inside the header matters.**  The frame is one whole segment, or its
first byte arrives alone. -/
theorem not_sameFrames_header :
    (∀ f ∈ [maskedBinary [7]], Readable f) ∧
      [[0x82], (stream [maskedBinary [7]]).drop 1].flatten = stream [maskedBinary [7]] ∧
      ¬SameFrames [[0x82], (stream [maskedBinary [7]]).drop 1] [stream [maskedBinary [7]]] := by
  have hframes : ∀ f ∈ [maskedBinary [7]], Readable f := by
    intro f hf
    rw [List.mem_singleton] at hf
    exact hf ▸ readable_maskedBinary (by decide)
  refine ⟨hframes, by decide, fun h => ?_⟩
  obtain ⟨j, hj⟩ := aligned_of_sameFrames hframes (by decide) (by decide) h 1
  match j with
  | 0 => exact absurd hj (by decide)
  | j + 1 =>
    have hone : [maskedBinary [7]].take (j + 1) = [maskedBinary [7]] := by
      rw [List.take_succ_cons, List.take_nil]
    rw [hone] at hj
    exact absurd hj (by decide)

end Networking
end MmoBackend
