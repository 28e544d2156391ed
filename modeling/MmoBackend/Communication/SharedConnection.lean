import Mathlib.Data.List.Perm.Basic
import MmoBackend.Communication.Packet
import MmoBackend.Library.Trace

/-!
# Several threads writing to one connection

A session writes to its own socket, and so does every other player on the same map
whose move is broadcast.  Nothing reserves the connection for the length of a
frame: `packet_write` makes two or three separate `write()` calls, and between
them any other thread can make its own.

The state of the system is the list of the calls of `packet_write` that are
running, each with the number of its buffers that have been written, and the bytes
that have reached the socket.  A thread runs one call at a time.
`whole_of_exclusive` is what would be needed for the stream to consist of whole
frames: that no thread writes while another is in the middle of a frame.
`not_whole_interleaved` is what happens without it.
-/

namespace MmoBackend
namespace Communication

open Networking

variable {T : Type}

/-- A call of `packet_write` that is running: its thread, its packet with the
content of its freshly allocated frame, and how many of its buffers are written. -/
structure RunningCall (T : Type) where
  thread : T
  packet : WSFrame × Packet
  written : ℕ
  deriving DecidableEq

namespace RunningCall

/-- The buffers of the call. -/
def buffers (call : RunningCall T) : List (List UInt8) :=
  packetWrite call.packet.1 call.packet.2

/-- What the call has written so far. -/
def sent (call : RunningCall T) : List UInt8 := (call.buffers.take call.written).flatten

/-- The call after its next `write()`; it returns after the last one. -/
def advance (call : RunningCall T) : List (RunningCall T) :=
  if call.written + 1 < call.buffers.length then [{ call with written := call.written + 1 }]
  else []

end RunningCall

/-- A connection several threads write to. -/
structure SharedConnection (T : Type) where
  /-- The calls of `packet_write` that are running. -/
  running : List (RunningCall T)
  /-- The packets of all calls made so far. -/
  calls : List (WSFrame × Packet)
  /-- What has reached the socket. -/
  bytes : List UInt8

namespace SharedConnection

/-- Nothing has been written yet. -/
def init : SharedConnection T := ⟨[], [], []⟩

/-- What a thread does next. -/
inductive Action (T : Type) where
  /-- It calls `packet_write`. -/
  | call (thread : T) (packet : WSFrame × Packet)
  /-- It makes the next `write()` of its call. -/
  | write (thread : T)

/-- The steps of the threads, in any order. -/
inductive Step : SharedConnection T → Action T → SharedConnection T → Prop
  | call {s : SharedConnection T} (thread : T) (packet : WSFrame × Packet) :
      (∀ c ∈ s.running, c.thread ≠ thread) →
      Step s (.call thread packet)
        { s with running := ⟨thread, packet, 0⟩ :: s.running, calls := s.calls ++ [packet] }
  | write {s : SharedConnection T} {before after : List (RunningCall T)} {c : RunningCall T}
      {buf : List UInt8} :
      s.running = before ++ c :: after → c.buffers[c.written]? = some buf →
      Step s (.write c.thread)
        { s with running := before ++ (c.advance ++ after), bytes := s.bytes ++ buf }

/-- The bytes are whole frames: those of the packets that were written, in some
order. -/
def Whole (s : SharedConnection T) : Prop :=
  ∃ order : List (WSFrame × Packet), order.Perm s.calls ∧
    s.bytes = order.flatMap fun p => frameBytes (packetFrame p.1 p.2)

/-- A thread writes only while no other thread is in the middle of a frame. -/
def Exclusive (s : SharedConnection T) : Action T → Prop
  | .call _ _ => True
  | .write thread => ∀ c ∈ s.running, c.thread ≠ thread → c.written = 0

instance [DecidableEq T] (s : SharedConnection T) : ∀ a, Decidable (Exclusive s a)
  | .call _ _ => inferInstanceAs (Decidable True)
  | .write thread =>
    inferInstanceAs (Decidable (∀ c ∈ s.running, c.thread ≠ thread → c.written = 0))

/-! ## The invariant

With exclusive frames the bytes are whole frames followed by what the running
calls have sent, and at most one of these has sent anything. -/

/-- The invariant of the exclusive runs. -/
structure Inv (s : SharedConnection T) (order : List (WSFrame × Packet)) : Prop where
  calls : (order ++ s.running.map RunningCall.packet).Perm s.calls
  bytes : s.bytes = (order.flatMap fun p => frameBytes (packetFrame p.1 p.2)) ++
    s.running.flatMap RunningCall.sent
  threads : (s.running.map RunningCall.thread).Nodup

theorem sent_of_written_eq_zero {l : List (RunningCall T)} (h : ∀ c ∈ l, c.written = 0) :
    l.flatMap RunningCall.sent = [] := by
  rw [List.flatMap_eq_nil_iff]
  intro c hc
  rw [RunningCall.sent, h c hc, List.take_zero, List.flatten_nil]

theorem inv_init : Inv (init : SharedConnection T) [] :=
  ⟨List.Perm.refl _, rfl, List.nodup_nil⟩

/-- Beginning a call sends nothing. -/
theorem Inv.call {s : SharedConnection T} {order : List (WSFrame × Packet)} (hs : Inv s order)
    {thread : T} {packet : WSFrame × Packet} (hfree : ∀ c ∈ s.running, c.thread ≠ thread) :
    Inv { s with running := ⟨thread, packet, 0⟩ :: s.running, calls := s.calls ++ [packet] }
      order := by
  refine ⟨?_, ?_, ?_⟩
  · rw [List.map_cons]
    have hmid : (order ++ packet :: s.running.map RunningCall.packet).Perm
        (packet :: (order ++ s.running.map RunningCall.packet)) := List.perm_middle
    exact hmid.trans ((hs.calls.cons packet).trans (List.perm_append_singleton packet _).symm)
  · have hsent : RunningCall.sent ⟨thread, packet, 0⟩ = [] := rfl
    rw [List.flatMap_cons, hsent, List.nil_append]
    exact hs.bytes
  · rw [List.map_cons, List.nodup_cons]
    refine ⟨fun hmem => ?_, hs.threads⟩
    obtain ⟨c, hc, hthread⟩ := List.mem_map.mp hmem
    exact hfree c hc hthread

/-- A `write()` that is not the last leaves the call running. -/
theorem sent_succ {c : RunningCall T} {buf : List UInt8}
    (hbuf : c.buffers[c.written]? = some buf) :
    RunningCall.sent { c with written := c.written + 1 } = c.sent ++ buf := by
  have htake : c.buffers.take (c.written + 1) = c.buffers.take c.written ++ [buf] := by
    rw [List.take_add_one, hbuf, Option.toList_some]
  show (c.buffers.take (c.written + 1)).flatten = _
  rw [htake, List.flatten_append, List.flatten_singleton, RunningCall.sent]

/-- **An exclusive `write()` keeps the invariant.** -/
theorem Inv.write {s : SharedConnection T} {order : List (WSFrame × Packet)} (hs : Inv s order)
    {before after : List (RunningCall T)} {c : RunningCall T} {buf : List UInt8}
    (hrunning : s.running = before ++ c :: after) (hbuf : c.buffers[c.written]? = some buf)
    (hexcl : ∀ c' ∈ s.running, c'.thread ≠ c.thread → c'.written = 0) :
    ∃ order', Inv { s with running := before ++ (c.advance ++ after), bytes := s.bytes ++ buf }
      order' := by
  obtain ⟨hcalls, hbytes, hthreads⟩ := hs
  rw [hrunning] at hcalls hbytes hthreads hexcl
  rw [List.map_append, List.map_cons] at hcalls hthreads
  -- the other calls belong to other threads, so they have sent nothing
  have hbefore : before.flatMap RunningCall.sent = [] := by
    refine sent_of_written_eq_zero fun c' hc' => hexcl c' (List.mem_append_left _ hc') ?_
    intro heq
    exact (List.nodup_append.mp hthreads).2.2 _ (List.mem_map_of_mem hc') _
      List.mem_cons_self heq
  have hafter : after.flatMap RunningCall.sent = [] := by
    refine sent_of_written_eq_zero fun c' hc' =>
      hexcl c' (List.mem_append_right _ (List.mem_cons_of_mem c hc')) ?_
    intro heq
    have hnot := (List.nodup_cons.mp (List.nodup_append.mp hthreads).2.1).1
    exact hnot (heq ▸ List.mem_map_of_mem hc')
  rw [List.flatMap_append, List.flatMap_cons, hbefore, hafter, List.nil_append,
    List.append_nil] at hbytes
  by_cases hmore : c.written + 1 < c.buffers.length
  · -- the call goes on
    have hadv : c.advance = [{ c with written := c.written + 1 }] := by
      rw [RunningCall.advance, if_pos hmore]
    refine ⟨order, ?_, ?_, ?_⟩
    · rw [hadv, List.map_append, List.singleton_append, List.map_cons]
      exact hcalls
    · rw [hadv, List.flatMap_append, List.singleton_append, List.flatMap_cons, hbefore, hafter,
        List.nil_append, List.append_nil, sent_succ hbuf, hbytes, List.append_assoc]
    · rw [hadv, List.map_append, List.singleton_append, List.map_cons]
      exact hthreads
  · -- the frame is complete
    have hadv : c.advance = [] := by
      rw [RunningCall.advance, if_neg hmore]
    have hframe : c.sent ++ buf = frameBytes (packetFrame c.packet.1 c.packet.2) := by
      rw [← sent_succ hbuf]
      show (c.buffers.take (c.written + 1)).flatten = _
      rw [List.take_of_length_le (not_lt.mp hmore)]
      rfl
    refine ⟨order ++ [c.packet], ?_, ?_, ?_⟩
    · rw [hadv, List.nil_append, List.map_append, List.append_assoc, List.singleton_append]
      exact (List.perm_middle.symm.append_left order).trans hcalls
    · rw [hadv, List.nil_append, List.flatMap_append, List.flatMap_append, hbefore, hafter,
        List.append_nil, List.append_nil, List.flatMap_singleton, ← hframe, hbytes,
        List.append_assoc]
    · rw [hadv, List.nil_append, List.map_append]
      exact hthreads.sublist ((List.sublist_cons_self _ _).append_left _)

/-- **Exclusive frames arrive whole.**  In every run in which no thread writes while
another is in the middle of a frame, whenever all calls have returned the bytes
are the frames of their packets, in some order. -/
theorem whole_of_exclusive {l : List (Action T × SharedConnection T)} {s : SharedConnection T}
    (h : Trace (Guarded Step Exclusive) init l s) (hidle : s.running = []) : s.Whole := by
  have hinv : ∃ order, Inv s order := by
    refine h.invariant (I := fun s => ∃ order, Inv s order) ?_ ⟨[], inv_init⟩
    rintro t i u ⟨order, ht⟩ ⟨hstep, hexcl⟩
    cases hstep with
    | call thread packet hfree => exact ⟨order, ht.call hfree⟩
    | write hrunning hbuf => exact ht.write hrunning hbuf hexcl
  obtain ⟨order, hcalls, hbytes, -⟩ := hinv
  rw [hidle, List.map_nil, List.append_nil] at hcalls
  rw [hidle, List.flatMap_nil, List.append_nil] at hbytes
  exact ⟨order, hcalls, hbytes⟩

/-- The reply to a login, sent by one of two threads, with `n` of its buffers
written. -/
def replyCall (thread : Bool) (n : ℕ) : RunningCall Bool :=
  ⟨thread, (WSFrame.zero, successPacket), n⟩

/-- Two replies, one after the other: the stream is whole. -/
theorem whole_turns :
    Whole (T := Bool) ⟨[], [(WSFrame.zero, successPacket), (WSFrame.zero, successPacket)],
      [0x82, 9, 3, 1, 0, 0, 0, 0, 0, 0, 0, 0x82, 9, 3, 1, 0, 0, 0, 0, 0, 0, 0]⟩ := by
  have h₀ : Trace (Guarded Step Exclusive) (init : SharedConnection Bool) [] init := Trace.nil
  have h₁ := h₀.snoc ⟨Step.call true (WSFrame.zero, successPacket) (by decide), trivial⟩
  have h₂ := h₁.snoc ⟨@Step.write Bool _ [] [] (replyCall true 0) [0x82, 9] rfl (by decide),
    by decide⟩
  have h₃ := h₂.snoc ⟨@Step.write Bool _ [] [] (replyCall true 1)
    [3, 1, 0, 0, 0, 0, 0, 0, 0] rfl (by decide), by decide⟩
  have h₄ := h₃.snoc ⟨Step.call false (WSFrame.zero, successPacket) (by decide), trivial⟩
  have h₅ := h₄.snoc ⟨@Step.write Bool _ [] [] (replyCall false 0) [0x82, 9] rfl (by decide),
    by decide⟩
  have h₆ := h₅.snoc ⟨@Step.write Bool _ [] [] (replyCall false 1)
    [3, 1, 0, 0, 0, 0, 0, 0, 0] rfl (by decide), by decide⟩
  exact whole_of_exclusive h₆ rfl

/-- **Two replies at once can be torn.**  Both headers are written before either
body. -/
theorem not_whole_interleaved :
    ∃ l s, Trace Step (init : SharedConnection Bool) l s ∧ s.running = [] ∧ ¬s.Whole := by
  have h₀ : Trace Step (init : SharedConnection Bool) [] init := Trace.nil
  have h₁ := h₀.snoc (Step.call true (WSFrame.zero, successPacket) (by decide))
  have h₂ := h₁.snoc (Step.call false (WSFrame.zero, successPacket) (by decide))
  have h₃ := h₂.snoc (@Step.write Bool _ [replyCall false 0] [] (replyCall true 0) [0x82, 9]
    rfl (by decide))
  have h₄ := h₃.snoc (@Step.write Bool _ [] [replyCall true 1] (replyCall false 0) [0x82, 9]
    rfl (by decide))
  have h₅ := h₄.snoc (@Step.write Bool _ [replyCall false 1] [] (replyCall true 1)
    [3, 1, 0, 0, 0, 0, 0, 0, 0] rfl (by decide))
  have h₆ := h₅.snoc (@Step.write Bool _ [] [] (replyCall false 1)
    [3, 1, 0, 0, 0, 0, 0, 0, 0] rfl (by decide))
  refine ⟨_, ⟨[], List.replicate 2 (WSFrame.zero, successPacket), [0x82, 9, 0x82, 9,
    3, 1, 0, 0, 0, 0, 0, 0, 0, 3, 1, 0, 0, 0, 0, 0, 0, 0]⟩, h₆, rfl, ?_⟩
  rintro ⟨order, hperm, hbytes⟩
  rw [List.perm_replicate.mp hperm] at hbytes
  exact absurd hbytes (by decide)

end SharedConnection

end Communication
end MmoBackend
