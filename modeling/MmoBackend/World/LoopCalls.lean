import MmoBackend.World.Server

/-!
# The calls of the event loop

`event_loop_start` never leaves its loop.  What one round of it calls is decided by three
things: what `packet_read` returned, the state of the session, and, when it gets that
far, the value of `packet_errno`.  `roundCalls` is the list of the calls, and
`eventLoopWith_eq_calls` says that a round is these calls made one after the other.

Neither of the two calls of `event_loop_error` ends the round.  After the first one
`session_verify_packet` looks through the null pointer, which stops the server, and
after the second one the packet is routed.  So whatever has to come after an error
comes, `nothingAfterError_iff`: the loop is silent after an error exactly when it never
gets to one.
-/

namespace MmoBackend

open Communication Maps

namespace World

/-- The calls `event_loop_start` makes in its loop. -/
inductive LoopCall where
  /-- `event_loop_error`. -/
  | error (code : ℤ)
  /-- `session_verify_packet`, which looks at the opcode of the packet. -/
  | verify (received : Option Packet)
  /-- `packet_template_bad_state` and the write of its packet. -/
  | badState (packet : Packet)
  /-- `packet_handle_route` and the write of its response. -/
  | route (packet : Packet)
  deriving DecidableEq

/-- The calls for a packet whose opcode has been looked at. -/
def packetCalls (session : Session) (errno : ℤ) (packet : Packet) : List LoopCall :=
  if sessionVerifyPacket session packet then
    (if errno = 0 then [] else [.error errno]) ++ [.route packet]
  else [.badState packet]

/-- The calls of one round, in order. -/
def roundCalls (session : Session) (errno : ℤ) : Option Packet → List LoopCall
  | none => [.error badPacket, .verify none]
  | some packet => .verify (some packet) :: packetCalls session errno packet

section Perform

variable (route : Packet → Exec World (Option ServerPacket)) (s fd : ℕ)

/-- What a call does, over the way packets are routed.  What `session_verify_packet` returns has
been taken into account already. -/
def performCall : LoopCall → Exec World Unit
  | .error code => eventLoopError fd code
  | .verify received => do
    let _ ← Exec.need received
    pure ()
  | .badState packet => packetWrite fd (.badState packet.id)
  | .route packet => do
    let response ← route packet
    respond s response

/-- The part of a round for valid packets is its calls. -/
theorem handlePacketWith_eq_calls (packet : Packet) (w : World) :
    handlePacketWith route packet s fd w
      = Exec.forEach ((if w.packetErrno = 0 then [] else [.error w.packetErrno]) ++ [.route packet])
          (performCall route s fd) w := by
  by_cases herrno : w.packetErrno = 0
  · have hreport : reportErrno fd w = .ok ((), w) := by
      show (if w.packetErrno = 0 then pure () else eventLoopError fd w.packetErrno :
        Exec World Unit) w = _
      rw [if_pos herrno]
      rfl
    rw [handlePacketWith, Exec.bind_of_ok hreport, if_pos herrno, List.nil_append,
      Exec.forEach_singleton]
    rfl
  · have hreport : reportErrno fd w = eventLoopError fd w.packetErrno w := by
      show (if w.packetErrno = 0 then pure () else eventLoopError fd w.packetErrno :
        Exec World Unit) w = _
      rw [if_neg herrno]
    rw [if_neg herrno, List.singleton_append, Exec.forEach_cons, Exec.forEach_singleton]
    cases herror : eventLoopError fd w.packetErrno w with
    | error e => rw [handlePacketWith, Exec.bind_of_error (hreport.trans herror),
        Exec.bind_of_error (x := performCall route s fd (.error w.packetErrno)) herror]
    | ok r =>
      obtain ⟨⟨⟩, t⟩ := r
      rw [handlePacketWith, Exec.bind_of_ok (hreport.trans herror),
        Exec.bind_of_ok (x := performCall route s fd (.error w.packetErrno)) herror]
      rfl

/-- **A round is its calls**, one after the other. -/
theorem eventLoopWith_eq_calls {w : World} {session : Session} (received : Option Packet)
    (hsession : w.sessions.get s = some session) :
    eventLoopWith route s received w
      = Exec.forEach (roundCalls session w.packetErrno received)
          (performCall route s session.fd) w := by
  have hderef : derefSession s w = .ok (session, w) := derefSession_eq_ok.mpr ⟨hsession, rfl⟩
  rw [eventLoopWith, Exec.bind_of_ok hderef]
  cases received with
  | none =>
    rw [roundCalls, Exec.forEach_cons, Exec.forEach_singleton]
    rfl
  | some packet =>
    rw [reportBadPacket,
      Exec.bind_of_ok (show (pure () : Exec World Unit) w = .ok ((), w) from rfl),
      Exec.need_some_bind, roundCalls, Exec.forEach_cons,
      Exec.bind_of_ok (show performCall route s session.fd (.verify (some packet)) w
        = .ok ((), w) from rfl), packetCalls]
    split
    · exact handlePacketWith_eq_calls route s session.fd packet w
    · rw [Exec.forEach_singleton]
      rfl

end Perform

/-! ## Rounds -/

/-- What decides about the calls of a round. -/
structure Round where
  /-- What `packet_read` returned. -/
  received : Option Packet
  /-- The session at that time. -/
  session : Session
  /-- `packet_errno` at the time it is looked at. -/
  errno : ℤ

/-- The calls of a round. -/
def Round.calls (r : Round) : List LoopCall := roundCalls r.session r.errno r.received

/-- The calls of the loop.  A round in which an absent packet is looked at is the last
one. -/
def loopCalls : List Round → List LoopCall
  | [] => []
  | r :: rounds => r.calls ++ if r.received = none then [] else loopCalls rounds

/-- The calls that look at a packet. -/
def LoopCall.OnPacket : LoopCall → Prop
  | .verify _ | .route _ => True
  | .error _ | .badState _ => False

/-- **Nothing runs after an error**: behind a call of `event_loop_error` no packet is
looked at, present or absent, and none is routed. -/
def NothingAfterError (calls : List LoopCall) : Prop :=
  ∀ before code after, calls = before ++ .error code :: after → ∀ c ∈ after, ¬c.OnPacket

/-- A round without an error: a packet was read, and `packet_errno` is zero if the state
of the session allows the packet. -/
def Round.Clean (r : Round) : Prop :=
  ∃ packet, r.received = some packet ∧
    (sessionVerifyPacket r.session packet = true → r.errno = 0)

/-- A clean round reports no error. -/
theorem Round.Clean.error_notMem {r : Round} (h : r.Clean) (code : ℤ) :
    LoopCall.error code ∉ r.calls := by
  obtain ⟨packet, hreceived, herrno⟩ := h
  rw [Round.calls, hreceived, roundCalls, packetCalls]
  split
  · rename_i hverify
    rw [if_pos (herrno hverify)]
    simp
  · simp

/-- Any other round goes on after an error. -/
theorem Round.exists_error {r : Round} (h : ¬r.Clean) :
    ∃ before code after, r.calls = before ++ .error code :: after ∧ ∃ c ∈ after, c.OnPacket := by
  cases hreceived : r.received with
  | none =>
    refine ⟨[], badPacket, [.verify none], ?_, .verify none, List.mem_singleton_self _, trivial⟩
    rw [Round.calls, hreceived]
    rfl
  | some packet =>
    have hbad : sessionVerifyPacket r.session packet = true ∧ r.errno ≠ 0 := by
      by_contra hgood
      refine h ⟨packet, hreceived, fun hverify => ?_⟩
      by_contra herrno
      exact hgood ⟨hverify, herrno⟩
    refine ⟨[.verify (some packet)], r.errno, [.route packet], ?_, .route packet,
      List.mem_singleton_self _, trivial⟩
    rw [Round.calls, hreceived, roundCalls, packetCalls, if_pos hbad.1, if_neg hbad.2]
    rfl

theorem loopCalls_cons_of_clean {r : Round} (h : r.Clean) (rounds : List Round) :
    loopCalls (r :: rounds) = r.calls ++ loopCalls rounds := by
  obtain ⟨packet, hreceived, -⟩ := h
  rw [loopCalls, if_neg (by rw [hreceived]; exact Option.some_ne_none packet)]

/-- Clean rounds report no error. -/
theorem error_notMem_loopCalls {rounds : List Round} (h : ∀ r ∈ rounds, r.Clean) (code : ℤ) :
    LoopCall.error code ∉ loopCalls rounds := by
  induction rounds with
  | nil => exact List.not_mem_nil
  | cons r rounds ih =>
    have hr := h r List.mem_cons_self
    rw [loopCalls_cons_of_clean hr, List.mem_append, not_or]
    exact ⟨hr.error_notMem code, ih fun r' hr' => h r' (List.mem_cons_of_mem r hr')⟩

/-- The first round that is not clean goes on after an error. -/
theorem exists_error_loopCalls {rounds : List Round} (h : ∃ r ∈ rounds, ¬r.Clean) :
    ∃ before code after, loopCalls rounds = before ++ .error code :: after ∧
      ∃ c ∈ after, c.OnPacket := by
  induction rounds with
  | nil =>
    obtain ⟨r, hr, -⟩ := h
    exact absurd hr List.not_mem_nil
  | cons r rounds ih =>
    by_cases hr : r.Clean
    · obtain ⟨r', hmem, hr'⟩ := h
      have hrest : r' ∈ rounds := by
        rcases List.mem_cons.mp hmem with rfl | hrest
        · exact absurd hr hr'
        · exact hrest
      obtain ⟨before, code, after, hcalls, hafter⟩ := ih ⟨r', hrest, hr'⟩
      refine ⟨r.calls ++ before, code, after, ?_, hafter⟩
      rw [loopCalls_cons_of_clean hr, hcalls, List.append_assoc]
    · obtain ⟨before, code, after, hcalls, c, hc, hon⟩ := Round.exists_error hr
      refine ⟨before, code, after ++ if r.received = none then [] else loopCalls rounds, ?_, c,
        List.mem_append_left _ hc, hon⟩
      rw [loopCalls, hcalls, List.append_assoc, List.cons_append]

/-- **When nothing runs after an error.**  For every sequence of rounds, with any results
of `packet_read` and any values of `packet_errno`: exactly when no round reports an error
at all. -/
theorem nothingAfterError_iff (rounds : List Round) :
    NothingAfterError (loopCalls rounds) ↔ ∀ r ∈ rounds, r.Clean := by
  constructor
  · intro hnothing r hr
    by_contra hbad
    obtain ⟨before, code, after, hcalls, c, hc, hon⟩ := exists_error_loopCalls ⟨r, hr, hbad⟩
    exact hnothing before code after hcalls c hc hon
  · intro hclean before code after hcalls
    refine absurd ?_ (error_notMem_loopCalls hclean code)
    rw [hcalls]
    exact List.mem_append_right before List.mem_cons_self

/-- The first round of a new session, in which `packet_read` returns null. -/
def nullRound : Round := ⟨none, ⟨3, .disabled, none⟩, 0⟩

/-- **After an error an absent packet is looked at.** -/
theorem not_nothingAfterError_null : ¬NothingAfterError (loopCalls [nullRound]) := by
  intro h
  exact h [] badPacket [.verify none] rfl (.verify none) (List.mem_singleton_self _) trivial

end World
end MmoBackend
