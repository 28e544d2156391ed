import MmoBackend.Communication.RequestTester
import MmoBackend.World.HandlerReads

/-!
# A move from the client to the server

The client of the repository and the server were written apart.  `Move` writes each of its two
coordinates with `to_bytes`, the most significant byte first, and `packet_handle_move` loads
each of them from memory as it is, which on a little-endian machine takes the least significant
byte first.  The positions of the eight bytes agree, their order does not.

So the server is asked to move to other coordinates than the client was given, unless each of
the two is the same when its four bytes are read from behind.
-/

namespace MmoBackend

open Bytes Communication Exec Maps Networking Player

namespace World

/-! ## The arguments of `player_move` -/

section Handler

variable (move : ℕ → ℤ → ℤ → MoveArgs → Exec World Bool) (packet : Packet) (s : ℕ)

/-- `packet_handle_move` from the use of the session on, over the `player_move` it calls. -/
def callPlayerMove (x y : ℤ) : Exec World (Option ServerPacket) := do
  let session ← derefSession s
  let p ← Exec.need session.player
  let moved ← move p x y MoveArgs.zero
  if moved then pure none else pure (some (.failure packet.id))

/-- `packet_handle_move`, over the `player_move` it calls. -/
def packetHandleMoveWith : Exec World (Option ServerPacket) := do
  let x ← Exec.need (intAt packet.data 0)
  let y ← Exec.need (intAt packet.data 4)
  callPlayerMove move packet s x y

theorem packetHandleMove_eq_with (defs : MapDefs) (fuel : ℕ) :
    packetHandleMove defs fuel packet s
      = packetHandleMoveWith (playerMove defs fuel) packet s := rfl

end Handler

/-- The handler calls `player_move` with these coordinates, whatever that does with them. -/
def CallsMove (packet : Packet) (x y : ℤ) : Prop :=
  ∀ (move : ℕ → ℤ → ℤ → MoveArgs → Exec World Bool) (s : ℕ),
    packetHandleMoveWith move packet s = callPlayerMove move packet s x y

/-- The call has the two numbers in the data, and no others. -/
theorem callsMove_iff {packet : Packet} {x y x' y' : ℤ} (hx : intAt packet.data 0 = some x')
    (hy : intAt packet.data 4 = some y') : CallsMove packet x y ↔ x' = x ∧ y' = y := by
  have hread : ∀ move s, packetHandleMoveWith move packet s
      = callPlayerMove move packet s x' y' := by
    intro move s
    funext w
    rw [packetHandleMoveWith, hx, need_some_bind, hy, need_some_bind]
  constructor
  · intro h
    -- a move that goes to one place only
    let move : ℕ → ℤ → ℤ → MoveArgs → Exec World Bool := fun _ a b _ => pure (a = x ∧ b = y)
    have hcall : ∀ a b, callPlayerMove move packet 0 a b (immobile 0 0)
        = .ok (if a = x ∧ b = y then none else some (.failure packet.id), immobile 0 0) := by
      intro a b
      have hsession : derefSession 0 (immobile 0 0)
          = .ok (⟨0, .roaming, some 0⟩, immobile 0 0) := rfl
      have hmove : move 0 a b MoveArgs.zero (immobile 0 0)
          = .ok (decide (a = x ∧ b = y), immobile 0 0) := rfl
      rw [callPlayerMove, bind_of_ok hsession, need_some_bind, bind_of_ok hmove]
      by_cases hab : a = x ∧ b = y
      · simp only [hab, and_self, decide_true, if_true]
        rfl
      · simp only [hab, decide_false, if_false, Bool.false_eq_true]
        rfl
    have hsame := congrFun ((hread move 0).symm.trans (h move 0)) (immobile 0 0)
    have hthere : x = x ∧ y = y := ⟨rfl, rfl⟩
    rw [hcall x' y', hcall x y, if_pos hthere, Except.ok.injEq, Prod.mk.injEq] at hsame
    by_contra hne
    rw [if_neg hne] at hsame
    exact Option.some_ne_none _ hsame.1
  · rintro ⟨rfl, rfl⟩
    exact hread

/-! ## Both sides -/

/-- A coordinate that is written in the network order and loaded as it is. -/
theorem bytesInt_beBytes_iff {n : ℕ} (h : n < 2 ^ 31) :
    bytesInt (beBytes 4 n) = n ↔ byteSwap 4 n = n := by
  have hlt := byteSwap_lt 4 n
  rw [bytesInt, leNat_beBytes, BitVec.toInt_ofNat', Int.bmod_def]
  split <;> omega

/-- The coordinates in the packet that is read from the bytes of a move. -/
theorem intAt_sentMove {x y : ℕ} {frame : WSFrame} {packet : Packet}
    (h : TakenFrom frame (5 :: (beBytes 8 8 ++ (beBytes 4 x ++ beBytes 4 y))) packet) :
    intAt packet.data 0 = some (bytesInt (beBytes 4 x)) ∧
      intAt packet.data 4 = some (bytesInt (beBytes 4 y)) := by
  have hdata : packet.data = beBytes 4 x ++ (beBytes 4 y ++ [0]) := by
    have hlen : (5 :: beBytes 8 8 : List UInt8).length = packetSize := rfl
    rw [h.body, ← List.cons_append, List.drop_left' hlen, List.append_assoc]
  constructor
  · rw [hdata, intAt, if_pos (by simp), List.drop_zero, List.take_left' (length_beBytes 4 x)]
  · rw [hdata, intAt, if_pos (by simp), List.drop_left' (length_beBytes 4 x),
      List.take_left' (length_beBytes 4 y)]

/-- **When client and server agree on a move.**  For all coordinates of an `int` that are not
negative, and for every way in which the message of the client arrives, in one masked frame:
the server reads it and calls `player_move` with the same coordinates exactly if each of them
is the same when its four bytes are reversed.  The handler of the server is the one over
`player_move`. -/
theorem moveRequest_agrees_iff {x y : ℕ} (hx : x < 2 ^ 31) (hy : y < 2 ^ 31) :
    (∀ defs fuel packet s, packetHandleMove defs fuel packet s
        = packetHandleMoveWith (playerMove defs fuel) packet s) ∧
      ∃ payload, sentMove x y = some payload ∧
        ∀ (g : Garbage) (key : Vector UInt8 4) (rest : List UInt8) (s : Arrivals UInt8),
          s.ready = Rfc6455.encode (maskedFrame key payload) ++ rest →
          ((∃ packet t, packetRead g s = .ok (some packet, t) ∧ CallsMove packet x y) ↔
            byteSwap 4 x = x ∧ byteSwap 4 y = y) := by
  refine ⟨fun defs fuel packet s => packetHandleMove_eq_with packet s defs fuel, _,
    sentMove_eq hx hy, fun g key rest s hs => ?_⟩
  obtain ⟨frame, packet, t, -, hread, htaken, -⟩ :=
    packetRead_maskedFrame g key (by simp [packetSize]) (by simp) hs
  obtain ⟨hx', hy'⟩ := intAt_sentMove htaken
  rw [← bytesInt_beBytes_iff hx, ← bytesInt_beBytes_iff hy, ← callsMove_iff hx' hy']
  constructor
  · rintro ⟨packet', t', hread', hcalls⟩
    obtain ⟨hsame, -⟩ := Prod.mk.inj (Except.ok.inj (hread.symm.trans hread'))
    rwa [Option.some.inj hsame]
  · exact fun hcalls => ⟨packet, t, hread, hcalls⟩

/-- They agree on a move to `(16777217, 33554434)`, whose bytes are the same from behind. -/
theorem moveRequest_agrees_iff_mirrored : ∃ payload packet t,
    sentMove 16777217 33554434 = some payload ∧
      packetRead zeroGarbage (onTheSocket payload) = .ok (some packet, t) ∧
      CallsMove packet 16777217 33554434 := by
  have hx : 16777217 < 2 ^ 31 := by norm_num
  have hy : 33554434 < 2 ^ 31 := by norm_num
  obtain ⟨-, payload, hsent, hagrees⟩ := moveRequest_agrees_iff hx hy
  obtain ⟨packet, t, hread, hcalls⟩ := (hagrees zeroGarbage (Vector.replicate 4 7) []
    (onTheSocket payload) (List.append_nil _).symm).mpr ⟨by decide, by decide⟩
  exact ⟨payload, packet, t, hsent, hread, hcalls⟩

/-- **A move to `(3, 4)`** is read as one to `(50331648, 67108864)`. -/
theorem moveRequest_disagrees : ∃ payload packet t, sentMove 3 4 = some payload ∧
    packetRead zeroGarbage (onTheSocket payload) = .ok (some packet, t) ∧
      CallsMove packet 50331648 67108864 ∧ ¬CallsMove packet 3 4 := by
  have hx : 3 < 2 ^ 31 := by norm_num
  have hy : 4 < 2 ^ 31 := by norm_num
  have hsocket : (onTheSocket (5 :: (beBytes 8 8 ++ (beBytes 4 3 ++ beBytes 4 4)))).ready
      = Rfc6455.encode (maskedFrame (Vector.replicate 4 7)
        (5 :: (beBytes 8 8 ++ (beBytes 4 3 ++ beBytes 4 4)))) ++ [] := (List.append_nil _).symm
  obtain ⟨frame, packet, t, -, hread, htaken, -⟩ :=
    packetRead_maskedFrame zeroGarbage _ (by simp [packetSize]) (by simp) hsocket
  obtain ⟨hx', hy'⟩ := intAt_sentMove htaken
  have hx'' : bytesInt (beBytes 4 3) = 50331648 := by decide
  have hy'' : bytesInt (beBytes 4 4) = 67108864 := by decide
  refine ⟨_, packet, t, sentMove_eq hx hy, hread, (callsMove_iff hx' hy').mpr ⟨hx'', hy''⟩, ?_⟩
  rw [callsMove_iff hx' hy', hx'']
  exact fun h => absurd h.1 (by decide)

end World
end MmoBackend
