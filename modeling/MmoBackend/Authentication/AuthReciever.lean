import Mathlib.Data.List.TakeWhile
import MmoBackend.Authentication.AwaitingConnections
import MmoBackend.Library.Arrivals

/-!
# `auth-reciever.c`: codes from the auth server

The auth server sends, for every client it lets in, a code of 255 characters and the id of
the account, one after the other on one connection.  The id has no fixed length, and
nothing marks its end.  The receiver reads 255 bytes, waits, reads up to 21 bytes, and
hands the two buffers to the table.  So an id ends for it where the connection has nothing
more to read, or after 21 bytes.

Whether it gets the messages right depends on where the segments end in which they
arrive.  `Framed` is the condition for one message: no segment ends inside the code or
inside the id, and one ends behind an id that does not fill its buffer.
`startAuthReciever_eq_iff` says that this is exactly what is needed, for ids without a
zero byte.
-/

namespace MmoBackend
namespace Authentication

open Arrivals

/-- `TOKEN_SIZE`. -/
def tokenSize : ℕ := 255

/-- `ID_SIZE`. -/
def idSize : ℕ := 21

/-! ## The receiver -/

/-- The string in a buffer that was cleared before something was read into it. -/
def bufferString (got : List UInt8) : CString := got.takeWhile fun b => b ≠ 0

/-- One round of the loop of `start_auth_reciever`: what is handed to the table.
`read_socket` is `Arrivals.readLoop`, and the process exits when it returns zero. -/
def receiveOne (s : Arrivals UInt8) : Option ((CString × CString) × Arrivals UInt8) := do
  let s ← s.wait
  let token := s.readLoop tokenSize
  if token.1 = [] then none
  else do
    let s ← token.2.wait
    let id := s.readLoop idSize
    if id.1 = [] then none else some ((bufferString token.1, bufferString id.1), id.2)

/-- What one round reads, apart from a round that never ends. -/
theorem receiveOne_eq_some {s t : Arrivals UInt8} {pair : CString × CString}
    (h : receiveOne s = some (pair, t)) :
    ∃ s₁ s₂, s.wait = some s₁ ∧ (s₁.readLoop tokenSize).2.wait = some s₂ ∧
      pair = (bufferString (s₁.readLoop tokenSize).1, bufferString (s₂.readLoop idSize).1) ∧
      t = (s₂.readLoop idSize).2 := by
  obtain ⟨s₁, hs₁, h⟩ := Option.bind_eq_some_iff.mp h
  rw [Option.ite_none_left_eq_some] at h
  obtain ⟨s₂, hs₂, h⟩ := Option.bind_eq_some_iff.mp h.2
  rw [Option.ite_none_left_eq_some, Option.some.injEq, Prod.mk.injEq] at h
  exact ⟨s₁, s₂, hs₁, hs₂, h.2.1.symm, h.2.2.symm⟩

theorem length_receiveOne_lt {s t : Arrivals UInt8} {pair : CString × CString}
    (h : receiveOne s = some (pair, t)) : t.all.length < s.all.length := by
  obtain ⟨s₁, s₂, hs₁, hs₂, -, rfl⟩ := receiveOne_eq_some h
  have hall₁ : s₁.all = s.all := (later_wait hs₁).append_all
  have htoken := (later_readLoop tokenSize s₁).append_all
  have hall₂ : s₂.all = (s₁.readLoop tokenSize).2.all := (later_wait hs₂).append_all
  have hid := (later_readLoop idSize s₂).append_all
  have hne : (s₂.readLoop idSize).1 ≠ [] :=
    readLoop_ne_nil (by decide) (ready_ne_nil_of_wait hs₂)
  have hpos := List.length_pos_of_ne_nil hne
  rw [← hall₁, ← htoken, ← hall₂, ← hid, List.length_append, List.length_append]
  omega

/-- The loop of `start_auth_reciever`: the calls of `awaiting_connections_table_insert`. -/
def startAuthReciever (s : Arrivals UInt8) : List (CString × CString) :=
  match _h : receiveOne s with
  | none => []
  | some (pair, t) => pair :: startAuthReciever t
termination_by s.all.length
decreasing_by exact length_receiveOne_lt _h

theorem startAuthReciever_none {s : Arrivals UInt8} (h : receiveOne s = none) :
    startAuthReciever s = [] := by
  rw [startAuthReciever]
  split
  · rfl
  · rename_i hsome
    exact absurd (h.symm.trans hsome) (Option.some_ne_none _).symm

theorem startAuthReciever_some {s t : Arrivals UInt8} {pair : CString × CString}
    (h : receiveOne s = some (pair, t)) :
    startAuthReciever s = pair :: startAuthReciever t := by
  rw [startAuthReciever]
  split
  · rename_i hnone
    exact absurd (hnone.symm.trans h) (Option.some_ne_none _).symm
  · rename_i pair' t' hsome
    obtain ⟨rfl, rfl⟩ := Prod.mk.inj (Option.some.inj (h.symm.trans hsome))
    rfl

/-! ## The sender -/

/-- Whether a byte is one of `string.ascii_lowercase`, `string.ascii_uppercase` and
`string.digits`. -/
def isTokenChar (b : UInt8) : Bool :=
  (97 ≤ b && b ≤ 122) || (65 ≤ b && b ≤ 90) || (48 ≤ b && b ≤ 57)

/-- What `authenticate` sends. -/
structure AuthMessage where
  token : List UInt8
  id : List UInt8
  length_token : token.length = tokenSize
  token_chars : ∀ b ∈ token, isTokenChar b
  id_ne_nil : id ≠ []
  length_id : id.length ≤ idSize

namespace AuthMessage

/-- The two calls of `sendall`. -/
def bytes (m : AuthMessage) : List UInt8 := m.token ++ m.id

/-- What the table should be given. -/
def pair (m : AuthMessage) : CString × CString := (m.token, m.id)

theorem ne_zero_of_mem_token {m : AuthMessage} {b : UInt8} (h : b ∈ m.token) : b ≠ 0 := by
  rintro rfl
  exact absurd (m.token_chars 0 h) (by decide)

theorem length_bytes (m : AuthMessage) : m.bytes.length = tokenSize + m.id.length := by
  rw [bytes, List.length_append, m.length_token]

end AuthMessage

/-- What is sent on the connection. -/
def wire (messages : List AuthMessage) : List UInt8 := messages.flatMap AuthMessage.bytes

theorem wire_cons (m : AuthMessage) (messages : List AuthMessage) :
    wire (m :: messages) = m.bytes ++ wire messages := List.flatMap_cons

/-- A message starts with a character of its code. -/
theorem head_wire_ne_zero {messages : List AuthMessage} :
    ∀ b ∈ (wire messages).head?, b ≠ 0 := by
  intro b hb
  cases messages with
  | nil => exact absurd hb (by simp [wire])
  | cons m messages =>
    have hpos : 0 < m.token.length := by
      rw [m.length_token]
      decide
    obtain ⟨a, l, hcons⟩ := List.exists_cons_of_length_pos hpos
    rw [wire_cons, AuthMessage.bytes, hcons, List.cons_append, List.cons_append, List.head?_cons,
      Option.mem_some_iff] at hb
    exact AuthMessage.ne_zero_of_mem_token (m := m) (by rw [hcons, ← hb]; exact List.mem_cons_self)

/-! ## The condition -/

/-- A message arrives so that it can be told from the `rest` bytes behind it. -/
structure Framed (segments : List (List UInt8)) (m : AuthMessage) (rest : ℕ) : Prop where
  /-- No segment ends inside the code. -/
  token : ∀ r, m.id.length + rest < r → r < m.bytes.length + rest → ¬EndsBefore segments r
  /-- No segment ends inside the id. -/
  id : ∀ r, rest < r → r < m.id.length + rest → ¬EndsBefore segments r
  /-- A segment ends behind an id that is short. -/
  short : m.id.length < idSize → EndsBefore segments rest

/-- All messages of a stream arrive so. -/
def AllFramed (segments : List (List UInt8)) (messages : List AuthMessage) : Prop :=
  ∀ before m after, messages = before ++ m :: after → Framed segments m (wire after).length

/-! ## One buffer -/

section Buffer

variable {got sent rest tail : List UInt8} {n : ℕ}

theorem bufferString_of_notMem (h : 0 ∉ sent) : bufferString sent = sent := by
  refine List.takeWhile_eq_self_iff.mpr fun b hb => ?_
  rw [decide_eq_true_eq]
  rintro rfl
  exact h hb

theorem zero_notMem_bufferString : 0 ∉ bufferString got := by
  intro h
  have hzero := List.mem_takeWhile_imp h
  simp at hzero

theorem length_bufferString_le (got : List UInt8) : (bufferString got).length ≤ got.length :=
  (List.takeWhile_prefix _).length_le

/-- A buffer for `n` bytes gets `sent` from a connection on which `sent` and then `rest` was
sent and `got` has arrived. -/
theorem bufferString_take_eq_iff (hgot : got ++ tail = sent ++ rest) (hn : sent.length ≤ n)
    (hrest : sent.length < n → ∀ b ∈ rest.head?, b ≠ 0) :
    bufferString (got.take n) = sent ↔
      0 ∉ sent ∧ sent.length ≤ got.length ∧ (sent.length < n → got.length ≤ sent.length) := by
  have htake : sent.length ≤ got.length → got.take sent.length = sent := fun hle => by
    have happend : (got ++ tail).take sent.length = got.take sent.length :=
      List.take_append_of_le_length hle
    rw [← happend, hgot, List.take_left]
  constructor
  · intro heq
    have hzero : 0 ∉ sent := heq ▸ zero_notMem_bufferString
    have hle : sent.length ≤ got.length := by
      have h := length_bufferString_le (got.take n)
      rw [heq, List.length_take] at h
      omega
    refine ⟨hzero, hle, fun hshort => ?_⟩
    -- Otherwise the next byte, which is not zero, is in the buffer too.
    by_contra hlong
    obtain ⟨more, hmore⟩ : ∃ more, got = sent ++ more :=
      ⟨got.drop sent.length, by rw [← htake hle, List.length_take, Nat.min_eq_left hle,
        List.take_append_drop]⟩
    cases more with
    | nil =>
      rw [hmore, List.append_nil] at hlong
      omega
    | cons b more =>
      have hhead : rest = b :: (more ++ tail) := by
        rw [hmore, List.append_assoc] at hgot
        exact (List.append_cancel_left hgot).symm
      have hb : b ≠ 0 := hrest hshort b (by rw [hhead]; rfl)
      have hbuffer : got.take n = sent ++ b :: more.take (n - sent.length - 1) := by
        rw [hmore, List.take_append, List.take_of_length_le hn]
        obtain ⟨k, hk⟩ : ∃ k, n - sent.length = k + 1 := ⟨n - sent.length - 1, by omega⟩
        rw [hk, List.take_succ_cons, Nat.add_sub_cancel]
      have hstring : bufferString (got.take n)
          = sent ++ bufferString (b :: more.take (n - sent.length - 1)) := by
        rw [hbuffer, bufferString, List.takeWhile_append_of_pos, bufferString]
        intro c hc
        rw [decide_eq_true_eq]
        rintro rfl
        exact hzero hc
      rw [hstring, bufferString, List.takeWhile_cons_of_pos (by simpa using hb)] at heq
      exact absurd (congrArg List.length heq) (by simp)
  · rintro ⟨hzero, hle, hshort⟩
    have hbuffer : got.take n = sent := by
      rcases Nat.lt_or_ge sent.length n with hlt | hge
      · have hlength := hshort hlt
        rw [List.take_of_length_le (by omega)]
        exact (List.take_of_length_le hlength).symm.trans (htake hle)
      · rw [Nat.le_antisymm hge hn, htake hle]
    rw [hbuffer, bufferString_of_notMem hzero]

end Buffer

/-! ## One message -/

theorem allFramed_cons {segments : List (List UInt8)} {m : AuthMessage}
    {messages : List AuthMessage} :
    AllFramed segments (m :: messages) ↔
      Framed segments m (wire messages).length ∧ AllFramed segments messages := by
  constructor
  · intro h
    refine ⟨h [] m messages rfl, fun before m' after hsplit => ?_⟩
    exact h (m :: before) m' after (by rw [hsplit, List.cons_append])
  · rintro ⟨hm, h⟩ before m' after hsplit
    cases before with
    | nil =>
      obtain ⟨rfl, rfl⟩ := List.cons.inj hsplit
      exact hm
    | cons _ before =>
      rw [List.cons_append] at hsplit
      exact h before m' after (List.cons.inj hsplit).2

/-- Only the ends behind the start of a message matter. -/
theorem Framed.congr {segments segments' : List (List UInt8)} {m : AuthMessage} {rest : ℕ}
    (h : Framed segments m rest)
    (heq : ∀ r < m.bytes.length + rest, EndsBefore segments' r ↔ EndsBefore segments r) :
    Framed segments' m rest := by
  have hlength := m.length_bytes
  have hsize : 0 < tokenSize := by decide
  refine ⟨fun r hr hr' => ?_, fun r hr hr' => ?_, fun hshort => ?_⟩
  · rw [heq r hr']
    exact h.token r hr hr'
  · rw [heq r (by omega)]
    exact h.id r hr hr'
  · rw [heq rest (by omega)]
    exact h.short hshort

theorem AllFramed.congr {segments segments' : List (List UInt8)} {messages : List AuthMessage}
    (h : AllFramed segments messages)
    (heq : ∀ r < (wire messages).length, EndsBefore segments' r ↔ EndsBefore segments r) :
    AllFramed segments' messages := by
  rintro before m after rfl
  refine (h before m after rfl).congr fun r hr => heq r ?_
  rw [wire, List.flatMap_append, List.length_append, List.flatMap_cons, List.length_append]
  exact Nat.lt_of_lt_of_le hr (Nat.le_add_left _ _)

section Round

variable {s t : Arrivals UInt8} {m : AuthMessage} {messages : List AuthMessage}
  {pair : CString × CString}

/-- A round ends when there is more than a code. -/
theorem receiveOne_ne_none (h : tokenSize < s.all.length) : receiveOne s ≠ none := by
  cases hs₁ : s.wait with
  | none =>
    rw [wait_eq_none_iff.mp hs₁] at h
    exact absurd h (Nat.not_lt_zero _)
  | some s₁ =>
    have hall₁ : s₁.all = s.all := (later_wait hs₁).append_all
    have htoken := (later_readLoop tokenSize s₁).append_all
    have hle := length_readLoop_le tokenSize s₁
    have hne : (s₁.readLoop tokenSize).1 ≠ [] :=
      readLoop_ne_nil (by decide) (ready_ne_nil_of_wait hs₁)
    cases hs₂ : (s₁.readLoop tokenSize).2.wait with
    | none =>
      rw [wait_eq_none_iff.mp hs₂, List.append_nil, hall₁] at htoken
      rw [htoken] at hle
      omega
    | some s₂ =>
      have hne₂ : (s₂.readLoop idSize).1 ≠ [] :=
        readLoop_ne_nil (by decide) (ready_ne_nil_of_wait hs₂)
      simp only [receiveOne, hs₁, Option.bind_eq_bind, Option.bind_some, if_neg hne, hs₂,
        if_neg hne₂]
      exact Option.some_ne_none _

theorem tokenSize_lt_length_wire : tokenSize < (wire (m :: messages)).length := by
  have hid := List.length_pos_of_ne_nil m.id_ne_nil
  rw [wire_cons, List.length_append, m.length_bytes]
  omega

/-- What a round reads on a connection on which nothing arrives unasked. -/
theorem receiveOne_of_quiet (hs : s.timing = []) (h : receiveOne s = some (pair, t)) :
    ∃ s₁ s₂, s.wait = some s₁ ∧ s₁.timing = [] ∧
      Arrivals.wait { s₁ with ready := s₁.ready.drop tokenSize } = some s₂ ∧ s₂.timing = [] ∧
      pair = (bufferString (s₁.ready.take tokenSize), bufferString (s₂.ready.take idSize)) ∧
      t = { s₂ with ready := s₂.ready.drop idSize } := by
  obtain ⟨s₁, s₂, hs₁, hs₂, rfl, rfl⟩ := receiveOne_eq_some h
  have hquiet₁ := (quiet_wait hs hs₁).1
  rw [readLoop_of_quiet tokenSize hquiet₁] at hs₂ ⊢
  have hquiet₂ := (quiet_wait (s := { s₁ with ready := s₁.ready.drop tokenSize }) hquiet₁ hs₂).1
  rw [readLoop_of_quiet idSize hquiet₂]
  exact ⟨s₁, s₂, hs₁, hquiet₁, hs₂, hquiet₂, rfl, rfl⟩

/-- Whether a message is framed shows in what has arrived when its code and when its id is
read. -/
theorem framed_iff {s₁ s₂ : Arrivals UInt8} {rest : ℕ}
    (hends₁ : ∀ r < m.bytes.length + rest,
      EndsBefore s₁.coming r ↔ EndsBefore s.coming r)
    (hlength₁ : s₁.ready.length + s₁.coming.flatten.length = m.bytes.length + rest)
    (hready₁ : s₁.ready ≠ [])
    (hsecond : tokenSize ≤ s₁.ready.length →
      (∀ r < m.id.length + rest, EndsBefore s₂.coming r ↔ EndsBefore s₁.coming r) ∧
        s₂.ready.length + s₂.coming.flatten.length = m.id.length + rest ∧ s₂.ready ≠ []) :
    Framed s.coming m rest ↔ tokenSize ≤ s₁.ready.length ∧ m.id.length ≤ s₂.ready.length ∧
      (m.id.length < idSize → s₂.ready.length ≤ m.id.length) := by
  have hpos₁ := List.length_pos_of_ne_nil hready₁
  have hsize := m.length_bytes
  have hid : 0 < m.id.length := List.length_pos_of_ne_nil m.id_ne_nil
  have htoken : (∀ r, m.id.length + rest < r → r < m.bytes.length + rest →
      ¬EndsBefore s.coming r) ↔ s₁.coming.flatten.length ≤ m.id.length + rest := by
    have hbetween : (∀ r, m.id.length + rest < r → r < m.bytes.length + rest →
        ¬EndsBefore s₁.coming r) ↔ s₁.coming.flatten.length ≤ m.id.length + rest :=
      not_endsBefore_between_iff (by omega)
    rw [← hbetween]
    exact forall_congr' fun r => forall_congr' fun _ => forall_congr' fun hr =>
      not_congr (hends₁ r hr).symm
  have hcode : s₁.coming.flatten.length ≤ m.id.length + rest ↔ tokenSize ≤ s₁.ready.length := by
    omega
  rw [hcode] at htoken
  by_cases hle : tokenSize ≤ s₁.ready.length
  · obtain ⟨hends₂, hlength₂, hready₂⟩ := hsecond hle
    have hpos₂ := List.length_pos_of_ne_nil hready₂
    have hends : ∀ r < m.id.length + rest, EndsBefore s₂.coming r ↔ EndsBefore s.coming r :=
      fun r hr => (hends₂ r hr).trans (hends₁ r (by omega))
    have hinside : (∀ r, rest < r → r < m.id.length + rest → ¬EndsBefore s.coming r) ↔
        s₂.coming.flatten.length ≤ rest := by
      have hbetween : (∀ r, rest < r → r < m.id.length + rest → ¬EndsBefore s₂.coming r) ↔
          s₂.coming.flatten.length ≤ rest := not_endsBefore_between_iff (by omega)
      rw [← hbetween]
      exact forall_congr' fun r => forall_congr' fun _ => forall_congr' fun hr =>
        not_congr (hends r hr).symm
    constructor
    · rintro ⟨-, hin, hshort⟩
      have hbehind := hinside.mp hin
      refine ⟨hle, by omega, fun hlt => ?_⟩
      have hend := ((hends rest (by omega)).mpr (hshort hlt)).le
      omega
    · rintro ⟨-, hlong, hshort⟩
      refine ⟨htoken.mpr hle, hinside.mpr (by omega), fun hlt => ?_⟩
      have hbound := hshort hlt
      have heq : s₂.coming.flatten.length = rest := by omega
      exact (hends rest (by omega)).mp (heq ▸ endsBefore_length s₂.coming)
  · exact iff_of_false (fun h => hle (htoken.mp h.token)) fun h => hle h.1

/-- The code is read if it has arrived. -/
theorem bufferString_token_iff {got tail rest : List UInt8} (hgot : got ++ tail = m.token ++ rest) :
    bufferString (got.take tokenSize) = m.token ↔ tokenSize ≤ got.length := by
  have hlen := m.length_token
  have hzero : 0 ∉ m.token := fun hmem => m.ne_zero_of_mem_token hmem rfl
  rw [bufferString_take_eq_iff hgot (by omega) (fun hlt => by omega), hlen]
  exact ⟨fun hr => hr.2.1, fun hr => ⟨hzero, hr, fun hlt => absurd hlt (Nat.lt_irrefl _)⟩⟩

/-- What is left behind the code. -/
theorem drop_token_append {got tail rest : List UInt8} (hgot : got ++ tail = m.token ++ rest)
    (hle : tokenSize ≤ got.length) : got.drop tokenSize ++ tail = rest := by
  rw [← List.drop_append_of_le_length hle, hgot, ← m.length_token, List.drop_left]

/-- What is left behind the id, when it has been read. -/
theorem drop_id_append {got tail rest : List UInt8} (hgot : got ++ tail = m.id ++ rest)
    (hlong : m.id.length ≤ got.length) (hshort : m.id.length < idSize → got.length ≤ m.id.length) :
    got.drop idSize ++ tail = rest := by
  have hbound : m.id.length ≤ idSize := m.length_id
  have hdrop : got.drop idSize = got.drop m.id.length := by
    rcases Nat.lt_or_ge m.id.length idSize with hlt | hge
    · have hready := hshort hlt
      rw [List.drop_eq_nil_of_le (by omega), List.drop_eq_nil_of_le hready]
    · rw [Nat.le_antisymm hge hbound]
  rw [hdrop, ← List.drop_append_of_le_length hlong, hgot, List.drop_left]

/-- **One round** gets its message right exactly when it is framed and its id has no zero
byte, and then the rest is left. -/
theorem receiveOne_eq_pair_iff (hs : s.timing = []) (hall : s.all = wire (m :: messages))
    (h : receiveOne s = some (pair, t)) :
    (pair = m.pair ↔ 0 ∉ m.id ∧ Framed s.coming m (wire messages).length) ∧
      (pair = m.pair → t.timing = [] ∧ t.all = wire messages ∧
        ∀ r < (wire messages).length, EndsBefore t.coming r ↔ EndsBefore s.coming r) := by
  obtain ⟨s₁, s₂, hs₁, hquiet₁, hs₂, hquiet₂, rfl, rfl⟩ := receiveOne_of_quiet hs h
  have hall₁ : s₁.ready ++ s₁.coming.flatten = m.token ++ (m.id ++ wire messages) := by
    rw [← List.append_assoc, ← AuthMessage.bytes, ← wire_cons, ← hall]
    exact (later_wait hs₁).append_all
  have hsize := m.length_bytes
  have hlength : s.all.length = m.bytes.length + (wire messages).length := by
    rw [hall, wire_cons, List.length_append]
  have hlength₁ : s₁.ready.length + s₁.coming.flatten.length
      = m.bytes.length + (wire messages).length := by
    rw [← List.length_append, hall₁, List.length_append, List.length_append, m.length_token]
    omega
  have hends₁ : ∀ r < m.bytes.length + (wire messages).length,
      EndsBefore s₁.coming r ↔ EndsBefore s.coming r := fun r hr =>
    endsBefore_wait hs hs₁ (hlength ▸ hr)
  have hready₁ := ready_ne_nil_of_wait hs₁
  have hready₂ := ready_ne_nil_of_wait hs₂
  have hcode := bufferString_token_iff hall₁
  have hall₂ : tokenSize ≤ s₁.ready.length →
      s₂.ready ++ s₂.coming.flatten = m.id ++ wire messages := fun hle =>
    (later_wait hs₂).append_all.trans (drop_token_append hall₁ hle)
  have hsecond : tokenSize ≤ s₁.ready.length →
      (∀ r < m.id.length + (wire messages).length,
        EndsBefore s₂.coming r ↔ EndsBefore s₁.coming r) ∧
      s₂.ready.length + s₂.coming.flatten.length = m.id.length + (wire messages).length ∧
      s₂.ready ≠ [] := by
    intro hle
    have hlen : s₂.ready.length + s₂.coming.flatten.length
        = m.id.length + (wire messages).length := by
      rw [← List.length_append, hall₂ hle, List.length_append]
    refine ⟨fun r hr => endsBefore_wait
      (s := { s₁ with ready := s₁.ready.drop tokenSize }) hquiet₁ hs₂ ?_, hlen, hready₂⟩
    show r < (s₁.ready.drop tokenSize ++ s₁.coming.flatten).length
    rw [List.length_append, List.length_drop]
    omega
  have hid : tokenSize ≤ s₁.ready.length → (bufferString (s₂.ready.take idSize) = m.id ↔
      0 ∉ m.id ∧ m.id.length ≤ s₂.ready.length ∧
        (m.id.length < idSize → s₂.ready.length ≤ m.id.length)) := fun hle =>
    bufferString_take_eq_iff (hall₂ hle) m.length_id fun _ => head_wire_ne_zero
  refine ⟨?_, fun heq => ?_⟩
  · rw [framed_iff hends₁ hlength₁ hready₁ hsecond, AuthMessage.pair, Prod.mk.injEq, hcode]
    constructor
    · rintro ⟨hle, hstring⟩
      obtain ⟨hzero, hrest⟩ := (hid hle).mp hstring
      exact ⟨hzero, hle, hrest⟩
    · rintro ⟨hzero, hle, hrest⟩
      exact ⟨hle, (hid hle).mpr ⟨hzero, hrest⟩⟩
  · rw [AuthMessage.pair, Prod.mk.injEq] at heq
    have hle := hcode.mp heq.1
    obtain ⟨-, hlong, hshort⟩ := (hid hle).mp heq.2
    obtain ⟨hends₂, hlen, -⟩ := hsecond hle
    exact ⟨hquiet₂, drop_id_append (hall₂ hle) hlong hshort, fun r hr =>
      (hends₂ r (by omega)).trans (hends₁ r (by omega))⟩

end Round

/-! ## The stream -/

/-- On a connection on which nothing arrives unasked. -/
theorem startAuthReciever_quiet_iff {messages : List AuthMessage} {s : Arrivals UInt8}
    (hs : s.timing = []) (hall : s.all = wire messages) :
    startAuthReciever s = messages.map AuthMessage.pair ↔
      (∀ m ∈ messages, 0 ∉ m.id) ∧ AllFramed s.coming messages := by
  induction messages generalizing s with
  | nil =>
    have hnone : receiveOne s = none := by
      rw [receiveOne, wait_eq_none_iff.mpr hall]
      rfl
    rw [startAuthReciever_none hnone]
    refine iff_of_true rfl ⟨fun m hm => absurd hm List.not_mem_nil, fun before m after h => ?_⟩
    exact absurd h.symm (by simp)
  | cons m messages ih =>
    obtain ⟨⟨pair, t⟩, hround⟩ :=
      Option.ne_none_iff_exists'.mp (receiveOne_ne_none (hall ▸ tokenSize_lt_length_wire))
    obtain ⟨hpair, hrest⟩ := receiveOne_eq_pair_iff hs hall hround
    rw [startAuthReciever_some hround, List.map_cons, List.cons.injEq, hpair, allFramed_cons,
      List.forall_mem_cons]
    constructor
    · rintro ⟨⟨hzero, hframed⟩, hmore⟩
      obtain ⟨ht, htall, hends⟩ := hrest (hpair.mpr ⟨hzero, hframed⟩)
      obtain ⟨hzeros, hall'⟩ := (ih ht htall).mp hmore
      exact ⟨⟨hzero, hzeros⟩, hframed, hall'.congr fun r hr => (hends r hr).symm⟩
    · rintro ⟨⟨hzero, hzeros⟩, hframed, hall'⟩
      obtain ⟨ht, htall, hends⟩ := hrest (hpair.mpr ⟨hzero, hframed⟩)
      exact ⟨⟨hzero, hframed⟩, (ih ht htall).mpr ⟨hzeros, hall'.congr hends⟩⟩

/-- A round in which each of the two reads gets one segment. -/
theorem receiveOne_segments {l l' : List UInt8} {c : List (List UInt8)} (hl : l ≠ [])
    (hlen : l.length ≤ tokenSize) (hl' : l' ≠ []) (hlen' : l'.length ≤ idSize) :
    receiveOne ⟨[], l :: l' :: c, []⟩ = some ((bufferString l, bufferString l'), ⟨[], c, []⟩) := by
  simp only [receiveOne, wait_segment hl, Option.bind_eq_bind, Option.bind_some,
    readLoop_of_quiet, List.take_of_length_le hlen, List.drop_eq_nil_of_le hlen, if_neg hl,
    wait_segment hl', List.take_of_length_le hlen', List.drop_eq_nil_of_le hlen', if_neg hl']

/-- A round that gets a part of a code and nothing more. -/
theorem receiveOne_segment {l : List UInt8} (hlen : l.length ≤ tokenSize) :
    receiveOne ⟨[], [l], []⟩ = none := by
  have hnothing : Arrivals.wait (⟨[], [], []⟩ : Arrivals UInt8) = none :=
    wait_eq_none_iff.mpr rfl
  by_cases hl : l = []
  · have hwait : Arrivals.wait ⟨[], [l], []⟩ = none := wait_eq_none_iff.mpr (by rw [hl]; rfl)
    rw [receiveOne, hwait]
    rfl
  · simp only [receiveOne, wait_segment hl, Option.bind_eq_bind, Option.bind_some,
      readLoop_of_quiet, List.take_of_length_le hlen, List.drop_eq_nil_of_le hlen, if_neg hl,
      hnothing, Option.bind_none]

/-- **Every timing is a segmentation.**  However a stream arrives, the receiver makes the
calls it makes when the stream comes in certain segments, each of them only when it
waits. -/
theorem exists_segments (s : Arrivals UInt8) :
    ∃ segments : List (List UInt8), segments.flatten = s.all ∧
      startAuthReciever s = startAuthReciever ⟨[], segments, []⟩ := by
  induction hn : s.all.length using Nat.strongRecOn generalizing s with
  | ind n ih =>
    cases hround : receiveOne s with
    | none =>
      have hle : s.all.length ≤ tokenSize := by
        by_contra hlt
        exact receiveOne_ne_none (Nat.lt_of_not_le hlt) hround
      refine ⟨[s.all], List.flatten_singleton, ?_⟩
      rw [startAuthReciever_none hround, startAuthReciever_none (receiveOne_segment hle)]
    | some r =>
      obtain ⟨pair, t⟩ := r
      obtain ⟨segments, hflatten, heq⟩ := ih _ (hn ▸ length_receiveOne_lt hround) t rfl
      obtain ⟨s₁, s₂, hs₁, hs₂, rfl, rfl⟩ := receiveOne_eq_some hround
      refine ⟨(s₁.readLoop tokenSize).1 :: (s₂.readLoop idSize).1 :: segments, ?_, ?_⟩
      · rw [List.flatten_cons, List.flatten_cons, hflatten,
          (later_readLoop idSize s₂).append_all, ← (later_wait hs₁).append_all, List.nil_append,
          ← (later_readLoop tokenSize s₁).append_all, ← (later_wait hs₂).append_all,
          List.nil_append]
      · rw [startAuthReciever_some hround, heq]
        refine (startAuthReciever_some (receiveOne_segments ?_ ?_ ?_ ?_)).symm
        · exact readLoop_ne_nil (by decide) (ready_ne_nil_of_wait hs₁)
        · exact length_readLoop_le tokenSize s₁
        · exact readLoop_ne_nil (by decide) (ready_ne_nil_of_wait hs₂)
        · exact length_readLoop_le idSize s₂

/-- **When the receiver gets the stream right.**  For every list of messages and every
segmentation of what is sent: exactly when no id contains a zero byte, no segment ends
inside a code or an id, and one ends behind every id of fewer than 21 bytes.  And whatever
the timing is, it comes to one of these segmentations. -/
theorem startAuthReciever_eq_iff (messages : List AuthMessage) :
    (∀ segments : List (List UInt8), segments.flatten = wire messages →
      (startAuthReciever ⟨[], segments, []⟩ = messages.map AuthMessage.pair ↔
        (∀ m ∈ messages, 0 ∉ m.id) ∧ AllFramed segments messages)) ∧
      ∀ s : Arrivals UInt8, s.all = wire messages →
        ∃ segments : List (List UInt8), segments.flatten = wire messages ∧
          startAuthReciever s = startAuthReciever ⟨[], segments, []⟩ := by
  refine ⟨fun segments h => startAuthReciever_quiet_iff rfl h, fun s hs => ?_⟩
  obtain ⟨segments, hflatten, heq⟩ := exists_segments s
  exact ⟨segments, hflatten.trans hs, heq⟩

/-- A message for the account `1`. -/
def shortMessage : AuthMessage where
  token := List.replicate tokenSize 97
  id := [49]
  length_token := List.length_replicate
  token_chars b hb := by
    rw [List.eq_of_mem_replicate hb]
    decide
  id_ne_nil := List.cons_ne_nil _ _
  length_id := by decide

/-- Where a single segment ends. -/
theorem endsBefore_singleton {l : List UInt8} {r : ℕ} (h : EndsBefore [l] r) :
    r = l.length ∨ r = 0 := by
  obtain ⟨k, rfl⟩ := h
  cases k with
  | zero => exact Or.inl (by rw [List.drop_zero, List.flatten_singleton])
  | succ k => exact Or.inr (by rw [List.drop_succ_cons, List.drop_nil]; rfl)

/-- **Two messages in one segment** are not told apart. -/
theorem not_startAuthReciever_eq : ¬∀ (messages : List AuthMessage)
    (segments : List (List UInt8)), segments.flatten = wire messages →
      startAuthReciever ⟨[], segments, []⟩ = messages.map AuthMessage.pair := by
  intro h
  have heq := h [shortMessage, shortMessage] [wire [shortMessage, shortMessage]]
    List.flatten_singleton
  have hall : Arrivals.all ⟨[], [wire [shortMessage, shortMessage]], []⟩
      = wire [shortMessage, shortMessage] := List.flatten_singleton
  obtain ⟨-, hframed⟩ := (startAuthReciever_quiet_iff rfl hall).mp heq
  have hend := (hframed [] shortMessage [shortMessage] rfl).short (by decide)
  have hpos : tokenSize < (wire [shortMessage]).length := tokenSize_lt_length_wire
  have hboth : (wire [shortMessage, shortMessage]).length
      = shortMessage.bytes.length + (wire [shortMessage]).length := by
    rw [wire_cons, List.length_append]
  have hbytes := shortMessage.length_bytes
  have hsize : 0 < tokenSize := by decide
  rcases endsBefore_singleton hend with h | h
  · omega
  · omega

/-- A message for an account of full length. -/
def fullMessage : AuthMessage where
  token := List.replicate tokenSize 100
  id := List.replicate idSize 50
  length_token := List.length_replicate
  token_chars b hb := by
    rw [List.eq_of_mem_replicate hb]
    decide
  id_ne_nil := List.cons_ne_nil _ _
  length_id := Nat.le_refl _

/-- Messages in a segment each are told apart. -/
theorem allFramed_map_bytes (messages : List AuthMessage) :
    AllFramed (messages.map AuthMessage.bytes) messages := by
  have hsplit : ∀ {before : List AuthMessage} {m : AuthMessage} {after : List AuthMessage} {r : ℕ},
      EndsBefore ((before ++ m :: after).map AuthMessage.bytes) r →
      (wire (m :: after)).length ≤ r ∨ r ≤ (wire after).length := by
    rintro before m after r ⟨k, rfl⟩
    rw [← List.map_drop, ← List.flatMap_def]
    by_cases hk : k ≤ before.length
    · left
      rw [List.drop_append_of_le_length hk, List.flatMap_append, List.length_append]
      exact Nat.le_add_left _ _
    · right
      have hdrop : (before ++ m :: after).drop k = after.drop (k - before.length - 1) := by
        obtain ⟨j, rfl⟩ := Nat.exists_eq_add_of_lt (Nat.lt_of_not_le hk)
        rw [List.drop_append, List.drop_eq_nil_of_le (by omega), List.nil_append]
        simp [Nat.add_assoc]
      have hcut : (wire after).length = (wire (after.take (k - before.length - 1))).length
          + (wire (after.drop (k - before.length - 1))).length := by
        rw [← List.length_append, wire, wire, wire, ← List.flatMap_append, List.take_append_drop]
      rw [hdrop, hcut]
      exact Nat.le_add_left _ _
  rintro before m after rfl
  have hcons : (wire (m :: after)).length = m.bytes.length + (wire after).length := by
    rw [wire_cons, List.length_append]
  have hbytes := m.length_bytes
  refine ⟨fun r hr hr' hend => ?_, fun r hr hr' hend => ?_, fun _ => ⟨before.length + 1, ?_⟩⟩
  · rcases hsplit hend with h | h <;> omega
  · rcases hsplit hend with h | h <;> omega
  · rw [← List.map_drop, ← List.flatMap_def, List.drop_append, List.drop_eq_nil_of_le (by omega)]
    simp [wire]

/-- Three messages that arrive in a segment each are read. -/
theorem startAuthReciever_eq_threeMessages :
    startAuthReciever ⟨[], [shortMessage, fullMessage, shortMessage].map AuthMessage.bytes, []⟩
      = [shortMessage.pair, fullMessage.pair, shortMessage.pair] :=
  ((startAuthReciever_eq_iff [shortMessage, fullMessage, shortMessage]).1 _ rfl).mpr
    ⟨by decide, allFramed_map_bytes _⟩

end Authentication
end MmoBackend
