import MmoBackend.Authentication.AwaitingConnections
import MmoBackend.Library.Trace

/-!
# The id string a login copies

`awaiting_connections_table_find` takes no lock.  It gets a pointer to a connection from the
table, reads the pointer to the id out of it and returns that.  `packet_handle_login` measures
the string behind it, allocates as many bytes and copies the string.  Both the connection and the
string can be gone by then: the auth receiver frees them when the token comes a second time, and
the cleaner and any other login with the token free the string.

Of a token that comes a second time the lock protects only the first half, as `InSteps`
says.  The connection that was stored is destroyed under it, with the new one in
its place, and then the new one is destroyed and freed without it.  So for a while the table
has a connection that is about to be torn down, and a login can still find it.

A session remembers what the string was at the lookup; this is `stored`, which no step reads
to decide anything.  `Sound` says that the session still sees it.  `sound_iff_guarded` is the
condition on a run: nobody destroys a connection that a login has found and whose id it has not
copied yet, and nobody looks a token up whose connection was destroyed.
-/

namespace MmoBackend
namespace Communication

open Authentication

variable {S : Type} [DecidableEq S]

/-- How far a login has come with the id of its token. -/
inductive IdPhase where
  /-- No login is running. -/
  | idle
  /-- The table has given out the connection `c` for the token `code`.  The id was `stored`
  then. -/
  | looked (code : CString) (c : ℕ) (stored : Option CString)
  /-- The lookup has returned a pointer `p` to the id. -/
  | found (code : CString) (p : ℕ) (stored : Option CString)
  /-- `id_len` is computed. -/
  | measured (code : CString) (p : ℕ) (stored : Option CString) (len : ℕ)
  /-- The id is copied. -/
  | copied (code : CString) (stored : Option CString) (id : CString)
  /-- The lookup has read from a connection that is freed. -/
  | crashed
  /-- The login has removed its token. -/
  | roaming

namespace IdPhase

/-- The number under which a login that has not copied the id yet has found it. -/
def reads : IdPhase → Option ℕ
  | looked _ p _ | found _ p _ | measured _ p _ _ => some p
  | _ => none

/-- The login sees the id as it was when it was looked up, and has copied it so. -/
def Sound (t : AwaitingTable) : IdPhase → Prop
  | idle | roaming => True
  | looked _ c stored => ∃ conn id, t.conns c = some conn ∧ stored = some id ∧
      t.ids conn.id = some id
  | found _ p stored => ∃ id, stored = some id ∧ t.ids p = some id
  | measured _ p stored len => ∃ id, stored = some id ∧ t.ids p = some id ∧ len = id.length + 1
  | copied _ stored id => stored = some id
  | crashed => False

variable {phase : IdPhase} {t t' : AwaitingTable} {p : ℕ}

/-- What a login reads is there as long as its connection and its id are. -/
theorem Sound.congr (h : phase.Sound t) (ht : t.WellFormed)
    (hsame : ∀ p, phase.reads = some p → t'.ids p = t.ids p ∧ t'.conns p = t.conns p) :
    phase.Sound t' := by
  cases phase with
  | looked code c stored =>
    obtain ⟨conn, id, hconn, hstored, hid⟩ := h
    obtain ⟨hids, hconns⟩ := hsame c rfl
    obtain rfl := ht.id_eq c conn hconn
    exact ⟨conn, id, hconns.trans hconn, hstored, hids.trans hid⟩
  | found code p stored | measured code p stored len => simpa only [Sound, (hsame p rfl).1] using h
  | _ => exact h

/-- A login that still reads sees the id, so it is there. -/
theorem Sound.ids_ne_none (h : phase.Sound t) (ht : t.WellFormed) (hreads : phase.reads = some p) :
    t.ids p ≠ none := by
  intro hfreed
  cases phase with
  | looked code c stored =>
    obtain rfl := Option.some.inj hreads
    obtain ⟨conn, id, hconn, -, hid⟩ := h
    rw [ht.id_eq c conn hconn, hfreed] at hid
    cases hid
  | found code q stored =>
    obtain rfl := Option.some.inj hreads
    obtain ⟨id, -, hid⟩ := h
    exact absurd (hid.symm.trans hfreed) (Option.some_ne_none id)
  | measured code q stored len =>
    obtain rfl := Option.some.inj hreads
    obtain ⟨id, -, hid, -⟩ := h
    exact absurd (hid.symm.trans hfreed) (Option.some_ne_none id)
  | _ => exact absurd hreads.symm (Option.some_ne_none p)

end IdPhase

/-- `strncpy`: at most `n` bytes of a string are copied. -/
def strncpy (id : CString) (n : ℕ) : CString := id.take n

/-- How far the auth receiver has come with the teardown of a token it has refused. -/
inductive Teardown where
  /-- There is none. -/
  | done
  /-- The lock is released. -/
  | refused (c : ℕ)
  /-- The connection is destroyed, and not freed yet. -/
  | destroyed (c : ℕ)

/-- The table, the auth receiver, the token the cleaner is about to remove, and the logins. -/
structure IdState (S : Type) where
  table : AwaitingTable
  teardown : Teardown
  cleaner : Option CString
  phase : S → IdPhase

namespace IdState

/-- The table is empty, and no login is running. -/
def init : IdState S := ⟨AwaitingTable.init, .done, none, fun _ => .idle⟩

/-- A step of the auth receiver, of the cleaner or of a login. -/
inductive Action (S : Type) where
  /-- The auth receiver inserts a token, up to the release of the lock. -/
  | insert (token id : CString) (now : ℕ)
  /-- It destroys the connection of a token it has refused. -/
  | destroy
  /-- It frees this connection. -/
  | free
  /-- The cleaner finds that a token has expired. -/
  | judge (token : CString) (now : ℕ)
  /-- The cleaner removes the token. -/
  | evict (token : CString)
  /-- A login looks its token up. -/
  | lookup (s : S) (code : CString)
  /-- It reads the pointer to the id. -/
  | follow (s : S)
  /-- A login computes the length of the id. -/
  | measure (s : S)
  /-- A login copies the id. -/
  | copy (s : S)
  /-- There is no record for the id. -/
  | fail (s : S)
  /-- A login removes its token. -/
  | remove (s : S)

/-- A login goes on to its next phase. -/
def setPhase (st : IdState S) (s : S) (phase : IdPhase) : IdState S :=
  { st with phase := Function.update st.phase s phase }

/-- The id behind a pointer to a connection. -/
def storedId (t : AwaitingTable) (c : ℕ) : Option CString :=
  (t.conns c).bind fun conn => t.ids conn.id

/-- The steps, in any order. -/
inductive Step : IdState S → Action S → IdState S → Prop
  | insert {st : IdState S} {token id : CString} {now : ℕ} {r : ℕ × Bool} {t : AwaitingTable} :
      st.teardown = .done → AwaitingTable.insertLocked token id now st.table = .ok (r, t) →
      Step st (.insert token id now)
        { st with table := t, teardown := if r.2 then .done else .refused r.1 }
  | destroy {st : IdState S} {c : ℕ} {t : AwaitingTable} :
      st.teardown = .refused c → AwaitingTable.destroyConnection c st.table = .ok ((), t) →
      Step st .destroy { st with table := t, teardown := .destroyed c }
  | free {st : IdState S} {c : ℕ} {t : AwaitingTable} :
      st.teardown = .destroyed c → AwaitingTable.freeConnection c st.table = .ok ((), t) →
      Step st .free { st with table := t, teardown := .done }
  | judge {st : IdState S} {token : CString} {c now : ℕ} {conn : AwaitingConnection} :
      st.cleaner = none → (token, c) ∈ st.table.entries → st.table.conns c = some conn →
      conn.expiration ≤ now → Step st (.judge token now) { st with cleaner := some token }
  | evict {st : IdState S} {token : CString} {b : Bool} {t : AwaitingTable} :
      st.cleaner = some token → AwaitingTable.remove token st.table = .ok (b, t) →
      Step st (.evict token) { st with table := t, cleaner := none }
  | unknown {st : IdState S} {s : S} {code : CString} :
      st.phase s = .idle → st.table.entries.lookup code = none → Step st (.lookup s code) st
  | lookup {st : IdState S} {s : S} {code : CString} {c : ℕ} :
      st.phase s = .idle → st.table.entries.lookup code = some c →
      Step st (.lookup s code) (st.setPhase s (.looked code c (storedId st.table c)))
  | follow {st : IdState S} {s : S} {code : CString} {c : ℕ} {conn : AwaitingConnection}
      {stored : Option CString} :
      st.phase s = .looked code c stored → st.table.conns c = some conn →
      Step st (.follow s) (st.setPhase s (.found code conn.id stored))
  | crash {st : IdState S} {s : S} {code : CString} {c : ℕ} {stored : Option CString} :
      st.phase s = .looked code c stored → st.table.conns c = none →
      Step st (.follow s) (st.setPhase s .crashed)
  | measure {st : IdState S} {s : S} {code id : CString} {p : ℕ} {stored : Option CString} :
      st.phase s = .found code p stored → st.table.ids p = some id →
      Step st (.measure s) (st.setPhase s (.measured code p stored (id.length + 1)))
  | copy {st : IdState S} {s : S} {code id : CString} {p n : ℕ} {stored : Option CString} :
      st.phase s = .measured code p stored n → st.table.ids p = some id →
      Step st (.copy s) (st.setPhase s (.copied code stored (strncpy id n)))
  | fail {st : IdState S} {s : S} {code id : CString} {stored : Option CString} :
      st.phase s = .copied code stored id → Step st (.fail s) (st.setPhase s .idle)
  | remove {st : IdState S} {s : S} {code id : CString} {stored : Option CString} {b : Bool}
      {t : AwaitingTable} :
      st.phase s = .copied code stored id → AwaitingTable.remove code st.table = .ok (b, t) →
      Step st (.remove s) ({ st with table := t }.setPhase s .roaming)

/-- Every login sees the id as it was when it was looked up. -/
def Sound (st : IdState S) : Prop := ∀ s, (st.phase s).Sound st.table

/-- No login that has found the connection `c` has still to copy its id. -/
def Unread (st : IdState S) (c : ℕ) : Prop := ∀ s, (st.phase s).reads ≠ some c

/-- No login has still to copy the id of a token. -/
def TokenUnread (st : IdState S) (token : CString) : Prop :=
  ∀ c, st.table.entries.lookup token = some c → st.Unread c

/-- A connection that is destroyed is read by no login, and of a token that is looked up the
connection and the id are there. -/
def Safe (st : IdState S) : Action S → Prop
  | .insert token _ _ => st.TokenUnread token
  | .destroy => ∀ c, st.teardown = .refused c → st.Unread c
  | .evict token => st.TokenUnread token
  | .lookup _ code => ∀ c, st.table.entries.lookup code = some c → storedId st.table c ≠ none
  | .remove s => ∀ code stored id, st.phase s = .copied code stored id → st.TokenUnread code
  | _ => True

/-- The functions, run alone, are their steps one after the other. -/
structure InSteps : Prop where
  /-- An insertion is its half under the lock, and the teardown of a token that was refused. -/
  insert (token id : CString) (now : ℕ) : AwaitingTable.insert token id now = (do
    let stored ← AwaitingTable.insertLocked token id now
    if stored.2 then pure true
    else do
      AwaitingTable.destroyConnection stored.1
      AwaitingTable.freeConnection stored.1
      pure false)
  /-- A lookup is that of the table, and the read of the pointer to the id. -/
  find (code : CString) : AwaitingTable.find code = (do
    let t ← Exec.get
    match t.entries.lookup code with
    | none => pure none
    | some c => do
      let t ← Exec.get
      let conn ← Exec.need (t.conns c)
      pure (some conn.id))

theorem inSteps : InSteps := by
  refine ⟨AwaitingTable.insert_eq_locked, fun code => ?_⟩
  funext t
  rw [AwaitingTable.find, Exec.get_bind, Exec.get_bind]
  cases t.entries.lookup code with
  | none => rfl
  | some c => rfl

/-! ## The table -/

section Table

variable {t t' : AwaitingTable} {token id : CString} {now p : ℕ} {b : Bool} {r : ℕ × Bool}

theorem storedId_eq_some {c : ℕ} :
    storedId t c = some id ↔ ∃ conn, t.conns c = some conn ∧ t.ids conn.id = some id :=
  Option.bind_eq_some_iff

/-- The half of an insertion under the lock frees at most the id that was stored for its
token. -/
theorem ids_insertLocked (ht : t.WellFormed)
    (h : AwaitingTable.insertLocked token id now t = .ok (r, t')) (hp : p < t.next) :
    t'.ids p = (if t.entries.lookup token = some p then none else t.ids p) ∧
      t'.conns p = t.conns p := by
  have hnext : p ≠ t.next := Nat.ne_of_lt hp
  cases hlookup : t.entries.lookup token with
  | none =>
    obtain ⟨-, rfl⟩ := AwaitingTable.insertLocked_of_none hlookup h
    rw [if_neg (Option.some_ne_none p).symm]
    exact ⟨Function.update_of_ne hnext _ _, Function.update_of_ne hnext _ _⟩
  | some old =>
    obtain ⟨conn, hconn, -, rfl⟩ := AwaitingTable.insertLocked_of_some hlookup h
    have hold := ht.bound token old (AwaitingTable.mem_of_lookup hlookup)
    have hconn' : t.conns old = some conn :=
      (Function.update_of_ne (Nat.ne_of_lt hold) _ _).symm.trans hconn
    refine ⟨?_, Function.update_of_ne hnext _ _⟩
    dsimp only
    rw [ht.id_eq old conn hconn', Function.update_apply]
    refine if_congr ?_ rfl (Function.update_of_ne hnext _ _)
    rw [Option.some.injEq, eq_comm]

/-- A removal frees at most the id that was stored for its token. -/
theorem ids_remove (ht : t.WellFormed) (h : AwaitingTable.remove token t = .ok (b, t')) (p : ℕ) :
    t'.ids p = (if t.entries.lookup token = some p then none else t.ids p) ∧
      t'.conns p = t.conns p := by
  refine ⟨?_, congrFun (AwaitingTable.remove_eq_ok h).2.1 p⟩
  cases hlookup : t.entries.lookup token with
  | none =>
    obtain ⟨-, rfl⟩ := AwaitingTable.remove_of_none hlookup h
    rw [if_neg (Option.some_ne_none p).symm]
  | some c =>
    obtain ⟨conn, hconn, -, rfl⟩ := AwaitingTable.remove_of_some hlookup h
    dsimp only
    rw [ht.id_eq c conn hconn, Function.update_apply]
    refine if_congr ?_ rfl rfl
    rw [Option.some.injEq, eq_comm]

theorem ids_destroyConnection {c : ℕ} (ht : t.WellFormed)
    (h : AwaitingTable.destroyConnection c t = .ok ((), t')) (p : ℕ) :
    t'.ids p = (if c = p then none else t.ids p) ∧ t'.conns p = t.conns p := by
  obtain ⟨conn, _, hconn, -, rfl⟩ := AwaitingTable.destroyConnection_eq_ok h
  refine ⟨?_, rfl⟩
  dsimp only
  rw [ht.id_eq c conn hconn, Function.update_apply]
  exact if_congr eq_comm rfl rfl

theorem wellFormed_destroyConnection {c : ℕ} (ht : t.WellFormed)
    (h : AwaitingTable.destroyConnection c t = .ok ((), t')) : t'.WellFormed := by
  obtain ⟨conn, _, -, -, rfl⟩ := AwaitingTable.destroyConnection_eq_ok h
  exact ⟨ht.keys, ht.inj, ht.bound, ht.id_eq⟩

theorem wellFormed_freeConnection {c : ℕ} (ht : t.WellFormed)
    (h : AwaitingTable.freeConnection c t = .ok ((), t')) : t'.WellFormed := by
  obtain rfl := Exec.modify_eq_ok.mp h
  refine ⟨ht.keys, ht.inj, ht.bound, fun c' conn hconn => ht.id_eq c' conn ?_⟩
  dsimp only at hconn
  rw [Function.update_apply] at hconn
  split at hconn
  · cases hconn
  · exact hconn

end Table

/-! ## The invariant -/

/-- The table is in order, the pointers of the logins are old, and the id of a connection that
was destroyed is freed. -/
structure Inv (st : IdState S) : Prop where
  table : st.table.WellFormed
  bound : ∀ s p, (st.phase s).reads = some p → p < st.table.next
  freed : ∀ c, st.teardown = .destroyed c → st.table.ids c = none

omit [DecidableEq S] in
theorem inv_init : Inv (init : IdState S) :=
  ⟨AwaitingTable.wellFormed_init, fun _ _ h => absurd h.symm (Option.some_ne_none _),
    fun _ h => Teardown.noConfusion h⟩

theorem phase_setPhase (st : IdState S) (s s' : S) (phase : IdPhase) :
    (st.setPhase s phase).phase s' = if s' = s then phase else st.phase s' :=
  Function.update_apply _ _ _ _

theorem Inv.setPhase {st : IdState S} (h : Inv st) (s : S) {phase : IdPhase}
    (hreads : ∀ p, phase.reads = some p → p < st.table.next) : Inv (st.setPhase s phase) := by
  refine ⟨h.table, fun s' p hp => ?_, h.freed⟩
  rw [phase_setPhase] at hp
  split at hp
  · exact hreads p hp
  · exact h.bound s' p hp

/-- A login reads what it has read before, or nothing. -/
theorem Inv.goOn {st : IdState S} (h : Inv st) (s : S) {phase : IdPhase}
    (hreads : phase.reads = (st.phase s).reads ∨ phase.reads = none) :
    Inv (st.setPhase s phase) := by
  refine h.setPhase s fun p hp => ?_
  rcases hreads with hsame | hnone
  · exact h.bound s p (hsame ▸ hp)
  · rw [hnone] at hp
    cases hp

omit [DecidableEq S] in
theorem Inv.remove {st : IdState S} (h : Inv st) {token : CString} {b : Bool}
    {t : AwaitingTable} (hremove : AwaitingTable.remove token st.table = .ok (b, t)) :
    Inv { st with table := t } := by
  refine ⟨h.table.remove hremove, fun s p hp => ?_, fun c hc => ?_⟩
  · show p < t.next
    rw [(AwaitingTable.remove_eq_ok hremove).1]
    exact h.bound s p hp
  · show t.ids c = none
    rw [(ids_remove h.table hremove c).1, h.freed c hc, ite_self]

/-- **Every step keeps the invariant.** -/
theorem Inv.step {st st' : IdState S} {a : Action S} (h : Inv st) (hstep : Step st a st') :
    Inv st' := by
  cases hstep with
  | @insert token id now r t _ hinsert =>
    have hstores := AwaitingTable.insertLocked_eq_ok hinsert
    refine ⟨hstores.wellFormed h.table, fun s p hp => ?_, fun c hc => ?_⟩
    · show p < t.next
      rw [hstores.next_eq]
      exact Nat.lt_succ_of_lt (h.bound s p hp)
    · dsimp only at hc
      split at hc <;> cases hc
  | @destroy c t _ hdestroy =>
    have hnext : t.next = st.table.next := by
      obtain ⟨_, _, -, -, rfl⟩ := AwaitingTable.destroyConnection_eq_ok hdestroy
      rfl
    refine ⟨wellFormed_destroyConnection h.table hdestroy, fun s p hp => ?_, fun c' hc' => ?_⟩
    · show p < t.next
      rw [hnext]
      exact h.bound s p hp
    · show t.ids c' = none
      rw [(ids_destroyConnection h.table hdestroy c').1, if_pos (Teardown.destroyed.inj hc')]
  | free _ hfree =>
    refine ⟨wellFormed_freeConnection h.table hfree, fun s p hp => ?_,
      fun _ hc => Teardown.noConfusion hc⟩
    obtain rfl := Exec.modify_eq_ok.mp hfree
    exact h.bound s p hp
  | judge _ _ _ _ => exact ⟨h.table, h.bound, h.freed⟩
  | evict _ hremove =>
    obtain ⟨htable, hbound, hfreed⟩ := h.remove hremove
    exact ⟨htable, hbound, hfreed⟩
  | unknown _ _ => exact h
  | @lookup s code c _ hlookup =>
    refine h.setPhase s fun p hp => ?_
    obtain rfl := Option.some.inj hp
    exact h.table.bound code c (AwaitingTable.mem_of_lookup hlookup)
  | @follow s code c conn stored hphase hconn =>
    refine h.goOn s (Or.inl ?_)
    rw [hphase, h.table.id_eq c conn hconn]
    rfl
  | crash _ _ => exact h.goOn _ (Or.inr rfl)
  | measure hphase _ => exact h.goOn _ (Or.inl (by rw [hphase]; rfl))
  | copy _ _ => exact h.goOn _ (Or.inr rfl)
  | fail _ => exact h.goOn _ (Or.inr rfl)
  | remove _ hremove => exact (h.remove hremove).goOn _ (Or.inr rfl)

/-! ## What a step does to the logins -/

omit [DecidableEq S] in
/-- **A step that frees ids** leaves the logins sound exactly when none of them reads one of
these. -/
theorem sound_iff_unread {st : IdState S} (h : Inv st) (hsound : st.Sound) {freed : ℕ → Prop}
    [DecidablePred freed] {t : AwaitingTable} {teardown : Teardown} {cleaner : Option CString}
    (ht : t.WellFormed)
    (hsame : ∀ p, p < st.table.next →
      t.ids p = (if freed p then none else st.table.ids p) ∧ t.conns p = st.table.conns p) :
    Sound (⟨t, teardown, cleaner, st.phase⟩ : IdState S) ↔ ∀ c, freed c → st.Unread c := by
  constructor
  · intro hafter c hc s hreads
    refine (hafter s).ids_ne_none ht hreads ?_
    exact (hsame c (h.bound s c hreads)).1.trans (if_pos hc)
  · intro hunread s
    refine (hsound s).congr h.table fun p hp => ?_
    obtain ⟨hids, hconns⟩ := hsame p (h.bound s p hp)
    exact ⟨hids.trans (if_neg fun hfreed => hunread p hfreed s hp), hconns⟩

/-- A login that goes on. -/
theorem sound_setPhase {st : IdState S} (hsound : st.Sound) (s : S) (phase : IdPhase) :
    (st.setPhase s phase).Sound ↔ phase.Sound st.table := by
  constructor
  · intro hafter
    have hs := hafter s
    rwa [phase_setPhase, if_pos rfl] at hs
  · intro hphase s'
    show ((st.setPhase s phase).phase s').Sound st.table
    rw [phase_setPhase]
    split
    · exact hphase
    · exact hsound s'

omit [DecidableEq S] in
/-- When a connection is freed, its id is freed already, so nobody reads it. -/
theorem Sound.free {st : IdState S} (hsound : st.Sound) (h : Inv st) {c : ℕ} {t : AwaitingTable}
    (hc : st.teardown = .destroyed c)
    (hfree : AwaitingTable.freeConnection c st.table = .ok ((), t)) :
    Sound { st with table := t, teardown := .done } := by
  obtain rfl := Exec.modify_eq_ok.mp hfree
  intro s
  refine (hsound s).congr h.table fun p hp => ⟨rfl, Function.update_of_ne ?_ _ _⟩
  rintro rfl
  exact (hsound s).ids_ne_none h.table hp (h.freed p hc)

omit [DecidableEq S] in
theorem Sound.of_phase {st : IdState S} (hsound : st.Sound) {s : S} {phase : IdPhase}
    (hphase : st.phase s = phase) : phase.Sound st.table := hphase ▸ hsound s

/-- **One step** from a state in which every login sees its id. -/
theorem sound_step_iff {st st' : IdState S} {a : Action S} (h : Inv st) (hsound : st.Sound)
    (hstep : Step st a st') : st'.Sound ↔ st.Safe a := by
  cases hstep with
  | insert _ hinsert =>
    exact sound_iff_unread h hsound ((AwaitingTable.insertLocked_eq_ok hinsert).wellFormed h.table)
      fun p hp => ids_insertLocked h.table hinsert hp
  | @destroy c t hc hdestroy =>
    refine (sound_iff_unread h hsound (wellFormed_destroyConnection h.table hdestroy)
      fun p _ => ids_destroyConnection h.table hdestroy p).trans (forall_congr' fun c' => ?_)
    rw [hc, Teardown.refused.injEq]
  | free hc hfree => exact iff_of_true (hsound.free h hc hfree) trivial
  | judge _ _ _ _ => exact iff_of_true hsound trivial
  | evict _ hremove =>
    exact sound_iff_unread h hsound (h.table.remove hremove) fun p _ =>
      ids_remove h.table hremove p
  | unknown _ hlookup =>
    exact iff_of_true hsound fun c hc => absurd (hc.symm.trans hlookup) (Option.some_ne_none c)
  | @lookup s code c _ hlookup =>
    rw [sound_setPhase hsound]
    constructor
    · rintro ⟨conn, id, hconn, hstored, hid⟩ c' hc' hnone
      obtain rfl := Option.some.inj (hlookup.symm.trans hc')
      exact Option.some_ne_none id (hstored.symm.trans hnone)
    · intro hsafe
      obtain ⟨id, hid⟩ := Option.ne_none_iff_exists'.mp (hsafe c hlookup)
      obtain ⟨conn, hconn, hstored⟩ := storedId_eq_some.mp hid
      exact ⟨conn, id, hconn, hid, hstored⟩
  | @follow s code c conn stored hphase hconn =>
    refine iff_of_true ((sound_setPhase hsound _ _).mpr ?_) trivial
    obtain ⟨conn', id, hconn', hstored, hid⟩ := hsound.of_phase hphase
    obtain rfl := Option.some.inj (hconn.symm.trans hconn')
    exact ⟨id, hstored, hid⟩
  | @crash s code c stored hphase hconn =>
    obtain ⟨conn, _, hconn', -, -⟩ := hsound.of_phase hphase
    exact absurd (hconn'.symm.trans hconn) (Option.some_ne_none conn)
  | @measure s code id p stored hphase hid =>
    refine iff_of_true ((sound_setPhase hsound _ _).mpr ?_) trivial
    obtain ⟨id', hstored, hid'⟩ := hsound.of_phase hphase
    obtain rfl := Option.some.inj (hid.symm.trans hid')
    exact ⟨id, hstored, hid, rfl⟩
  | @copy s code id p n stored hphase hid =>
    refine iff_of_true ((sound_setPhase hsound _ _).mpr ?_) trivial
    obtain ⟨id', rfl, hid', rfl⟩ := hsound.of_phase hphase
    obtain rfl := Option.some.inj (hid.symm.trans hid')
    show some id = some (id.take (id.length + 1))
    rw [List.take_of_length_le (Nat.le_succ _)]
  | fail _ => exact iff_of_true ((sound_setPhase hsound _ _).mpr trivial) trivial
  | @remove s code id stored b t hphase hremove =>
    have hids : Sound (⟨t, st.teardown, st.cleaner, st.phase⟩ : IdState S) ↔
        st.TokenUnread code :=
      sound_iff_unread h hsound (h.table.remove hremove) fun p _ => ids_remove h.table hremove p
    constructor
    · intro hafter code' stored' id' hphase'
      rw [hphase, IdPhase.copied.injEq] at hphase'
      rw [← hphase'.1, ← hids]
      intro s'
      have hs' := hafter s'
      rw [phase_setPhase] at hs'
      split at hs'
      · rename_i heq
        rw [heq, hphase]
        exact hsound.of_phase hphase
      · exact hs'
    · intro hsafe
      exact (sound_setPhase (hids.mpr (hsafe code stored id hphase)) _ _).mpr trivial

/-- **When a login reads a live id.**  In a run of the auth receiver, the cleaner and any
number of logins, every login sees and copies the id that was stored under its token when it
was looked up exactly when every step of the run is safe.  The steps are those of the code. -/
theorem sound_iff_guarded {l : List (Action S × IdState S)} {st : IdState S}
    (h : Trace Step init l st) :
    InSteps ∧ ((∀ e ∈ l, e.2.Sound) ↔ Trace (Guarded Step Safe) init l st) :=
  ⟨inSteps, h.forall_iff_guarded (I := Inv) (fun _ _ _ ht hstep => ht.step hstep)
    (fun _ _ _ ht hsound hstep => sound_step_iff ht hsound hstep) inv_init fun _ => trivial⟩

/-! ## A token that is inserted while it is read -/

/-- The table with the token `7` of the account `9`. -/
def oneId : AwaitingTable :=
  { AwaitingTable.alloc [9] 0 AwaitingTable.init with entries := [([7], 0)] }

/-- The token is stored, and a login has looked it up. -/
def lookedUp : IdState Bool :=
  (setPhase { init with table := oneId } true (.looked [7] 0 (some [9]))).setPhase true
    (.found [7] 0 (some [9]))

theorem trace_lookedUp : ∃ l, Trace (Guarded Step Safe) init l lookedUp := by
  have hinsert : Step (init : IdState Bool) (.insert [7] [9] 0) { init with table := oneId } :=
    .insert (r := (0, true)) rfl rfl
  have hlookup := @Step.lookup Bool _ { init with table := oneId } true [7] 0 rfl rfl
  have hsafe : Safe { init with table := oneId } (.lookup true [7]) := by
    intro c hc
    obtain rfl := Option.some.inj hc
    exact Option.some_ne_none _
  have hfollow : Step _ (.follow true) lookedUp := @Step.follow Bool _
    (setPhase { init with table := oneId } true (.looked [7] 0 (some [9]))) true [7] 0
    ⟨0, AwaitingTable.timeToLive⟩ (some [9]) rfl rfl
  have hfirst : Trace (Guarded Step Safe) (init : IdState Bool) _ _ :=
    Trace.nil.snoc ⟨hinsert, fun _ hc => absurd hc.symm (Option.some_ne_none _)⟩
  exact ⟨_, (hfirst.snoc ⟨hlookup, hsafe⟩).snoc ⟨hfollow, trivial⟩⟩

/-- While a login copies its id, another token is refused and torn down.  Every step is
safe, and in the end the login has removed its token. -/
theorem sound_iff_guarded_refused :
    ∃ l st, Trace Step (init : IdState Bool) l st ∧ st.phase true = .roaming ∧
      (∀ e ∈ l, e.2.Sound) ∧ ((∀ e ∈ l, e.2.Sound) ↔ Trace (Guarded Step Safe) init l st) := by
  obtain ⟨l, h₀⟩ := trace_lookedUp
  have h₁ := h₀.snoc ⟨@Step.insert Bool _ _ [8] [9] 1 (1, true) _ rfl rfl,
    fun _ hc => absurd hc.symm (Option.some_ne_none _)⟩
  have h₂ := h₁.snoc ⟨@Step.insert Bool _ _ [8] [6] 2 (2, false) _ rfl rfl, fun c hc => by
    obtain rfl := Option.some.inj hc
    exact Bool.forall_bool.mpr (by decide)⟩
  have h₃ := h₂.snoc ⟨@Step.measure Bool _ _ true [7] [9] 0 (some [9]) rfl rfl, trivial⟩
  have h₄ := h₃.snoc ⟨@Step.destroy Bool _ _ 2 _ rfl rfl, fun c hc => by
    obtain rfl := Teardown.refused.inj hc
    exact Bool.forall_bool.mpr (by decide)⟩
  have h₅ := h₄.snoc ⟨@Step.copy Bool _ _ true [7] [9] 0 2 (some [9]) rfl rfl, trivial⟩
  have h₆ := h₅.snoc ⟨@Step.free Bool _ _ 2 _ rfl rfl, trivial⟩
  have h₇ := h₆.snoc ⟨@Step.remove Bool _ _ true [7] [9] (some [9]) true _ rfl rfl,
    fun code _ _ hphase c hc => by
      obtain rfl := (IdPhase.copied.inj hphase).1
      obtain rfl := Option.some.inj hc
      exact Bool.forall_bool.mpr (by decide)⟩
  have hrun := h₇.of_guarded
  have hiff := (sound_iff_guarded hrun).2
  exact ⟨_, _, hrun, rfl, hiff.mpr h₇, hiff⟩

/-- **A login reads freed memory.**  The token comes a second time between its lookup and the
copy of the id. -/
theorem not_sound : ¬∀ l (st : IdState Bool), Trace Step init l st → ∀ e ∈ l, e.2.Sound := by
  obtain ⟨l, hrun⟩ := trace_lookedUp
  intro h
  have hinsert := hrun.of_guarded.snoc (@Step.insert Bool _ _ [7] [8] 5 (1, false) _ rfl rfl)
  have hsound := h _ _ hinsert _ (List.mem_append_right l List.mem_cons_self) true
  obtain ⟨id, -, hid⟩ := hsound
  exact absurd hid.symm (Option.some_ne_none id)

end IdState

end Communication
end MmoBackend
