import Mathlib.Data.List.Nodup
import Mathlib.Logic.Function.Basic
import MmoBackend.Library.Assoc
import MmoBackend.Library.Exec

/-!
# `awaiting-connections.c`: tokens that may log in

The auth receiver stores a token together with the account id it stands for, and a
login looks the token up and removes it.  The table is a GLib hash table from
strings to pointers: inserting a key that is present keeps the key, destroys the
old value and stores the new one, and removing a key destroys its value.
Destroying a value frees the id string it points to.

Pointers are numbers.  `insert` allocates a connection and takes over an id string
that its caller has allocated; the `n`-th call allocates both under the number `n`,
so `n` stands for the token that was inserted by it.  A number that is not in a heap
is a pointer to memory that has been freed, and using it is a fault.

What the calls print is left out.  The last thing a refused `insert` prints is the
token it has freed.
-/

namespace MmoBackend
namespace Authentication

/-- The content of a C string, without its terminator. -/
abbrev CString : Type := List UInt8

/-- `AwaitingConnection`. -/
structure AwaitingConnection where
  /-- A pointer to the id string. -/
  id : ℕ
  expiration : ℕ
  deriving DecidableEq

/-- The table, and the memory it refers to. -/
structure AwaitingTable where
  /-- The id strings that are not freed. -/
  ids : ℕ → Option CString
  /-- The connections that are not freed. -/
  conns : ℕ → Option AwaitingConnection
  /-- The entries, from tokens to pointers to connections. -/
  entries : List (CString × ℕ)
  /-- How many calls of `insert` there have been. -/
  next : ℕ

namespace AwaitingTable

/-- `time_to_live`: five minutes. -/
def timeToLive : ℕ := 5 * 60

/-- The empty table. -/
def init : AwaitingTable := ⟨fun _ => none, fun _ => none, [], 0⟩

/-- `awaiting_connection_destroy`. -/
def destroyConnection (c : ℕ) : Exec AwaitingTable Unit := do
  let t ← Exec.get
  let conn ← Exec.need (t.conns c)
  let _ ← Exec.need (t.ids conn.id)
  Exec.modify fun t => { t with ids := Function.update t.ids conn.id none }

/-- Store a value under a key that is present. -/
def replaceEntry (token : CString) (c : ℕ) (entries : List (CString × ℕ)) :
    List (CString × ℕ) :=
  entries.map fun e => if e.1 = token then (e.1, c) else e

/-- Take an entry out. -/
def eraseEntry (token : CString) (entries : List (CString × ℕ)) : List (CString × ℕ) :=
  entries.filter fun e => e.1 ≠ token

/-- The allocation at the start of `awaiting_connections_table_insert`. -/
def alloc (id : CString) (now : ℕ) (t : AwaitingTable) : AwaitingTable :=
  { t with
    ids := Function.update t.ids t.next (some id)
    conns := Function.update t.conns t.next (some ⟨t.next, now + timeToLive⟩)
    next := t.next + 1 }

/-- `awaiting_connections_table_insert` at the time `now`.  A token that is present
is replaced before the call finds out that it should have been refused, and the
connection it is replaced by is freed. -/
def insert (token id : CString) (now : ℕ) : Exec AwaitingTable Bool := do
  let t ← Exec.get
  let c := t.next
  Exec.modify (alloc id now)
  match t.entries.lookup token with
  | none => do
    Exec.modify fun t => { t with entries := (token, c) :: t.entries }
    pure true
  | some old => do
    destroyConnection old
    Exec.modify fun t => { t with entries := replaceEntry token c t.entries }
    destroyConnection c
    Exec.modify fun t => { t with conns := Function.update t.conns c none }
    pure false

/-- `awaiting_connections_table_insert` up to the release of the lock: the connection it has
stored, and whether its token was new. -/
def insertLocked (token id : CString) (now : ℕ) : Exec AwaitingTable (ℕ × Bool) := do
  let t ← Exec.get
  let c := t.next
  Exec.modify (alloc id now)
  match t.entries.lookup token with
  | none => do
    Exec.modify fun t => { t with entries := (token, c) :: t.entries }
    pure (c, true)
  | some old => do
    destroyConnection old
    Exec.modify fun t => { t with entries := replaceEntry token c t.entries }
    pure (c, false)

/-- `free(conn)`. -/
def freeConnection (c : ℕ) : Exec AwaitingTable Unit :=
  Exec.modify fun t => { t with conns := Function.update t.conns c none }

/-- What comes behind the lock is the teardown of a refused connection. -/
theorem insert_eq_locked (token id : CString) (now : ℕ) :
    insert token id now = (do
      let stored ← insertLocked token id now
      if stored.2 then pure true
      else do
        destroyConnection stored.1
        freeConnection stored.1
        pure false) := by
  funext t
  rw [insert, insertLocked, Exec.assoc, Exec.get_bind, Exec.get_bind, Exec.assoc, Exec.modify_bind,
    Exec.modify_bind]
  cases t.entries.lookup token with
  | none => rfl
  | some old =>
    dsimp only
    rw [Exec.assoc]
    rfl

/-- `awaiting_connections_table_remove`, for a caller that keeps its token. -/
def remove (token : CString) : Exec AwaitingTable Bool := do
  let t ← Exec.get
  match t.entries.lookup token with
  | none => pure false
  | some c => do
    Exec.modify fun t => { t with entries := eraseEntry token t.entries }
    destroyConnection c
    pure true

/-- `awaiting_connections_table_find`: a pointer to the id string. -/
def find (key : CString) : Exec AwaitingTable (Option ℕ) := do
  let t ← Exec.get
  match t.entries.lookup key with
  | none => pure none
  | some c => do
    let conn ← Exec.need (t.conns c)
    pure (some conn.id)

/-! ## The entries -/

section Entries

variable {token : CString} {c c' : ℕ} {entries : List (CString × ℕ)}

theorem mem_of_lookup (h : entries.lookup token = some c) : (token, c) ∈ entries := by
  obtain ⟨l₁, l₂, rfl, -⟩ := List.lookup_eq_some_iff.mp h
  exact List.mem_append_right _ List.mem_cons_self

theorem notMem_of_lookup (h : entries.lookup token = none) : (token, c) ∉ entries := by
  intro hmem
  exact absurd (List.lookup_eq_none_iff.mp h (token, c) hmem) (by simp)

theorem map_fst_replaceEntry (token : CString) (c : ℕ) (entries : List (CString × ℕ)) :
    (replaceEntry token c entries).map Prod.fst = entries.map Prod.fst := by
  rw [replaceEntry, List.map_map]
  refine List.map_congr_left fun e _ => ?_
  dsimp only [Function.comp_apply]
  split <;> rfl

/-- What a replaced table contains: the new value under its key, and the old
entries of the other keys. -/
theorem mem_replaceEntry {k : CString} (h : (k, c') ∈ replaceEntry token c entries) :
    k = token ∧ c' = c ∨ k ≠ token ∧ (k, c') ∈ entries := by
  obtain ⟨e, he, heq⟩ := List.mem_map.mp h
  split at heq
  · rename_i hkey
    rw [Prod.mk.injEq] at heq
    exact Or.inl ⟨heq.1 ▸ hkey, heq.2.symm⟩
  · rename_i hkey
    exact Or.inr ⟨fun hk => hkey (by rw [heq]; exact hk), heq ▸ he⟩

theorem mem_eraseEntry {k : CString} :
    (k, c) ∈ eraseEntry token entries ↔ (k, c) ∈ entries ∧ k ≠ token := by
  rw [eraseEntry, List.mem_filter]
  simp

theorem lookup_replaceEntry_self (h : ∃ c', entries.lookup token = some c') :
    (replaceEntry token c entries).lookup token = some c := by
  induction entries with
  | nil =>
    obtain ⟨c', hc'⟩ := h
    exact absurd hc'.symm (Option.some_ne_none c')
  | cons e entries ih =>
    obtain ⟨k, c₀⟩ := e
    rw [replaceEntry, List.map_cons]
    by_cases hk : k = token
    · rw [if_pos hk, List.lookup_cons, hk, beq_self_eq_true]
    · rw [if_neg hk, Assoc.lookup_cons_of_ne _ _ (Ne.symm hk)]
      rw [Assoc.lookup_cons_of_ne _ _ (Ne.symm hk)] at h
      exact ih h

theorem lookup_replaceEntry_of_ne {key : CString} (h : key ≠ token) :
    (replaceEntry token c entries).lookup key = entries.lookup key := by
  induction entries with
  | nil => rfl
  | cons e entries ih =>
    obtain ⟨k, c₀⟩ := e
    rw [replaceEntry, List.map_cons]
    rw [replaceEntry] at ih
    by_cases hk : k = token
    · rw [if_pos hk, Assoc.lookup_cons_of_ne _ _ (hk ▸ h), Assoc.lookup_cons_of_ne _ _ (hk ▸ h), ih]
    · rw [if_neg hk, List.lookup_cons, List.lookup_cons, ih]

end Entries

/-! ## What the calls do to the entries -/

/-- Every token has one entry, every connection belongs to one token, and a
connection carries its own number. -/
structure WellFormed (t : AwaitingTable) : Prop where
  keys : (t.entries.map Prod.fst).Nodup
  inj : ∀ k k' c, (k, c) ∈ t.entries → (k', c) ∈ t.entries → k = k'
  bound : ∀ k c, (k, c) ∈ t.entries → c < t.next
  id_eq : ∀ c conn, t.conns c = some conn → conn.id = c

theorem wellFormed_init : WellFormed init :=
  ⟨List.nodup_nil, fun _ _ _ h => absurd h List.not_mem_nil,
    fun _ _ h => absurd h List.not_mem_nil, fun _ _ h => absurd h.symm (Option.some_ne_none _)⟩

/-- The entry of a token. -/
theorem WellFormed.lookup_eq {token : CString} {c : ℕ} {t : AwaitingTable} (ht : WellFormed t)
    (h : (token, c) ∈ t.entries) :
    t.entries.lookup token = some c := by
  cases hlookup : t.entries.lookup token with
  | none => exact absurd h (notMem_of_lookup hlookup)
  | some c' =>
    have hinj := List.inj_on_of_nodup_map ht.keys (mem_of_lookup hlookup) h rfl
    rw [(Prod.mk.inj hinj).2]

/-- Destroying a connection frees its id string and nothing else. -/
theorem destroyConnection_eq_ok {c : ℕ} {t t' : AwaitingTable} {u : Unit}
    (h : destroyConnection c t = .ok (u, t')) :
    ∃ conn id, t.conns c = some conn ∧ t.ids conn.id = some id ∧
      t' = { t with ids := Function.update t.ids conn.id none } := by
  simp only [destroyConnection, Exec.bind_eq_ok, Exec.get_eq_ok, Exec.need_eq_ok,
    Exec.modify_eq_ok] at h
  obtain ⟨_, _, ⟨rfl, rfl⟩, conn, _, ⟨hconn, rfl⟩, id, _, ⟨hid, rfl⟩, rfl⟩ := h
  exact ⟨conn, id, hconn, hid, rfl⟩

theorem conns_alloc_next (id : CString) (now : ℕ) (t : AwaitingTable) :
    (alloc id now t).conns t.next = some ⟨t.next, now + timeToLive⟩ := Function.update_self _ _ _

theorem ids_alloc_next (id : CString) (now : ℕ) (t : AwaitingTable) :
    (alloc id now t).ids t.next = some id := Function.update_self _ _ _

/-- A token that is not in the table is stored. -/
theorem insert_of_none {token id : CString} {now : ℕ} {b : Bool} {t t' : AwaitingTable}
    (hlookup : t.entries.lookup token = none) (h : insert token id now t = .ok (b, t')) :
    b = true ∧ t' = { alloc id now t with entries := (token, t.next) :: t.entries } := by
  rw [insert, Exec.get_bind,
    Exec.modify_bind, hlookup] at h
  simp only [Exec.bind_eq_ok, Exec.modify_eq_ok, Exec.pure_eq_ok] at h
  obtain ⟨_, _, rfl, rfl, rfl⟩ := h
  exact ⟨rfl, rfl⟩

/-- **A token that is in the table** is refused.  The connection that was stored is destroyed,
and the one that is stored for it is destroyed and freed. -/
theorem insert_of_some {token id : CString} {now old : ℕ} {b : Bool} {t t' : AwaitingTable}
    (hlookup : t.entries.lookup token = some old) (h : insert token id now t = .ok (b, t')) :
    ∃ conn, (alloc id now t).conns old = some conn ∧ b = false ∧ t' =
      { ids := Function.update (Function.update (alloc id now t).ids conn.id none) t.next none
        conns := Function.update (alloc id now t).conns t.next none
        entries := replaceEntry token t.next t.entries
        next := t.next + 1 } := by
  rw [insert, Exec.get_bind,
    Exec.modify_bind, hlookup] at h
  simp only [Exec.bind_eq_ok, Exec.modify_eq_ok, Exec.pure_eq_ok] at h
  obtain ⟨_, _, hold, _, _, rfl, _, _, hnew, _, _, rfl, rfl, rfl⟩ := h
  obtain ⟨conn, _, hconn, -, rfl⟩ := destroyConnection_eq_ok hold
  obtain ⟨new, _, hstored, -, rfl⟩ := destroyConnection_eq_ok hnew
  obtain rfl := Option.some.inj ((conns_alloc_next id now t).symm.trans hstored)
  exact ⟨conn, hconn, rfl, rfl⟩

/-- A token that is not in the table is stored under the lock. -/
theorem insertLocked_of_none {token id : CString} {now : ℕ} {r : ℕ × Bool} {t t' : AwaitingTable}
    (hlookup : t.entries.lookup token = none) (h : insertLocked token id now t = .ok (r, t')) :
    r = (t.next, true) ∧ t' = { alloc id now t with entries := (token, t.next) :: t.entries } := by
  rw [insertLocked, Exec.get_bind, Exec.modify_bind, hlookup] at h
  simp only [Exec.bind_eq_ok, Exec.modify_eq_ok, Exec.pure_eq_ok] at h
  obtain ⟨_, _, rfl, rfl, rfl⟩ := h
  exact ⟨rfl, rfl⟩

/-- Of a token that is in the table the lock protects the first half: the connection that was
stored is destroyed, and the new one is in its place. -/
theorem insertLocked_of_some {token id : CString} {now old : ℕ} {r : ℕ × Bool}
    {t t' : AwaitingTable} (hlookup : t.entries.lookup token = some old)
    (h : insertLocked token id now t = .ok (r, t')) :
    ∃ conn, (alloc id now t).conns old = some conn ∧ r = (t.next, false) ∧ t' =
      { alloc id now t with
        ids := Function.update (alloc id now t).ids conn.id none
        entries := replaceEntry token t.next t.entries } := by
  rw [insertLocked, Exec.get_bind, Exec.modify_bind, hlookup] at h
  simp only [Exec.bind_eq_ok, Exec.modify_eq_ok, Exec.pure_eq_ok] at h
  obtain ⟨_, _, hold, _, _, rfl, rfl, rfl⟩ := h
  obtain ⟨conn, _, hconn, -, rfl⟩ := destroyConnection_eq_ok hold
  exact ⟨conn, hconn, rfl, rfl⟩

theorem conn_of_alloc (id : CString) (now : ℕ) {c : ℕ} {conn : AwaitingConnection}
    {t : AwaitingTable} (hconn : (alloc id now t).conns c = some conn) :
    conn.id = c ∨ t.conns c = some conn := by
  by_cases hc : c = t.next
  · rw [hc, conns_alloc_next, Option.some.injEq] at hconn
    exact Or.inl (by rw [← hconn, hc])
  · rw [alloc] at hconn
    dsimp only at hconn
    rw [Function.update_of_ne hc] at hconn
    exact Or.inr hconn

/-- The new number is stored under the token, and the other entries are left. -/
structure Stores (token : CString) (t t' : AwaitingTable) : Prop where
  next_eq : t'.next = t.next + 1
  entries : t'.entries = (token, t.next) :: t.entries ∧ (∀ c, (token, c) ∉ t.entries) ∨
    t'.entries = replaceEntry token t.next t.entries
  conns : ∀ c conn, t'.conns c = some conn → conn.id = c ∨ t.conns c = some conn

/-- `insert` stores the new number under its token and leaves the other entries. -/
theorem insert_eq_ok {token id : CString} {now : ℕ} {b : Bool} {t t' : AwaitingTable}
    (h : insert token id now t = .ok (b, t')) : Stores token t t' := by
  cases hlookup : t.entries.lookup token with
  | none =>
    obtain ⟨-, rfl⟩ := insert_of_none hlookup h
    exact ⟨rfl, Or.inl ⟨rfl, fun c => notMem_of_lookup hlookup⟩,
      fun _ _ => conn_of_alloc id now⟩
  | some old =>
    obtain ⟨_, -, -, rfl⟩ := insert_of_some hlookup h
    refine ⟨rfl, Or.inr rfl, fun c conn hconn => conn_of_alloc id now ?_⟩
    dsimp only at hconn
    by_cases hc : c = t.next
    · rw [hc, Function.update_self] at hconn
      exact absurd hconn.symm (Option.some_ne_none _)
    · rwa [Function.update_of_ne hc] at hconn

/-- So does its half under the lock. -/
theorem insertLocked_eq_ok {token id : CString} {now : ℕ} {r : ℕ × Bool} {t t' : AwaitingTable}
    (h : insertLocked token id now t = .ok (r, t')) : Stores token t t' := by
  cases hlookup : t.entries.lookup token with
  | none =>
    obtain ⟨-, rfl⟩ := insertLocked_of_none hlookup h
    exact ⟨rfl, Or.inl ⟨rfl, fun c => notMem_of_lookup hlookup⟩,
      fun _ _ => conn_of_alloc id now⟩
  | some old =>
    obtain ⟨_, -, -, rfl⟩ := insertLocked_of_some hlookup h
    exact ⟨rfl, Or.inr rfl, fun _ _ => conn_of_alloc id now⟩

/-- After that an entry is the new one or an old one. -/
theorem Stores.mem_entries {token k : CString} {c : ℕ} {t t' : AwaitingTable}
    (h : Stores token t t') (hmem : (k, c) ∈ t'.entries) :
    k = token ∧ c = t.next ∨ k ≠ token ∧ (k, c) ∈ t.entries := by
  rcases h.entries with ⟨hentries, hfree⟩ | hentries
  · rw [hentries, List.mem_cons, Prod.mk.injEq] at hmem
    refine hmem.imp_right fun hold => ⟨?_, hold⟩
    rintro rfl
    exact hfree c hold
  · rw [hentries] at hmem
    exact mem_replaceEntry hmem

theorem mem_entries_of_insert {token id : CString} {now : ℕ} {b : Bool} {t t' : AwaitingTable}
    (h : insert token id now t = .ok (b, t')) {k : CString} {c : ℕ} (hmem : (k, c) ∈ t'.entries) :
    k = token ∧ c = t.next ∨ k ≠ token ∧ (k, c) ∈ t.entries :=
  (insert_eq_ok h).mem_entries hmem

theorem Stores.wellFormed {token : CString} {t t' : AwaitingTable} (h : Stores token t t')
    (ht : WellFormed t) : WellFormed t' := by
  refine ⟨?_, ?_, ?_, fun c conn hconn => (h.conns c conn hconn).elim id (ht.id_eq c conn)⟩
  · rcases h.entries with ⟨hentries, hfree⟩ | hentries
    · rw [hentries, List.map_cons, List.nodup_cons]
      refine ⟨fun hmem => ?_, ht.keys⟩
      obtain ⟨⟨k, c⟩, he, rfl⟩ := List.mem_map.mp hmem
      exact hfree c he
    · rw [hentries, map_fst_replaceEntry]
      exact ht.keys
  · intro k k' c hk hk'
    rcases h.mem_entries hk with ⟨rfl, rfl⟩ | ⟨-, hk⟩
    · rcases h.mem_entries hk' with ⟨rfl, -⟩ | ⟨-, hk'⟩
      · rfl
      · exact absurd (ht.bound k' _ hk') (Nat.lt_irrefl _)
    · rcases h.mem_entries hk' with ⟨-, rfl⟩ | ⟨-, hk'⟩
      · exact absurd (ht.bound k _ hk) (Nat.lt_irrefl _)
      · exact ht.inj k k' c hk hk'
  · intro k c hk
    rcases h.mem_entries hk with ⟨-, rfl⟩ | ⟨-, hk⟩
    · rw [h.next_eq]
      exact Nat.lt_succ_self _
    · rw [h.next_eq]
      exact Nat.lt_succ_of_lt (ht.bound k c hk)

theorem WellFormed.insert {token id : CString} {now : ℕ} {b : Bool} {t t' : AwaitingTable}
    (ht : WellFormed t) (h : insert token id now t = .ok (b, t')) : WellFormed t' :=
  (insert_eq_ok h).wellFormed ht

/-- A token that is not in the table is not removed. -/
theorem remove_of_none {token : CString} {b : Bool} {t t' : AwaitingTable}
    (hlookup : t.entries.lookup token = none) (h : remove token t = .ok (b, t')) :
    b = false ∧ t' = t := by
  rw [remove, Exec.get_bind, hlookup] at h
  obtain ⟨rfl, rfl⟩ := Exec.pure_eq_ok.mp h
  exact ⟨rfl, rfl⟩

/-- A token that is removed: its connection is destroyed. -/
theorem remove_of_some {token : CString} {c : ℕ} {b : Bool} {t t' : AwaitingTable}
    (hlookup : t.entries.lookup token = some c) (h : remove token t = .ok (b, t')) :
    ∃ conn, t.conns c = some conn ∧ b = true ∧ t' =
      { t with
        ids := Function.update t.ids conn.id none
        entries := eraseEntry token t.entries } := by
  rw [remove, Exec.get_bind, hlookup] at h
  simp only [Exec.bind_eq_ok, Exec.modify_eq_ok, Exec.pure_eq_ok] at h
  obtain ⟨_, _, rfl, _, _, hdestroy, rfl, rfl⟩ := h
  obtain ⟨conn, _, hconn, -, rfl⟩ := destroyConnection_eq_ok hdestroy
  exact ⟨conn, hconn, rfl, rfl⟩

/-- A token whose connection and id are there can be removed. -/
theorem remove_returns {token id : CString} {c : ℕ} {conn : AwaitingConnection} {t : AwaitingTable}
    (hlookup : t.entries.lookup token = some c) (hconn : t.conns c = some conn)
    (hid : t.ids conn.id = some id) : ∃ t', remove token t = .ok (true, t') := by
  have hdestroy : ∃ t', destroyConnection c { t with entries := eraseEntry token t.entries }
      = .ok ((), t') := by
    simp only [destroyConnection, Exec.bind_eq_ok, Exec.get_eq_ok, Exec.need_eq_ok,
      Exec.modify_eq_ok]
    exact ⟨_, _, _, ⟨rfl, rfl⟩, conn, _, ⟨hconn, rfl⟩, id, _, ⟨hid, rfl⟩, rfl⟩
  obtain ⟨t', hdestroy⟩ := hdestroy
  refine ⟨t', ?_⟩
  rw [remove, Exec.get_bind, hlookup]
  exact (Exec.modify_bind _ _ _).trans (Exec.bind_of_ok hdestroy)

/-- `remove` takes out the entry of its token, if there is one. -/
theorem remove_eq_ok {token : CString} {b : Bool} {t t' : AwaitingTable}
    (h : remove token t = .ok (b, t')) :
    t'.next = t.next ∧ t'.conns = t.conns ∧ t'.entries = eraseEntry token t.entries := by
  cases hlookup : t.entries.lookup token with
  | none =>
    obtain ⟨-, rfl⟩ := remove_of_none hlookup h
    refine ⟨rfl, rfl, (List.filter_eq_self.mpr fun e he => ?_).symm⟩
    obtain ⟨k, c⟩ := e
    refine decide_eq_true fun hk => ?_
    subst hk
    exact notMem_of_lookup hlookup he
  | some c =>
    obtain ⟨_, -, -, rfl⟩ := remove_of_some hlookup h
    exact ⟨rfl, rfl, rfl⟩

theorem WellFormed.remove {token : CString} {b : Bool} {t t' : AwaitingTable}
    (ht : WellFormed t) (h : remove token t = .ok (b, t')) : WellFormed t' := by
  obtain ⟨hnext, hconns, hentries⟩ := remove_eq_ok h
  have hsub : ∀ k c, (k, c) ∈ t'.entries → (k, c) ∈ t.entries := fun k c hk => by
    rw [hentries] at hk
    exact (mem_eraseEntry.mp hk).1
  refine ⟨?_, fun k k' c hk hk' => ht.inj k k' c (hsub k c hk) (hsub k' c hk'),
    fun k c hk => hnext ▸ ht.bound k c (hsub k c hk), fun c conn hconn => ?_⟩
  · rw [hentries]
    exact ht.keys.sublist (List.filter_sublist.map Prod.fst)
  · rw [hconns] at hconn
    exact ht.id_eq c conn hconn

/-- A key that is in the table leads to the id string of its connection. -/
theorem find_of_some {key : CString} {c : ℕ} {conn : AwaitingConnection} {t : AwaitingTable}
    (hlookup : t.entries.lookup key = some c) (hconn : t.conns c = some conn) :
    find key t = .ok (some conn.id, t) := by
  rw [find, Exec.get_bind, hlookup]
  exact Exec.bind_of_ok (Exec.need_eq_ok.mpr ⟨hconn, rfl⟩)

/-- What `find` returns, for the entry of its key. -/
theorem find_cases {key : CString} {p : Option ℕ} {t t' : AwaitingTable}
    (h : find key t = .ok (p, t')) : t' = t ∧ (t.entries.lookup key = none ∧ p = none ∨
      ∃ c conn, t.entries.lookup key = some c ∧ t.conns c = some conn ∧ p = some conn.id) := by
  rw [find, Exec.get_bind] at h
  cases hlookup : t.entries.lookup key with
  | none =>
    rw [hlookup] at h
    obtain ⟨rfl, rfl⟩ := Exec.pure_eq_ok.mp h
    exact ⟨rfl, Or.inl ⟨rfl, rfl⟩⟩
  | some c =>
    rw [hlookup] at h
    simp only [Exec.bind_eq_ok, Exec.need_eq_ok, Exec.pure_eq_ok] at h
    obtain ⟨conn, _, ⟨hconn, rfl⟩, rfl, rfl⟩ := h
    exact ⟨rfl, Or.inr ⟨c, conn, rfl, hconn, rfl⟩⟩

/-- What `find` returns belongs to the entry of its key. -/
theorem find_eq_ok {key : CString} {p : Option ℕ} {t t' : AwaitingTable} (ht : WellFormed t)
    (h : find key t = .ok (p, t')) : t' = t ∧ ∀ c, p = some c → (key, c) ∈ t.entries := by
  obtain ⟨rfl, ⟨-, rfl⟩ | ⟨c, conn, hlookup, hconn, rfl⟩⟩ := find_cases h
  · exact ⟨rfl, fun c hc => absurd hc.symm (Option.some_ne_none c)⟩
  · refine ⟨rfl, fun c' hc' => ?_⟩
    rw [← Option.some.inj hc', ht.id_eq c conn hconn]
    exact mem_of_lookup hlookup

end AwaitingTable

end Authentication
end MmoBackend
