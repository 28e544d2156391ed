import MmoBackend.Authentication.AwaitingConnections

/-!
# A token that is inserted twice

`awaiting_connections_table_insert` finds out whether its token is in the table and then
inserts in any case.  On a present key `g_hash_table_insert` keeps the key, destroys the
value and stores the new one, so when the call comes to its teardown the table already
refers to the connection it is about to free.

Nothing else of the table is touched, `entryOf_insert_refused`, but the entry of the token
is lost, and it stays in the table: the next lookup of the token follows a pointer to freed
memory (`find_refused`), and a second duplicate destroys the connection again
(`insert_refused_twice`).
-/

namespace MmoBackend
namespace Authentication
namespace AwaitingTable

variable {t t' : AwaitingTable} {token id : CString} {now old : ℕ} {b : Bool}

/-- The account id and the expiration a token is mapped to. -/
def entryOf (t : AwaitingTable) (token : CString) : Option (CString × ℕ) := do
  let c ← t.entries.lookup token
  let conn ← t.conns c
  let id ← t.ids conn.id
  pure (id, conn.expiration)

/-- No entry refers to a connection or to an id string that is freed. -/
def AllLive (t : AwaitingTable) : Prop :=
  ∀ token c, (token, c) ∈ t.entries →
    ∃ conn id, t.conns c = some conn ∧ t.ids conn.id = some id

/-- Every token is mapped to what it was mapped to before, and no entry dangles. -/
structure LeftAsBefore (t t' : AwaitingTable) : Prop where
  entryOf_eq : ∀ token, t'.entryOf token = t.entryOf token
  live : AllLive t'

/-! ## What a refused call leaves behind -/

/-- The new value is stored under the token, and its connection is freed. -/
theorem dangling_of_refused (hlookup : t.entries.lookup token = some old)
    (h : insert token id now t = .ok (b, t')) :
    b = false ∧ t'.entries.lookup token = some t.next ∧ t'.conns t.next = none := by
  obtain ⟨conn, -, rfl, rfl⟩ := insert_of_some hlookup h
  exact ⟨rfl, lookup_replaceEntry_self ⟨old, hlookup⟩, Function.update_self _ _ _⟩

/-- **A refused token is lost, and no other one.** -/
theorem entryOf_insert_refused (ht : WellFormed t) (hlookup : t.entries.lookup token = some old)
    (h : insert token id now t = .ok (b, t')) :
    t'.entryOf = Function.update t.entryOf token none := by
  obtain ⟨-, hself, hfreed⟩ := dangling_of_refused hlookup h
  funext key
  rw [Function.update_apply]
  split
  · rename_i hkey
    rw [hkey, entryOf, hself, Option.bind_eq_bind, Option.bind_some, hfreed]
    rfl
  · rename_i hkey
    obtain ⟨conn, hconn, -, rfl⟩ := insert_of_some hlookup h
    have hold := ht.bound token old (mem_of_lookup hlookup)
    have hconn' : t.conns old = some conn :=
      (Function.update_of_ne (Nat.ne_of_lt hold) _ _).symm.trans hconn
    obtain rfl : conn.id = old := ht.id_eq old conn hconn'
    rw [entryOf, entryOf]
    dsimp only
    rw [lookup_replaceEntry_of_ne hkey]
    refine Option.bind_congr fun c hc => ?_
    -- the entry of another token has a connection and an id string of its own
    have hmem := mem_of_lookup hc
    have hnext : c ≠ t.next := Nat.ne_of_lt (ht.bound key c hmem)
    have hne : c ≠ conn.id := by
      rintro rfl
      exact hkey (ht.inj key token _ hmem (mem_of_lookup hlookup))
    rw [Function.update_of_ne hnext, alloc]
    dsimp only
    rw [Function.update_of_ne hnext]
    refine Option.bind_congr fun other hother => ?_
    rw [ht.id_eq c other hother, Function.update_of_ne hnext, Function.update_of_ne hne,
      Function.update_of_ne hnext]

/-- Looking a refused token up follows a pointer to freed memory. -/
theorem find_refused (hlookup : t.entries.lookup token = some old)
    (h : insert token id now t = .ok (b, t')) : find token t' = .error .fault := by
  obtain ⟨-, hself, hfreed⟩ := dangling_of_refused hlookup h
  rw [find, Exec.get_bind, hself]
  dsimp only
  rw [hfreed]
  rfl

/-- A second duplicate destroys the freed connection once more. -/
theorem insert_refused_twice (hlookup : t.entries.lookup token = some old)
    (h : insert token id now t = .ok (b, t')) (id' : CString) (now' : ℕ) :
    insert token id' now' t' = .error .fault := by
  obtain ⟨-, hself, hfreed⟩ := dangling_of_refused hlookup h
  have hnext : t'.next = t.next + 1 := (insert_eq_ok h).next_eq
  have hfreed' : (alloc id' now' t').conns t.next = none :=
    (Function.update_of_ne (by omega) _ _).trans hfreed
  rw [insert, Exec.get_bind,
    Exec.modify_bind, hself]
  refine Exec.bind_of_error ?_
  rw [destroyConnection, Exec.get_bind, hfreed']
  rfl

/-! ## The table after a call -/

/-- **A refused insertion never leaves the table as it was.**  Whatever the table holds: if a
call that returns `0` is to leave every entry as it was and none of them dangling, then the
token must not be in the table, and of such a token no call returns `0`. -/
theorem refusedInsert_iff (h : insert token id now t = .ok (b, t')) :
    (b = false → LeftAsBefore t t') ↔ t.entries.lookup token = none := by
  cases hlookup : t.entries.lookup token with
  | none =>
    obtain ⟨rfl, -⟩ := insert_of_none hlookup h
    exact iff_of_true (fun hfalse => Bool.noConfusion hfalse) rfl
  | some old =>
    obtain ⟨rfl, hself, hfreed⟩ := dangling_of_refused hlookup h
    refine iff_of_false (fun hleft => ?_) (Option.some_ne_none old)
    obtain ⟨conn, -, hconn, -⟩ := (hleft rfl).live token t.next (mem_of_lookup hself)
    exact absurd (hconn.symm.trans hfreed) (Option.some_ne_none conn)

/-- The token `t` is stored for the account `a`. -/
def storedToken : AwaitingTable :=
  { alloc [97] 0 init with entries := [([116], 0)] }

/-- The table when another account was to be stored for it. -/
def refusedToken : AwaitingTable where
  ids := Function.update (Function.update (alloc [98] 5 storedToken).ids 0 none) 1 none
  conns := Function.update (alloc [98] 5 storedToken).conns 1 none
  entries := [([116], 1)]
  next := 2

theorem insert_storedToken :
    insert [116] [98] 5 storedToken = .ok (false, refusedToken) := rfl

/-- One token that is refused, and one that is stored. -/
theorem refusedInsert_iff_storedToken :
    ((false = false → LeftAsBefore storedToken refusedToken) ↔
      storedToken.entries.lookup [116] = none) ∧
    ∃ t', insert [117] [98] 5 storedToken = .ok (true, t') ∧
      ((true = false → LeftAsBefore storedToken t') ↔ storedToken.entries.lookup [117] = none) := by
  have hstored : insert [117] [98] 5 storedToken = .ok (true, _) := rfl
  exact ⟨refusedInsert_iff insert_storedToken, _, hstored, refusedInsert_iff hstored⟩

/-- **A refused token dangles.** -/
theorem not_leftAsBefore : ¬∀ t token id now t', insert token id now t = .ok (false, t') →
    LeftAsBefore t t' := by
  intro h
  obtain ⟨conn, -, hconn, -⟩ := (h _ _ _ _ _ insert_storedToken).live [116] 1 List.mem_cons_self
  have hfreed : refusedToken.conns 1 = none := rfl
  exact absurd (hconn.symm.trans hfreed) (Option.some_ne_none conn)

end AwaitingTable
end Authentication
end MmoBackend
