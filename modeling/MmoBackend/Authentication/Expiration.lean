import Mathlib.Data.List.Nodup
import MmoBackend.Authentication.AwaitingConnections
import MmoBackend.Library.Trace

/-!
# How long a token can be used

A token is stored with the time it expires at, `time_to_live` after it was inserted.  A
lookup does not compare that time with the present one.  The only code that reads it is the
cleaner, a thread that wakes up every `time_to_live` and removes what has expired, so
between its expiration and the next pass of the cleaner a token is found like any other.

A schedule is a list of calls with the times they are made at.  `expires` computes from the
schedule alone which tokens are stored and when they expire, `storedExpiration_run` says
that the table agrees with it, and `find_beforeExpiration_iff` is the condition on the
schedule under which no lookup finds an expired token.

The cleaner removes entries from the table that `g_hash_table_foreach` is iterating over,
which GLib does not allow.  What is known is that a loop whose calls change nothing comes
to every entry.  So `Foreach` leaves open which of the entries come behind a change.
-/

namespace MmoBackend
namespace Authentication
namespace AwaitingTable

/-! ## The cleaner -/

/-- `awaiting_connections_table_check_if_expired`, for an entry of the table.  The caller
frees the token. -/
def checkIfExpired (now : ℕ) (e : CString × ℕ) : Exec AwaitingTable Unit := do
  let t ← Exec.get
  let conn ← Exec.need (t.conns e.2)
  if conn.expiration ≤ now then do
    let _ ← remove e.1
    pure ()
  else pure ()

/-- Calls of `f` for entries, each of which is in the table when its turn comes. -/
inductive Visits (f : CString × ℕ → Exec AwaitingTable Unit) :
    AwaitingTable → List (CString × ℕ) → AwaitingTable → Prop
  | nil {t : AwaitingTable} : Visits f t [] t
  | cons {t t₁ t' : AwaitingTable} {e : CString × ℕ} {visited : List (CString × ℕ)} :
      e ∈ t.entries → f e t = .ok ((), t₁) → Visits f t₁ visited t' → Visits f t (e :: visited) t'

/-- `g_hash_table_foreach`.  If the calls of `f` do not add or remove entries, it visits every
entry. -/
structure Foreach (f : CString × ℕ → Exec AwaitingTable Unit) (t : AwaitingTable)
    (visited : List (CString × ℕ)) (t' : AwaitingTable) : Prop where
  visits : Visits f t visited t'
  all : t'.entries = t.entries → ∀ e ∈ t.entries, e ∈ visited

/-! ## Schedules -/

/-- The calls. -/
inductive Call where
  | insert (token id : CString)
  /-- The removal of a token that has logged in. -/
  | remove (token : CString)
  /-- A pass of the cleaner that comes to these tokens. -/
  | pass (visited : List CString)
  /-- A lookup, and the pointer it returns. -/
  | find (key : CString) (found : Option ℕ)

/-- The table, and the time of the last call. -/
structure Clocked where
  table : AwaitingTable
  now : ℕ

/-- A call at a time that is not earlier than the last one. -/
inductive TimedStep (s : Clocked) : ℕ × Call → Clocked → Prop
  | insert {now : ℕ} {token id : CString} {b : Bool} {t : AwaitingTable} :
      s.now ≤ now → insert token id now s.table = .ok (b, t) →
      TimedStep s (now, .insert token id) ⟨t, now⟩
  | remove {now : ℕ} {token : CString} {b : Bool} {t : AwaitingTable} :
      s.now ≤ now → remove token s.table = .ok (b, t) → TimedStep s (now, .remove token) ⟨t, now⟩
  | pass {now : ℕ} {visited : List (CString × ℕ)} {t : AwaitingTable} :
      s.now ≤ now → Foreach (checkIfExpired now) s.table visited t →
      TimedStep s (now, .pass (visited.map Prod.fst)) ⟨t, now⟩
  | find {now : ℕ} {key : CString} {found : Option ℕ} {t : AwaitingTable} :
      s.now ≤ now → find key s.table = .ok (found, t) → TimedStep s (now, .find key found) ⟨t, now⟩

/-- The expirations of the tokens behind a call at the time `now`, if they were `D` in front
of it.  A token that is stored is refused, and then its entry is no longer of use. -/
def Call.expires (now : ℕ) (D : CString → Option ℕ) : Call → CString → Option ℕ
  | .insert token _, key =>
    if key = token then if D token = none then some (now + timeToLive) else none else D key
  | .remove token, key => if key = token then none else D key
  | .pass visited, key => if key ∈ visited then (D key).filter fun d => now < d else D key
  | .find _ _, key => D key

/-- The expirations of the tokens behind a schedule. -/
def expires (l : List (ℕ × Call)) : CString → Option ℕ :=
  l.foldl (fun D call => call.2.expires call.1 D) fun _ => none

/-- A call that leaves a token that expires at `d` in the table. -/
def Spares (key : CString) (d : ℕ) (call : ℕ × Call) : Prop :=
  match call.2 with
  | .insert token _ | .remove token => key ≠ token
  | .pass visited => key ∈ visited → call.1 < d
  | .find _ _ => True

/-- Every lookup of a token comes less than `time_to_live` after the insertion of the token,
or after a call that has taken it out. -/
def InTime (l : List (ℕ × Call)) : Prop :=
  ∀ l₁ inserted key id l₂ now found l₃,
    l = (l₁ ++ (inserted, .insert key id) :: l₂) ++ (now, .find key found) :: l₃ →
      expires l₁ key = none → (∀ call ∈ l₂, Spares key (inserted + timeToLive) call) →
        now < inserted + timeToLive

/-- The expiration that is stored for a token. -/
def storedExpiration (t : AwaitingTable) (token : CString) : Option ℕ :=
  (t.entries.lookup token).bind fun c => (t.conns c).map AwaitingConnection.expiration

/-- A call that finds a token is made before the token expires.  The table is the one behind
the call; a lookup does not change it. -/
def BeforeExpiration (call : ℕ × Call) (s : Clocked) : Prop :=
  ∀ key p, call.2 = .find key (some p) → ∃ d, s.table.storedExpiration key = some d ∧ call.1 < d

variable {t t' : AwaitingTable} {token key id : CString} {now d c : ℕ} {b : Bool}
  {s s' : Clocked} {call : ℕ × Call} {l : List ((ℕ × Call) × Clocked)}

/-! ## What the calls do to the expirations -/

/-- An allocation does not touch the connections that are there. -/
theorem conns_alloc_of_lookup (ht : WellFormed t) (h : t.entries.lookup key = some c) :
    (alloc id now t).conns c = t.conns c :=
  Function.update_of_ne (Nat.ne_of_lt (ht.bound key c (mem_of_lookup h))) _ _

/-- **`awaiting_connections_table_insert`.** -/
theorem storedExpiration_insert (ht : WellFormed t) (h : insert token id now t = .ok (b, t')) :
    t'.storedExpiration = Call.expires now t.storedExpiration (.insert token id) := by
  funext key
  show _ = if key = token then if t.storedExpiration token = none then some (now + timeToLive)
    else none else t.storedExpiration key
  cases hlookup : t.entries.lookup token with
  | none =>
    obtain ⟨-, rfl⟩ := insert_of_none hlookup h
    by_cases hkey : key = token
    · subst hkey
      have hnone : t.storedExpiration key = none := by rw [storedExpiration, hlookup]; rfl
      rw [if_pos rfl, if_pos hnone, storedExpiration]
      simp [alloc]
    · rw [if_neg hkey, storedExpiration, storedExpiration,
        Assoc.lookup_cons_of_ne _ _ hkey]
      refine Option.bind_congr fun c hc => ?_
      rw [conns_alloc_of_lookup ht hc]
  | some old =>
    obtain ⟨conn, hconn, -, rfl⟩ := insert_of_some hlookup h
    rw [conns_alloc_of_lookup ht hlookup] at hconn
    by_cases hkey : key = token
    · subst hkey
      have hstored : t.storedExpiration key = some conn.expiration := by
        rw [storedExpiration, hlookup, Option.bind_some, hconn]
        rfl
      rw [if_pos rfl, if_neg (by simp [hstored]), storedExpiration]
      dsimp only
      rw [lookup_replaceEntry_self ⟨old, hlookup⟩, Option.bind_some, Function.update_self]
      rfl
    · rw [if_neg hkey, storedExpiration, storedExpiration]
      dsimp only
      rw [lookup_replaceEntry_of_ne hkey]
      refine Option.bind_congr fun c hc => ?_
      rw [Function.update_of_ne (Nat.ne_of_lt (ht.bound key c (mem_of_lookup hc))),
        conns_alloc_of_lookup ht hc]

/-- **`awaiting_connections_table_remove`.** -/
theorem storedExpiration_remove (h : remove token t = .ok (b, t')) :
    t'.storedExpiration = Call.expires now t.storedExpiration (.remove token) := by
  funext key
  obtain ⟨-, hconns, hentries⟩ := remove_eq_ok h
  show _ = if key = token then none else t.storedExpiration key
  rw [storedExpiration, hentries, hconns, eraseEntry]
  by_cases hkey : key = token
  · rw [if_pos hkey, hkey, Assoc.lookup_filter_self]
    rfl
  · rw [if_neg hkey, Assoc.lookup_filter_of_ne _ hkey]
    rfl

/-- **`awaiting_connections_table_find`** finds the tokens that are stored. -/
theorem find_storedExpiration {found : Option ℕ} (h : find key t = .ok (found, t')) :
    t' = t ∧ (found = none ↔ t.storedExpiration key = none) := by
  obtain ⟨rfl, ⟨hlookup, rfl⟩ | ⟨c, conn, hlookup, hconn, rfl⟩⟩ := find_cases h
  · refine ⟨rfl, iff_of_true rfl ?_⟩
    rw [storedExpiration, hlookup]
    rfl
  · refine ⟨rfl, iff_of_false (Option.some_ne_none _) ?_⟩
    rw [storedExpiration, hlookup, Option.bind_some, hconn]
    exact Option.some_ne_none _

/-- One call of the cleaner. -/
theorem checkIfExpired_eq_ok {e : CString × ℕ} {u : Unit} (ht : WellFormed t) (he : e ∈ t.entries)
    (h : checkIfExpired now e t = .ok (u, t')) :
    WellFormed t' ∧ t'.storedExpiration
      = Call.expires now t.storedExpiration (.pass [e.1]) := by
  obtain ⟨k, c⟩ := e
  simp only [checkIfExpired, Exec.bind_eq_ok, Exec.get_eq_ok, Exec.need_eq_ok, Exec.ite_eq_ok,
    Exec.pure_eq_ok] at h
  obtain ⟨_, _, ⟨rfl, rfl⟩, conn, _, ⟨hconn, rfl⟩, h⟩ := h
  have hstored : t.storedExpiration k = some conn.expiration := by
    rw [storedExpiration, ht.lookup_eq he, Option.bind_some, hconn]
    rfl
  rcases h with ⟨hexpired, b, _, hremove, -, rfl⟩ | ⟨hfresh, -, rfl⟩
  · refine ⟨ht.remove hremove, ?_⟩
    rw [@storedExpiration_remove _ _ _ now _ hremove]
    funext key
    show (if key = k then none else t.storedExpiration key) = if key ∈ [k] then
      (t.storedExpiration key).filter fun d => now < d else t.storedExpiration key
    by_cases hkey : key = k
    · rw [if_pos hkey, if_pos (List.mem_singleton.mpr hkey), hkey, hstored]
      exact (Option.filter_some_neg (p := fun d => now < d)
        (decide_eq_false (Nat.not_lt.mpr hexpired))).symm
    · rw [if_neg hkey, if_neg fun hmem => hkey (List.mem_singleton.mp hmem)]
  · refine ⟨ht, ?_⟩
    funext key
    show t.storedExpiration key = if key ∈ [k] then
      (t.storedExpiration key).filter fun d => now < d else t.storedExpiration key
    by_cases hkey : key = k
    · rw [if_pos (List.mem_singleton.mpr hkey), hkey, hstored]
      exact (Option.filter_some_pos (p := fun d => now < d)
        (decide_eq_true (Nat.lt_of_not_le hfresh))).symm
    · rw [if_neg fun hmem => hkey (List.mem_singleton.mp hmem)]

/-- **A pass of the cleaner.** -/
theorem Visits.storedExpiration {visited : List (CString × ℕ)} (ht : WellFormed t)
    (h : Visits (checkIfExpired now) t visited t') :
    WellFormed t' ∧ t'.storedExpiration
      = Call.expires now t.storedExpiration (.pass (visited.map Prod.fst)) := by
  induction h with
  | nil => exact ⟨ht, rfl⟩
  | @cons t t₁ t' e visited he hcall hrest ih =>
    obtain ⟨ht₁, h₁⟩ := checkIfExpired_eq_ok ht he hcall
    obtain ⟨ht', h'⟩ := ih ht₁
    refine ⟨ht', ?_⟩
    rw [h', h₁]
    funext key
    simp only [Call.expires, List.map_cons, List.mem_cons, List.not_mem_nil, or_false]
    by_cases hkey : key = e.1
    · rw [if_pos hkey, if_pos (Or.inl hkey), Option.filter_filter]
      simp
    · rw [if_neg hkey]
      simp only [hkey, false_or]

/-! ## Runs -/

theorem expires_concat (l : List (ℕ × Call)) (call : ℕ × Call) :
    expires (l ++ [call]) = call.2.expires call.1 (expires l) := by
  rw [expires, List.foldl_append]
  rfl

theorem Call.expires_eq_some_iff {D : CString → Option ℕ} :
    call.2.expires call.1 D key = some d ↔ D key = some d ∧ Spares key d call ∨
      ∃ id, call.2 = .insert key id ∧ D key = none ∧ d = call.1 + timeToLive := by
  obtain ⟨now, call⟩ := call
  cases call with
  | insert token id =>
    simp only [Call.expires, Spares, Call.insert.injEq]
    by_cases hkey : key = token
    · subst hkey
      by_cases hD : D key = none
      · simp [hD, eq_comm]
      · simp [hD]
    · simp [hkey, Ne.symm hkey]
  | remove token =>
    simp only [Call.expires, Spares]
    by_cases hkey : key = token
    · simp [hkey]
    · simp [hkey]
  | pass visited =>
    simp only [Call.expires, Spares]
    by_cases hkey : key ∈ visited
    · simp [hkey]
    · simp [hkey]
  | find => simp [Call.expires, Spares]

/-- **When a token is stored, and until when it is valid**: it was inserted while it was not
stored, and no call since has taken it out.  It expires `time_to_live` after the insertion. -/
theorem expires_eq_some_iff {l : List (ℕ × Call)} : expires l key = some d ↔
    ∃ l₁ now id l₂, l = l₁ ++ (now, .insert key id) :: l₂ ∧ expires l₁ key = none ∧
      d = now + timeToLive ∧ ∀ call ∈ l₂, Spares key d call := by
  induction l using List.reverseRecOn with
  | nil => exact iff_of_false (Option.some_ne_none d).symm (by simp)
  | append_singleton l call ih =>
    rw [expires_concat, Call.expires_eq_some_iff, ih]
    constructor
    · rintro (⟨⟨l₁, now, id, l₂, rfl, hnone, hd, hall⟩, hlast⟩ | ⟨id, hcall, hnone, hd⟩)
      · refine ⟨l₁, now, id, l₂ ++ [call], by simp, hnone, hd, ?_⟩
        rw [List.forall_mem_append, List.forall_mem_singleton]
        exact ⟨hall, hlast⟩
      · exact ⟨l, call.1, id, [], by rw [← hcall], hnone, hd, by simp⟩
    · rintro ⟨l₁, now, id, l₂, hl, hnone, hd, hall⟩
      rcases List.eq_nil_or_concat l₂ with rfl | ⟨l₂, call', rfl⟩
      · obtain ⟨rfl, hcall⟩ := List.append_inj' hl rfl
        obtain rfl := List.singleton_inj.mp hcall
        exact Or.inr ⟨id, rfl, hnone, hd⟩
      · have hl' : l ++ [call] = (l₁ ++ (now, .insert key id) :: l₂) ++ [call'] := by
          rw [hl]
          simp
        obtain ⟨rfl, hcall⟩ := List.append_inj' hl' rfl
        obtain rfl := List.singleton_inj.mp hcall
        rw [List.concat_eq_append, List.forall_mem_append, List.forall_mem_singleton] at hall
        exact Or.inl ⟨⟨l₁, now, id, l₂, rfl, hnone, hd, hall.1⟩, hall.2⟩

/-- A call changes what is stored as the schedule says. -/
theorem TimedStep.storedExpiration (ht : WellFormed s.table) (h : TimedStep s call s') :
    WellFormed s'.table ∧ s'.table.storedExpiration
      = call.2.expires call.1 s.table.storedExpiration := by
  cases h with
  | insert _ h => exact ⟨ht.insert h, storedExpiration_insert ht h⟩
  | remove _ h => exact ⟨ht.remove h, storedExpiration_remove h⟩
  | pass _ h => exact h.visits.storedExpiration ht
  | find _ h =>
    obtain ⟨rfl, -⟩ := find_storedExpiration h
    exact ⟨ht, rfl⟩

/-- **The table agrees with the schedule.** -/
theorem storedExpiration_run {start : ℕ} (h : Trace TimedStep ⟨init, start⟩ l s) :
    WellFormed s.table ∧ s.table.storedExpiration = expires (l.map Prod.fst) := by
  induction h with
  | nil => exact ⟨wellFormed_init, rfl⟩
  | snoc _ hstep ih =>
    obtain ⟨ht, heq⟩ := hstep.storedExpiration ih.1
    refine ⟨ht, ?_⟩
    rw [heq, ih.2, List.map_append, List.map_singleton, expires_concat]

theorem inTime_iff {l : List (ℕ × Call)} : InTime l ↔ ∀ l₁ now key found l₂,
    l = l₁ ++ (now, .find key found) :: l₂ → ∀ d, expires l₁ key = some d → now < d := by
  constructor
  · intro h l₁ now key found l₂ hl d hd
    obtain ⟨l₃, inserted, id, l₄, rfl, hnone, rfl, hall⟩ := expires_eq_some_iff.mp hd
    exact h l₃ inserted key id l₄ now found l₂ hl hnone hall
  · intro h l₁ inserted key id l₂ now found l₃ hl hnone hall
    exact h _ now key found l₃ hl _
      (expires_eq_some_iff.mpr ⟨l₁, inserted, id, l₂, rfl, hnone, rfl, hall⟩)

theorem inTime_nil : InTime [] :=
  inTime_iff.mpr fun l₁ _ _ _ l₂ hl => absurd hl.symm (by simp)

/-- Whether the last call of a schedule is in time depends on those in front of it. -/
theorem inTime_concat {l : List (ℕ × Call)} :
    InTime (l ++ [call]) ↔ InTime l ∧ ∀ key found, call.2 = .find key found →
      ∀ d, expires l key = some d → call.1 < d := by
  rw [inTime_iff, inTime_iff]
  constructor
  · refine fun h => ⟨fun l₁ now key found l₂ hl => ?_, fun key found hcall => ?_⟩
    · exact h l₁ now key found (l₂ ++ [call]) (by rw [hl]; simp)
    · exact h l call.1 key found [] (by rw [← hcall])
  · rintro ⟨h, hlast⟩ l₁ now key found l₂ hl
    rcases List.eq_nil_or_concat l₂ with rfl | ⟨l₂, call', rfl⟩
    · obtain ⟨rfl, hcall⟩ := List.append_inj' hl rfl
      obtain rfl := List.singleton_inj.mp hcall
      exact hlast key found rfl
    · have hl' : l ++ [call] = (l₁ ++ (now, .find key found) :: l₂) ++ [call'] := by
        rw [hl]
        simp
      exact h l₁ now key found l₂ (List.append_inj' hl' rfl).1

/-- **When no expired token is found.**  In a run every lookup that finds a token is made
before the token expires, if and only if every lookup comes in time, or when a login or a
pass of the cleaner has taken the token out. -/
theorem find_beforeExpiration_iff {start : ℕ} (h : Trace TimedStep ⟨init, start⟩ l s) :
    (∀ e ∈ l, BeforeExpiration e.1 e.2) ↔ InTime (l.map Prod.fst) := by
  induction h with
  | nil => exact iff_of_true (fun e he => absurd he List.not_mem_nil) inTime_nil
  | @snoc l s s' call hrun hstep ih =>
    rw [List.map_append, List.map_singleton, inTime_concat, ← ih, List.forall_mem_append]
    refine and_congr_right fun _ => ?_
    rw [List.forall_mem_singleton, BeforeExpiration, ← (storedExpiration_run hrun).2]
    constructor
    · intro hlast key found hcall d hd
      cases hstep with
      | find _ hfind =>
        obtain ⟨rfl, hfound⟩ := find_storedExpiration hfind
        obtain ⟨rfl, rfl⟩ := Call.find.inj hcall
        obtain ⟨p, rfl⟩ := Option.ne_none_iff_exists'.mp fun hnone =>
          Option.some_ne_none d (hd.symm.trans (hfound.mp hnone))
        obtain ⟨d', hd', hlt⟩ := hlast _ p rfl
        obtain rfl := Option.some.inj (hd.symm.trans hd')
        exact hlt
      | insert => exact absurd hcall (by simp)
      | remove => exact absurd hcall (by simp)
      | pass => exact absurd hcall (by simp)
    · intro hlast key p hcall
      cases hstep with
      | find _ hfind =>
        obtain ⟨rfl, hfound⟩ := find_storedExpiration hfind
        obtain ⟨rfl, rfl⟩ := Call.find.inj hcall
        obtain ⟨d, hd⟩ := Option.ne_none_iff_exists'.mp fun hnone =>
          Option.some_ne_none p (hfound.mpr hnone)
        exact ⟨d, hd, hlast _ _ rfl d hd⟩
      | insert => exact absurd hcall (by simp)
      | remove => exact absurd hcall (by simp)
      | pass => exact absurd hcall (by simp)

/-! ## A token of the second 1 -/

/-- The token `t` has been inserted for the account `a`. -/
def oneToken : AwaitingTable where
  ids := Function.update (fun _ => none) 0 (some [97])
  conns := Function.update (fun _ => none) 0 (some ⟨0, 301⟩)
  entries := [([116], 0)]
  next := 1

theorem timedStep_oneToken : TimedStep ⟨init, 0⟩ (1, .insert [116] [97]) ⟨oneToken, 1⟩ :=
  .insert (b := true) (by decide) rfl

theorem find_oneToken : find [116] oneToken = .ok (some 0, oneToken) := rfl

/-- The token is looked up in the second 300, which is in time. -/
theorem find_beforeExpiration_fresh : ∃ l s, Trace TimedStep ⟨init, 0⟩ l s ∧
    (∀ e ∈ l, BeforeExpiration e.1 e.2) ∧ ∃ e ∈ l, e.1 = (300, .find [116] (some 0)) := by
  have hfind : TimedStep ⟨oneToken, 1⟩ (300, .find [116] (some 0)) ⟨oneToken, 300⟩ :=
    .find (by decide) find_oneToken
  have hrun := (Trace.nil.snoc timedStep_oneToken).snoc hfind
  have hin : InTime [(1, .insert [116] [97]), (300, .find [116] (some 0))] := by
    refine (inTime_concat (l := [(1, .insert [116] [97])])).mpr
      ⟨(inTime_concat (l := [])).mpr ⟨inTime_nil, fun _ _ h => absurd h (by simp)⟩, ?_⟩
    intro key found hcall d hd
    obtain ⟨rfl, -⟩ := Call.find.inj hcall
    obtain rfl := Option.some.inj (hd.symm.trans (by decide : _ = some 301))
    decide
  exact ⟨_, _, hrun, (find_beforeExpiration_iff hrun).mpr hin,
    _, List.mem_append_right _ List.mem_cons_self, rfl⟩

/-- The times of the passes of the cleaner. -/
def passTimes (l : List (ℕ × Call)) : List ℕ :=
  l.filterMap fun call => match call.2 with
    | .pass _ => some call.1
    | _ => none

/-- **An expired token is found.**  The token expires in the second 301, just behind the pass
of the cleaner, and is looked up in the second 302. -/
theorem find_expired : ∃ l s, Trace TimedStep ⟨init, 0⟩ l s ∧
    passTimes (l.map Prod.fst) = [timeToLive] ∧ ¬∀ e ∈ l, BeforeExpiration e.1 e.2 := by
  have hforeach : Foreach (checkIfExpired 300) oneToken [([116], 0)] oneToken :=
    ⟨.cons List.mem_cons_self rfl .nil, fun _ _ he => he⟩
  have hpass : TimedStep ⟨oneToken, 1⟩ (300, .pass ([([116], 0)].map Prod.fst))
      ⟨oneToken, 300⟩ :=
    .pass (by decide) hforeach
  have hfind : TimedStep ⟨oneToken, 300⟩ (302, .find [116] (some 0)) ⟨oneToken, 302⟩ :=
    .find (by decide) find_oneToken
  have hrun := ((Trace.nil.snoc timedStep_oneToken).snoc hpass).snoc hfind
  refine ⟨_, _, hrun, rfl, fun h => ?_⟩
  obtain ⟨d, hd, hlt⟩ := h _ (List.mem_append_right _ List.mem_cons_self) [116] 0 rfl
  obtain rfl := Option.some.inj (hd.symm.trans (by decide : _ = some 301))
  exact absurd hlt (by decide)

end AwaitingTable
end Authentication
end MmoBackend
