import MmoBackend.Authentication.Expiration

/-!
# One pass of the cleaner

A pass calls `awaiting_connections_table_check_if_expired` from within
`g_hash_table_foreach`, and of a stale entry that call takes the entry out of the table that
is being iterated over.  What GLib promises of the iteration then no longer holds.

`cleanPass_iff` is the condition under which the pass does what it is for without leaving
the promise: that there is nothing to clean.  One stale entry is enough to spoil it.  As
long as no call has changed the table the iteration comes to every entry, so it comes to a
stale one sooner or later, and there it changes the table.
-/

namespace MmoBackend
namespace Authentication
namespace AwaitingTable

variable {t t' : AwaitingTable} {now : ℕ} {e : CString × ℕ} {visited : List (CString × ℕ)}

/-- The expiration of an entry is later than `now`. -/
def Fresh (now : ℕ) (t : AwaitingTable) (e : CString × ℕ) : Prop :=
  ∃ conn, t.conns e.2 = some conn ∧ now < conn.expiration

/-- No call of an iteration adds or removes entries. -/
inductive Undisturbed (f : CString × ℕ → Exec AwaitingTable Unit) :
    AwaitingTable → List (CString × ℕ) → Prop
  | nil {t : AwaitingTable} : Undisturbed f t []
  | cons {t t₁ : AwaitingTable} {e : CString × ℕ} {visited : List (CString × ℕ)} :
      f e t = .ok ((), t₁) → t₁.entries = t.entries → Undisturbed f t₁ visited →
      Undisturbed f t (e :: visited)

/-- A pass leaves exactly the fresh entries, with their connections and id strings, and does
not change the table while it iterates over it. -/
structure CleanPass (now : ℕ) (t : AwaitingTable) (visited : List (CString × ℕ))
    (t' : AwaitingTable) : Prop where
  entries : ∀ e, e ∈ t'.entries ↔ e ∈ t.entries ∧ Fresh now t e
  conns : ∀ e ∈ t'.entries, t'.conns e.2 = t.conns e.2
  ids : ∀ e ∈ t'.entries, ∀ conn, t.conns e.2 = some conn → t'.ids conn.id = t.ids conn.id
  undisturbed : Undisturbed (checkIfExpired now) t visited

/-! ## One call -/

/-- A call for an entry leaves the table alone if the entry is fresh, and takes it out if it
is stale.  The connections stay where they are. -/
theorem checkIfExpired_cases (h : checkIfExpired now e t = .ok ((), t')) :
    Fresh now t e ∧ t' = t ∨
      ¬Fresh now t e ∧ t'.entries = eraseEntry e.1 t.entries ∧ t'.conns = t.conns := by
  simp only [checkIfExpired, Exec.bind_eq_ok, Exec.get_eq_ok, Exec.need_eq_ok, Exec.ite_eq_ok,
    Exec.pure_eq_ok] at h
  obtain ⟨_, _, ⟨rfl, rfl⟩, conn, _, ⟨hconn, rfl⟩, h⟩ := h
  rcases h with ⟨hstale, b, _, hremove, -, rfl⟩ | ⟨hfresh, -, rfl⟩
  · obtain ⟨-, hconns, hentries⟩ := remove_eq_ok hremove
    refine Or.inr ⟨?_, hentries, hconns⟩
    rintro ⟨conn', hconn', hlt⟩
    obtain rfl := Option.some.inj (hconn.symm.trans hconn')
    omega
  · exact Or.inl ⟨⟨conn, hconn, by omega⟩, rfl⟩

/-- A call that does not change the table was for a fresh entry. -/
theorem fresh_of_entries_eq (he : e ∈ t.entries) (h : checkIfExpired now e t = .ok ((), t'))
    (hsame : t'.entries = t.entries) : Fresh now t e ∧ t' = t := by
  rcases checkIfExpired_cases h with hfresh | ⟨-, herased, -⟩
  · exact hfresh
  · have hmem : (e.1, e.2) ∈ eraseEntry e.1 t.entries := by
      rw [← herased, hsame]
      exact he
    exact absurd rfl (mem_eraseEntry.mp hmem).2

/-! ## A pass -/

/-- A pass that does not change the table has come to fresh entries only, and has changed
nothing at all. -/
theorem Visits.fresh_of_undisturbed (h : Visits (checkIfExpired now) t visited t')
    (hquiet : Undisturbed (checkIfExpired now) t visited) :
    t' = t ∧ ∀ e ∈ visited, Fresh now t e := by
  induction h with
  | nil => exact ⟨rfl, fun e he => absurd he List.not_mem_nil⟩
  | cons he hcall _ ih =>
    cases hquiet with
    | cons hcall' hsame hrest =>
      obtain ⟨-, rfl⟩ := Prod.mk.inj (Except.ok.inj (hcall.symm.trans hcall'))
      obtain ⟨hfresh, rfl⟩ := fresh_of_entries_eq he hcall hsame
      obtain ⟨rfl, hall⟩ := ih hrest
      refine ⟨rfl, fun e' he' => ?_⟩
      rcases List.mem_cons.mp he' with rfl | he'
      · exact hfresh
      · exact hall e' he'

/-- A pass over fresh entries changes nothing. -/
theorem Visits.eq_of_fresh (h : Visits (checkIfExpired now) t visited t')
    (hfresh : ∀ e ∈ t.entries, Fresh now t e) :
    t' = t ∧ Undisturbed (checkIfExpired now) t visited := by
  induction h with
  | nil => exact ⟨rfl, .nil⟩
  | cons he hcall _ ih =>
    rcases checkIfExpired_cases hcall with ⟨-, rfl⟩ | ⟨hstale, -⟩
    · obtain ⟨rfl, hquiet⟩ := ih hfresh
      exact ⟨rfl, .cons hcall rfl hquiet⟩
    · exact absurd (hfresh _ he) hstale

/-- **When a pass of the cleaner is clean.**  For every table, every time and every pass: it
ends with exactly the entries that have not expired, unchanged, and without changing the table
under the iteration, exactly when no entry of the table has expired. -/
theorem cleanPass_iff (h : Foreach (checkIfExpired now) t visited t') :
    CleanPass now t visited t' ↔ ∀ e ∈ t.entries, Fresh now t e := by
  constructor
  · intro hclean
    obtain ⟨rfl, hall⟩ := h.visits.fresh_of_undisturbed hclean.undisturbed
    exact fun e he => hall e (h.all rfl e he)
  · intro hfresh
    obtain ⟨rfl, hquiet⟩ := h.visits.eq_of_fresh hfresh
    exact ⟨fun e => ⟨fun he => ⟨he, hfresh e he⟩, fun he => he.1⟩, fun _ _ => rfl,
      fun _ _ _ _ => rfl, hquiet⟩

/-- A pass over the one token `t`, which expires in the second 301. -/
theorem foreach_oneToken :
    Foreach (checkIfExpired 300) oneToken [([116], 0)] oneToken :=
  ⟨.cons List.mem_cons_self rfl .nil, fun _ _ he => he⟩

/-- The table when the token was removed. -/
def cleanedToken : AwaitingTable :=
  { oneToken with ids := Function.update oneToken.ids 0 none, entries := [] }

theorem checkIfExpired_oneToken :
    checkIfExpired 600 ([116], 0) oneToken = .ok ((), cleanedToken) := rfl

/-- A later pass over this token. -/
theorem foreach_expired :
    Foreach (checkIfExpired 600) oneToken [([116], 0)] cleanedToken :=
  ⟨.cons List.mem_cons_self checkIfExpired_oneToken .nil, fun hsame => absurd hsame (by decide)⟩

/-- The first pass is clean, and the later one is not. -/
theorem cleanPass_iff_oneToken :
    CleanPass 300 oneToken [([116], 0)] oneToken ∧
      ¬CleanPass 600 oneToken [([116], 0)] cleanedToken := by
  refine ⟨(cleanPass_iff foreach_oneToken).mpr fun e he => ?_, fun hclean => ?_⟩
  · rw [List.mem_singleton.mp he]
    exact ⟨_, rfl, by decide⟩
  · obtain ⟨conn, hconn, hlt⟩ := (cleanPass_iff foreach_expired).mp hclean _ List.mem_cons_self
    obtain rfl := Option.some.inj hconn
    exact absurd hlt (by decide)

/-- **An expired token is removed under the iteration.** -/
theorem not_cleanPass : ¬∀ now t visited t', Foreach (checkIfExpired now) t visited t' →
    CleanPass now t visited t' := by
  intro h
  cases (h _ _ _ _ foreach_expired).undisturbed with
  | cons hcall hsame _ =>
    obtain ⟨-, rfl⟩ := Prod.mk.inj (Except.ok.inj (checkIfExpired_oneToken.symm.trans hcall))
    exact absurd hsame (by decide)

end AwaitingTable
end Authentication
end MmoBackend
