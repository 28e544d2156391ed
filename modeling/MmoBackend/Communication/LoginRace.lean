import Mathlib.Data.List.Nodup
import MmoBackend.Authentication.AwaitingConnections
import MmoBackend.Library.Trace

/-!
# Logins that race for a token

Every session runs `packet_handle_login` on a thread of its own.  The call looks
its token up, loads the player, changes the state of the session, and only then
removes the token from the table; whether there was anything left to remove it does
not ask.  Between the lookup and the removal other sessions can look the same token
up, and each of them ends with a `SUCCESS` reply.

The state is the table, how far each session has come, and the list of the tokens
whose logins succeeded; a token is the number of the call that inserted it.  What
the database finds and whether the player can be placed are left open.
`successes_nodup` says that it would be enough to refuse lookups of a token that
another session has looked up and not yet removed; `not_successes_nodup` is two
sessions with one token.
-/

namespace MmoBackend
namespace Communication

open Authentication

variable {S : Type} [DecidableEq S]

/-- How far a session has come with its login. -/
inductive LoginPhase where
  /-- No login is running and none has succeeded. -/
  | disabled
  /-- The token was found under `code`, and its id copied. -/
  | found (code : CString) (token : ℕ)
  /-- The player is loaded. -/
  | loaded (code : CString) (token : ℕ)
  /-- The state of the session is `ROAMING`. -/
  | entered (code : CString) (token : ℕ)
  /-- The token has been removed. -/
  | removed (token : ℕ)
  /-- The login succeeded. -/
  | roaming
  /-- The player could not be placed and the session is gone. -/
  | destroyed
  deriving DecidableEq

namespace LoginPhase

/-- The token a session has looked up and not yet removed, and the code it was
found under. -/
def pending : LoginPhase → Option (CString × ℕ)
  | found code token | loaded code token | entered code token => some (code, token)
  | _ => none

/-- The token of the login that is running. -/
def holds : LoginPhase → Option ℕ
  | found _ token | loaded _ token | entered _ token | removed token => some token
  | _ => none

theorem holds_of_pending {phase : LoginPhase} {code : CString} {token : ℕ}
    (h : phase.pending = some (code, token)) : phase.holds = some token := by
  cases phase <;> simp_all [pending, holds]

end LoginPhase

/-- The server, as far as logins are concerned. -/
structure LoginState (S : Type) where
  table : AwaitingTable
  phase : S → LoginPhase
  /-- The tokens of the logins that ended with a `SUCCESS` reply. -/
  successes : List ℕ

namespace LoginState

/-- No token has been inserted and no session has logged in. -/
def init : LoginState S := ⟨AwaitingTable.init, fun _ => .disabled, []⟩

/-- One step of the auth receiver or of a login. -/
inductive Action (S : Type) where
  /-- The auth receiver inserts a token. -/
  | insert (token id : CString) (now : ℕ)
  /-- The token is looked up, and the id copied. -/
  | lookup (session : S) (code : CString)
  /-- The player is loaded, if there is a record. -/
  | load (session : S) (present : Bool)
  /-- The session becomes `ROAMING`. -/
  | changeState (session : S)
  /-- The token is removed. -/
  | remove (session : S)
  /-- The player is placed, if that works, and the reply is sent. -/
  | finish (session : S) (placed : Bool)

/-- A session goes on to its next phase. -/
def setPhase (st : LoginState S) (s : S) (phase : LoginPhase) : LoginState S :=
  { st with phase := Function.update st.phase s phase }

/-- The steps, in any order.  A step that uses freed memory does not return. -/
inductive Step : LoginState S → Action S → LoginState S → Prop
  | insert {st : LoginState S} {token id : CString} {now : ℕ} {b : Bool} {t : AwaitingTable} :
      AwaitingTable.insert token id now st.table = .ok (b, t) →
      Step st (.insert token id now) { st with table := t }
  | unknown {st : LoginState S} {s : S} {code : CString} {t : AwaitingTable} :
      st.phase s = .disabled → AwaitingTable.find code st.table = .ok (none, t) →
      Step st (.lookup s code) { st with table := t }
  | lookup {st : LoginState S} {s : S} {code id : CString} {token : ℕ} {t : AwaitingTable} :
      st.phase s = .disabled → AwaitingTable.find code st.table = .ok (some token, t) →
      t.ids token = some id →
      Step st (.lookup s code) ({ st with table := t }.setPhase s (.found code token))
  | missing {st : LoginState S} {s : S} {code : CString} {token : ℕ} :
      st.phase s = .found code token → Step st (.load s false) (st.setPhase s .disabled)
  | load {st : LoginState S} {s : S} {code : CString} {token : ℕ} :
      st.phase s = .found code token →
      Step st (.load s true) (st.setPhase s (.loaded code token))
  | changeState {st : LoginState S} {s : S} {code : CString} {token : ℕ} :
      st.phase s = .loaded code token →
      Step st (.changeState s) (st.setPhase s (.entered code token))
  | remove {st : LoginState S} {s : S} {code : CString} {token : ℕ} {b : Bool}
      {t : AwaitingTable} :
      st.phase s = .entered code token → AwaitingTable.remove code st.table = .ok (b, t) →
      Step st (.remove s) ({ st with table := t }.setPhase s (.removed token))
  | succeed {st : LoginState S} {s : S} {token : ℕ} :
      st.phase s = .removed token →
      Step st (.finish s true)
        ({ st with successes := st.successes ++ [token] }.setPhase s .roaming)
  | fail {st : LoginState S} {s : S} {token : ℕ} :
      st.phase s = .removed token → Step st (.finish s false) (st.setPhase s .destroyed)

/-- A token is looked up only while no other session has looked it up and not yet
removed it. -/
def Unshared (st : LoginState S) : Action S → Prop
  | .lookup _ code => ∀ s' token, (st.phase s').pending ≠ some (code, token)
  | _ => True

/-! ## The invariant

A token that is in use by a login is in use by one login only; once it has been
removed it is not in the table; and once it has been used it is neither. -/

/-- The invariant of the runs without shared lookups. -/
structure Inv (st : LoginState S) : Prop where
  table : st.table.WellFormed
  bound : ∀ s token, (st.phase s).holds = some token → token < st.table.next
  unique : ∀ s s' token, (st.phase s).holds = some token → (st.phase s').holds = some token →
    s = s'
  key : ∀ s code token, (st.phase s).pending = some (code, token) →
    ∀ k, (k, token) ∈ st.table.entries → k = code
  gone : ∀ s token, st.phase s = .removed token → ∀ k, (k, token) ∉ st.table.entries
  fresh : ∀ s token, (st.phase s).holds = some token → token ∉ st.successes
  used : ∀ token ∈ st.successes, token < st.table.next ∧ ∀ k, (k, token) ∉ st.table.entries
  nodup : st.successes.Nodup

omit [DecidableEq S] in
theorem inv_init : Inv (init : LoginState S) :=
  ⟨AwaitingTable.wellFormed_init, fun _ _ h => absurd h.symm (Option.some_ne_none _),
    fun _ _ _ h => absurd h.symm (Option.some_ne_none _),
    fun _ _ _ h => absurd h.symm (Option.some_ne_none _),
    fun _ _ h => LoginPhase.noConfusion h, fun _ _ h => absurd h.symm (Option.some_ne_none _),
    fun _ h => absurd h List.not_mem_nil, List.nodup_nil⟩

/-- A session holds its token through the phases of a login, or lets go of it. -/
theorem Inv.setPhase {st : LoginState S} (h : Inv st) (s : S) {phase : LoginPhase}
    (hholds : ∀ token, phase.holds = some token → (st.phase s).holds = some token)
    (hpending : ∀ code token, phase.pending = some (code, token) →
      (st.phase s).pending = some (code, token))
    (hremoved : ∀ token, phase = .removed token → ∀ k, (k, token) ∉ st.table.entries) :
    Inv (st.setPhase s phase) := by
  have hholds' : ∀ s' token, ((st.setPhase s phase).phase s').holds = some token →
      (st.phase s').holds = some token := by
    intro s' token hs'
    rw [LoginState.setPhase] at hs'
    dsimp only at hs'
    rw [Function.update_apply] at hs'
    split at hs'
    · rename_i heq
      exact heq ▸ hholds token hs'
    · exact hs'
  refine ⟨h.table, fun s' token hs' => h.bound s' token (hholds' s' token hs'),
    fun s₁ s₂ token h₁ h₂ => h.unique s₁ s₂ token (hholds' s₁ token h₁) (hholds' s₂ token h₂),
    ?_, ?_, fun s' token hs' => h.fresh s' token (hholds' s' token hs'), h.used, h.nodup⟩
  · intro s' code token hs'
    rw [LoginState.setPhase] at hs'
    dsimp only at hs'
    rw [Function.update_apply] at hs'
    split at hs'
    · exact h.key s code token (hpending code token hs')
    · exact h.key s' code token hs'
  · intro s' token hs'
    rw [LoginState.setPhase] at hs'
    dsimp only at hs'
    rw [Function.update_apply] at hs'
    split at hs'
    · exact hremoved token hs'
    · exact h.gone s' token hs'

/-- A session can let go of its token. -/
theorem Inv.letGo {st : LoginState S} (h : Inv st) (s : S) {phase : LoginPhase}
    (hnone : phase.holds = none) : Inv (st.setPhase s phase) := by
  have hholds : ∀ token, phase.holds ≠ some token := fun token hp => by
    rw [hnone] at hp
    exact absurd hp.symm (Option.some_ne_none _)
  refine h.setPhase s (fun token hp => absurd hp (hholds token)) ?_ ?_
  · exact fun code token hp => absurd (LoginPhase.holds_of_pending hp) (hholds token)
  · rintro token rfl
    exact absurd rfl (hholds token)

omit [DecidableEq S] in
/-- Inserting a token puts a new number into the table. -/
theorem Inv.insert {st : LoginState S} (h : Inv st) {token id : CString} {now : ℕ} {b : Bool}
    {t : AwaitingTable} (hinsert : AwaitingTable.insert token id now st.table = .ok (b, t)) :
    Inv { st with table := t } := by
  obtain ⟨hnext, -, -⟩ := AwaitingTable.insert_eq_ok hinsert
  -- an entry for a number that was there before is an old entry
  have hold : ∀ k c, c < st.table.next → (k, c) ∈ t.entries → (k, c) ∈ st.table.entries := by
    intro k c hc hmem
    rcases AwaitingTable.mem_entries_of_insert hinsert hmem with ⟨-, rfl⟩ | ⟨-, hmem⟩
    · exact absurd hc (Nat.lt_irrefl _)
    · exact hmem
  refine ⟨h.table.insert hinsert, fun s c hs => ?_, h.unique, ?_, ?_, h.fresh, ?_, h.nodup⟩
  · rw [hnext]
    exact Nat.lt_succ_of_lt (h.bound s c hs)
  · intro s code c hs k hk
    have hc := h.bound s c (LoginPhase.holds_of_pending hs)
    exact h.key s code c hs k (hold k c hc hk)
  · intro s c hs k hk
    have hc := h.bound s c (by rw [hs]; rfl)
    exact h.gone s c hs k (hold k c hc hk)
  · intro c hc
    obtain ⟨hlt, hgone⟩ := h.used c hc
    exact ⟨hnext ▸ Nat.lt_succ_of_lt hlt, fun k hk => hgone k (hold k c hlt hk)⟩

omit [DecidableEq S] in
/-- Nobody uses a token that is in the table and whose code is not pending. -/
theorem Inv.holds_ne {st : LoginState S} (h : Inv st) {code : CString} {token : ℕ}
    (hmem : (code, token) ∈ st.table.entries)
    (hunshared : ∀ s token, (st.phase s).pending ≠ some (code, token)) (s : S) :
    (st.phase s).holds ≠ some token := by
  intro hs
  cases hp : st.phase s with
  | removed c =>
    rw [hp] at hs
    obtain rfl := Option.some.inj hs
    exact h.gone s c hp code hmem
  | found c n | loaded c n | entered c n =>
    rw [hp] at hs
    obtain rfl := Option.some.inj hs
    have hpend : (st.phase s).pending = some (c, n) := by
      rw [hp]
      rfl
    obtain rfl := h.key s c n hpend code hmem
    exact hunshared s n hpend
  | disabled | roaming | destroyed =>
    rw [hp] at hs
    exact absurd hs.symm (Option.some_ne_none _)

/-- An unshared lookup begins a login with a token that nobody else uses. -/
theorem Inv.lookup {st : LoginState S} (h : Inv st) {s : S} {code : CString} {token : ℕ}
    {t : AwaitingTable}
    (hfind : AwaitingTable.find code st.table = .ok (some token, t))
    (hunshared : Unshared st (.lookup s code)) :
    Inv ({ st with table := t }.setPhase s (.found code token)) := by
  obtain ⟨rfl, hmem⟩ := AwaitingTable.find_eq_ok h.table hfind
  have hmem : (code, token) ∈ st.table.entries := hmem token rfl
  have hfree := h.holds_ne hmem hunshared
  have hphase' : ∀ s', ({ st with table := st.table }.setPhase s (.found code token)).phase s'
      = if s' = s then .found code token else st.phase s' := by
    intro s'
    rw [LoginState.setPhase]
    dsimp only
    rw [Function.update_apply]
  refine ⟨h.table, ?_, ?_, ?_, ?_, ?_, h.used, h.nodup⟩
  · intro s' c hs'
    rw [hphase'] at hs'
    split at hs'
    · rw [← Option.some.inj hs']
      exact h.table.bound code token hmem
    · exact h.bound s' c hs'
  · intro s₁ s₂ c h₁ h₂
    rw [hphase'] at h₁ h₂
    split at h₁
    · rename_i heq₁
      split at h₂
      · rename_i heq₂
        rw [heq₁, heq₂]
      · rw [← Option.some.inj h₁] at h₂
        exact absurd h₂ (hfree s₂)
    · split at h₂
      · rw [← Option.some.inj h₂] at h₁
        exact absurd h₁ (hfree s₁)
      · exact h.unique s₁ s₂ c h₁ h₂
  · intro s' c n hs' k hk
    rw [hphase'] at hs'
    split at hs'
    · have heq := Option.some.inj hs'
      rw [Prod.mk.injEq] at heq
      rw [← heq.1]
      exact h.table.inj k code n hk (heq.2 ▸ hmem)
    · exact h.key s' c n hs' k hk
  · intro s' c hs'
    rw [hphase'] at hs'
    split at hs'
    · exact LoginPhase.noConfusion hs'
    · exact h.gone s' c hs'
  · intro s' c hs'
    rw [hphase'] at hs'
    split at hs'
    · rw [← Option.some.inj hs']
      exact fun hused => (h.used token hused).2 code hmem
    · exact h.fresh s' c hs'

/-- Removing the code of a pending login takes its token out of the table. -/
theorem Inv.remove {st : LoginState S} (h : Inv st) {s : S} {code : CString} {token : ℕ}
    {b : Bool} {t : AwaitingTable} (hphase : st.phase s = .entered code token)
    (hremove : AwaitingTable.remove code st.table = .ok (b, t)) :
    Inv ({ st with table := t }.setPhase s (.removed token)) := by
  obtain ⟨hnext, -, hentries⟩ := AwaitingTable.remove_eq_ok hremove
  have hsub : ∀ k c, (k, c) ∈ t.entries → (k, c) ∈ st.table.entries := by
    intro k c hk
    rw [hentries] at hk
    exact (AwaitingTable.mem_eraseEntry.mp hk).1
  have htable : Inv { st with table := t } :=
    ⟨h.table.remove hremove, fun s c hs => hnext ▸ h.bound s c hs, h.unique,
      fun s c n hs k hk => h.key s c n hs k (hsub k n hk),
      fun s c hs k hk => h.gone s c hs k (hsub k c hk), h.fresh,
      fun c hc => ⟨hnext ▸ (h.used c hc).1, fun k hk => (h.used c hc).2 k (hsub k c hk)⟩, h.nodup⟩
  refine htable.setPhase s ?_ (fun c n hp => absurd hp.symm (Option.some_ne_none _)) ?_
  · intro c hc
    rw [← Option.some.inj hc]
    show (st.phase s).holds = _
    rw [hphase]
    rfl
  · intro c hc k hk
    obtain rfl := (LoginPhase.removed.inj hc)
    have hpend : (st.phase s).pending = some (code, token) := by
      rw [hphase]
      rfl
    have hk' : k = code := h.key s code token hpend k (hsub k token hk)
    dsimp only at hk
    rw [hentries] at hk
    exact (AwaitingTable.mem_eraseEntry.mp hk).2 hk'

/-- A success uses a token that is not in the table and in no other login. -/
theorem Inv.succeed {st : LoginState S} (h : Inv st) {s : S} {token : ℕ}
    (hphase : st.phase s = .removed token) :
    Inv ({ st with successes := st.successes ++ [token] }.setPhase s .roaming) := by
  have hholds : (st.phase s).holds = some token := by
    rw [hphase]
    rfl
  have hdone : Inv (st.setPhase s .roaming) := h.letGo s rfl
  refine ⟨hdone.table, hdone.bound, hdone.unique, hdone.key, hdone.gone, ?_, ?_, ?_⟩
  · intro s' c hs' hmem
    rcases List.mem_append.mp hmem with hmem | hmem
    · exact hdone.fresh s' c hs' hmem
    · rw [List.mem_singleton.mp hmem, LoginState.setPhase] at hs'
      dsimp only at hs'
      rw [Function.update_apply] at hs'
      split at hs'
      · exact absurd hs'.symm (Option.some_ne_none _)
      · rename_i hne
        exact hne (h.unique s' s token hs' hholds)
  · intro c hc
    rcases List.mem_append.mp hc with hc | hc
    · exact h.used c hc
    · rw [List.mem_singleton.mp hc]
      exact ⟨h.bound s token hholds, h.gone s token hphase⟩
  · show (st.successes ++ [token]).Nodup
    rw [List.nodup_append]
    refine ⟨h.nodup, List.nodup_singleton token, ?_⟩
    rintro c hc c' hc' rfl
    exact h.fresh s token hholds (List.mem_singleton.mp hc' ▸ hc)

/-- **One login per token.**  In every run in which no token is looked up while
another session has looked it up and not yet removed it, no token is used by two
successful logins. -/
theorem successes_nodup {l : List (Action S × LoginState S)} {st : LoginState S}
    (h : Trace (Guarded Step Unshared) init l st) : st.successes.Nodup := by
  refine Inv.nodup (h.invariant (I := Inv) ?_ inv_init)
  rintro st i st' hst ⟨hstep, hunshared⟩
  cases hstep with
  | insert hinsert => exact hst.insert hinsert
  | unknown _ hfind =>
    obtain ⟨rfl, -⟩ := AwaitingTable.find_eq_ok hst.table hfind
    exact hst
  | lookup _ hfind _ => exact hst.lookup hfind hunshared
  | missing _ => exact hst.letGo _ rfl
  | load hphase =>
    exact hst.setPhase _ (fun _ hp => by rw [hphase]; exact hp)
      (fun _ _ hp => by rw [hphase]; exact hp) fun _ hp => LoginPhase.noConfusion hp
  | changeState hphase =>
    exact hst.setPhase _ (fun _ hp => by rw [hphase]; exact hp)
      (fun _ _ hp => by rw [hphase]; exact hp) fun _ hp => LoginPhase.noConfusion hp
  | remove hphase hremove => exact hst.remove hphase hremove
  | succeed hphase => exact hst.succeed hphase
  | fail _ => exact hst.letGo _ rfl

/-- The table after the token `7` was inserted for the account `9`. -/
def oneToken : AwaitingTable :=
  { AwaitingTable.alloc [9] 0 AwaitingTable.init with entries := [([7], 0)] }

theorem insert_oneToken :
    AwaitingTable.insert [7] [9] 0 AwaitingTable.init = .ok (true, oneToken) := rfl

/-- Two sessions log in at the same time, each with its own token.  A third session tries the
first token when it has been removed. -/
theorem successes_nodup_two :
    ∃ l st, Trace (Guarded Step Unshared) (init : LoginState ℕ) l st ∧ st.successes = [0, 1] ∧
      st.phase 2 = .disabled ∧ st.successes.Nodup := by
  have h₀ : Trace (Guarded Step Unshared) (init : LoginState ℕ) [] init := Trace.nil
  have h₁ := h₀.snoc ⟨Step.insert insert_oneToken, trivial⟩
  have h₂ := h₁.snoc ⟨Step.insert (show AwaitingTable.insert [8] [6] 0 oneToken
    = .ok (true, _) from rfl), trivial⟩
  have h₃ := h₂.snoc ⟨@Step.lookup ℕ _ _ 0 [7] [9] 0 _ rfl rfl rfl,
    fun _ _ hp => absurd hp.symm (Option.some_ne_none _)⟩
  have h₄ := h₃.snoc ⟨@Step.lookup ℕ _ _ 1 [8] [6] 1 _ rfl rfl rfl, fun s token hp => by
    by_cases hs : s = 0
    · subst hs
      cases hp
    · simp [LoginState.setPhase, Function.update_of_ne hs, init, LoginPhase.pending] at hp⟩
  have h₅ := h₄.snoc ⟨@Step.load ℕ _ _ 0 [7] 0 rfl, trivial⟩
  have h₆ := h₅.snoc ⟨@Step.load ℕ _ _ 1 [8] 1 rfl, trivial⟩
  have h₇ := h₆.snoc ⟨@Step.changeState ℕ _ _ 0 [7] 0 rfl, trivial⟩
  have h₈ := h₇.snoc ⟨@Step.changeState ℕ _ _ 1 [8] 1 rfl, trivial⟩
  have h₉ := h₈.snoc ⟨@Step.remove ℕ _ _ 0 [7] 0 true _ rfl rfl, trivial⟩
  have h₁₀ := h₉.snoc ⟨@Step.remove ℕ _ _ 1 [8] 1 true _ rfl rfl, trivial⟩
  have h₁₁ := h₁₀.snoc ⟨@Step.succeed ℕ _ _ 0 0 rfl, trivial⟩
  have h₁₂ := h₁₁.snoc ⟨@Step.succeed ℕ _ _ 1 1 rfl, trivial⟩
  have h₁₃ := h₁₂.snoc ⟨@Step.unknown ℕ _ _ 2 [7] _ rfl rfl, fun s token hp => by
    by_cases hs : s = 1
    · subst hs
      cases hp
    · by_cases hs' : s = 0
      · subst hs'
        cases hp
      · simp [LoginState.setPhase, Function.update_of_ne hs, Function.update_of_ne hs', init,
          LoginPhase.pending] at hp⟩
  exact ⟨_, _, h₁₃, rfl, rfl, successes_nodup h₁₃⟩

/-- **Two sessions log in with one token.**  Both look it up before either removes
it. -/
theorem not_successes_nodup :
    ∃ l st, Trace Step (init : LoginState Bool) l st ∧ ¬st.successes.Nodup := by
  have h₀ : Trace Step (init : LoginState Bool) [] init := Trace.nil
  have h₁ := h₀.snoc (Step.insert insert_oneToken)
  have h₂ := h₁.snoc (@Step.lookup Bool _ _ true [7] [9] 0 oneToken rfl rfl rfl)
  have h₃ := h₂.snoc (@Step.lookup Bool _ _ false [7] [9] 0 oneToken rfl rfl rfl)
  have h₄ := h₃.snoc (@Step.load Bool _ _ true [7] 0 rfl)
  have h₅ := h₄.snoc (@Step.load Bool _ _ false [7] 0 rfl)
  have h₆ := h₅.snoc (@Step.changeState Bool _ _ true [7] 0 rfl)
  have h₇ := h₆.snoc (@Step.changeState Bool _ _ false [7] 0 rfl)
  have h₈ := h₇.snoc (@Step.remove Bool _ _ true [7] 0 true _ rfl rfl)
  -- there is nothing left to remove, and nobody asks
  have h₉ := h₈.snoc (@Step.remove Bool _ _ false [7] 0 false _ rfl rfl)
  have h₁₀ := h₉.snoc (@Step.succeed Bool _ _ true 0 rfl)
  have h₁₁ := h₁₀.snoc (@Step.succeed Bool _ _ false 0 rfl)
  refine ⟨_, _, h₁₁, fun hnodup => ?_⟩
  have hpair : ([0, 0] : List ℕ).Nodup := hnodup
  exact absurd hpair (by decide)

end LoginState

end Communication
end MmoBackend
