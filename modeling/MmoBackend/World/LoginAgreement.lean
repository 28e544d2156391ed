import MmoBackend.World.Frame
import MmoBackend.World.LoginPlacement
import MmoBackend.World.OnePlayer
import MmoBackend.World.Sockets

/-!
# A login and the code it was issued

The auth server checks who somebody is and sends the account to the server, together with a
code.  Whoever presents the code afterwards is taken for the owner of the account.  So what
the server promises is an agreement about two events: a session is logged in with an account
only if the auth receiver has stored the code for this account before, and it is the only
one that has used this code since.

`login_agreement` is about the moment of a login and what lies between it and the token.
`sessions_of_tokens` is about any moment: the sessions that roam can be told apart by the
tokens they were logged in with.

Both come from one table.  `Codes` says what a request does to it, and `Redeemable` what an
entry is worth.
-/

namespace MmoBackend

open Authentication Bytes Communication Db Exec Maps

namespace World

open Scene

variable {defs : MapDefs} {w w' : World} {a : Request} {s q : ℕ} {packet : Packet}
  {session : Session} {code id : CString}

/-! ## What a request does to the codes -/

/-- The request logs somebody in with the code. -/
def Spends (code : CString) (w : World) (a : Request) : Prop :=
  ∃ s packet id doc, a = .packet s packet ∧ LoginFor w a id ∧ cString packet.data = some code ∧
    findById id w.playerdata = some doc

/-- The request stores the code or logs somebody in with it. -/
def Concerns (code : CString) (w : World) (a : Request) : Prop :=
  (∃ id now, a = .token code id now) ∨ Spends code w a

/-- What a request does to the table of codes. -/
inductive Codes (w : World) : Request → World → Prop
  | stored {tok id : CString} {now : ℕ} {b : Bool} {w' : World} :
      AwaitingTable.insert tok id now w.table = .ok (b, w'.table) → Codes w (.token tok id now) w'
  | spent {a : Request} {code : CString} {b : Bool} {w' : World} :
      Spends code w a → AwaitingTable.remove code w.table = .ok (b, w'.table) → Codes w a w'
  | same {a : Request} {w' : World} :
      (∀ code, ¬Concerns code w a) → w'.table = w.table → Codes w a w'

/-- Of a login that finds a record, the code is spent. -/
theorem packetHandleLogin_table {fuel : ℕ} {r : Option ServerPacket} (hcache : w.cache = [])
    (h : packetHandleLogin defs fuel packet s w = .ok (r, w')) :
    w'.table = w.table ∧ (∀ id doc, accountOf w packet = some id →
        findById id w.playerdata ≠ some doc) ∨
      ∃ code id doc b, cString packet.data = some code ∧ accountOf w packet = some id ∧
        findById id w.playerdata = some doc ∧
        AwaitingTable.remove code w.table = .ok (b, w'.table) := by
  simp only [packetHandleLogin, bind_eq_ok, need_eq_ok, onTable_eq_ok] at h
  obtain ⟨code, _, ⟨hcode, rfl⟩, found, _, ⟨t, hfind, rfl⟩, h⟩ := h
  obtain ⟨rfl, ⟨hlookup, rfl⟩ | ⟨c, conn, hlookup, hconn, rfl⟩⟩ := AwaitingTable.find_cases hfind
  · simp only [bind_eq_ok, modify_eq_ok, pure_eq_ok] at h
    obtain ⟨_, _, rfl, -, rfl⟩ := h
    refine Or.inl ⟨rfl, fun id doc haccount => ?_⟩
    simp [accountOf, hcode, hlookup] at haccount
  · simp only [bind_eq_ok, get_eq_ok, need_eq_ok] at h
    obtain ⟨_, _, ⟨rfl, rfl⟩, id, _, ⟨hid, rfl⟩, h⟩ := h
    have haccount : accountOf w packet = some id := by
      have hid' : w.table.ids conn.id = some id := hid
      simp [accountOf, hcode, hlookup, hconn, hid']
    simp only [loginAs, bind_eq_ok, updateSession_eq_ok] at h
    obtain ⟨found, v, hget, _, _, ⟨session, -, rfl⟩, h⟩ := h
    have htable : v.table = w.table := dbPlayerGetPlayer_table hcache hget
    rcases dbPlayerGetPlayer_eq_ok hcache hget with ⟨hnone, rfl, -⟩ | ⟨doc, hdoc, rfl, -⟩
    · obtain ⟨-, rfl⟩ := pure_eq_ok.mp h
      refine Or.inl ⟨htable, fun id' doc hid' hdoc => ?_⟩
      obtain rfl := Option.some.inj (haccount.symm.trans hid')
      exact absurd (hdoc.symm.trans hnone) (Option.some_ne_none doc)
    · -- the code is removed, and the spawn leaves the table alone
      simp only [loginPlayer, bind_eq_ok, updatePlayer_eq_ok, updateSession_eq_ok, onTable_eq_ok,
        derefPlayer_eq_ok, need_eq_ok, derefMap_eq_ok, loginReply, ite_eq_ok, pure_eq_ok] at h
      obtain ⟨_, _, ⟨_, -, rfl⟩, _, _, ⟨_, -, rfl⟩, b, _, ⟨t, hremove, rfl⟩, _, _, ⟨-, rfl⟩, _, _,
        ⟨-, rfl⟩, _, _, ⟨-, rfl⟩, n, v', hspawn, ⟨hn, -⟩ | ⟨-, -, rfl⟩⟩ := h
      · exact absurd hn (mapSpawnPlayer_ne hspawn)
      · refine Or.inr ⟨code, id, doc, b, hcode, haccount, hdoc, ?_⟩
        rw [(beside_mapSpawnPlayer _ _ _ _ _ _ _ _ _ hspawn).table, ← htable]
        exact hremove

/-- **Every request** stores a code, spends one or leaves the table alone. -/
theorem Member.codes (h : Member defs w) (hstep : Step defs w a w') : Codes w a w' := by
  have hcache := h.sound.cache
  cases hstep with
  | connect _ hcreate =>
    obtain rfl := sessionCreate_eq_ok hcreate
    exact .same (by rintro code (⟨_, _, ha⟩ | ⟨_, _, _, _, ha, -⟩) <;> cases ha) rfl
  | token hinsert =>
    obtain ⟨t, hstore, rfl⟩ := onTable_eq_ok.mp hinsert
    exact .stored hstore
  | @packet _ s fuel packet hloop =>
    obtain ⟨session, hs, ⟨hverify, rfl⟩ | ⟨hverify, r, v, hroute, hrespond⟩⟩ :=
      eventLoop_eq_ok hloop
    · refine .same ?_ rfl
      rintro code (⟨_, _, ha⟩ | ⟨_, _, _, _, -, ⟨_, _, session', ha, hop, hs', hstate, -⟩, -⟩)
      · exact Request.noConfusion ha
      · obtain ⟨rfl, rfl⟩ := Request.packet.inj ha
        obtain rfl := Option.some.inj (hs.symm.trans hs')
        rw [sessionVerifyPacket, hstate, hop] at hverify
        exact absurd hverify (by decide)
    · obtain ⟨l', rfl, -⟩ := respond_emit hrespond
      cases hstate : session.state with
      | disabled =>
        have hop := opcode_of_disabled hverify hstate
        rw [packetHandleRoute_login hop] at hroute
        rcases packetHandleLogin_table (w := w.emit _) hcache hroute with ⟨htable, hnone⟩ |
          ⟨code, id, doc, b, hcode, haccount, hdoc, hremove⟩
        · refine .same ?_ htable
          rintro code (⟨_, _, ha⟩ | ⟨_, _, id, doc, -, ⟨_, _, _, ha, -, -, -, haccount⟩, -, hdoc⟩)
          · exact Request.noConfusion ha
          · obtain ⟨rfl, rfl⟩ := Request.packet.inj ha
            exact hnone id doc haccount hdoc
        · exact .spent ⟨s, packet, id, doc, rfl, ⟨s, packet, session, rfl, hop, hs, hstate,
            haccount⟩, hcode, hdoc⟩ hremove
      | roaming =>
        refine .same ?_ ?_
        · rintro code (⟨_, _, ha⟩ | ⟨_, _, id, _, -, hfor, -⟩)
          · exact Request.noConfusion ha
          · exact not_loginFor_of_roaming hs hstate id hfor
        · rcases opcode_of_roaming hverify hstate with hop | hop
          · rw [packetHandleRoute_move hop] at hroute
            obtain ⟨_, _, _, _, -, -, -, hmove⟩ := packetHandleMove_turn (w := w.emit _) hs hroute
            exact (beside_playerMove _ _ _ _ _ _ _ _ hmove).table
          · rw [packetHandleRoute_inspect hop] at hroute
            obtain ⟨found, hget⟩ := packetHandleInspectPlayer_turn hroute
            have htable : v.table = w.table :=
              dbPlayerGetPlayer_table (w := w.emit _) hcache hget
            exact htable

/-! ## What an entry is worth -/

/-- Whoever presents the code is taken for the owner of the account, by what the `c`-th token
has stored. -/
def Redeemable (t : AwaitingTable) (code id : CString) (c : ℕ) : Prop :=
  (code, c) ∈ t.entries ∧ (∃ conn, t.conns c = some conn) ∧ t.ids c = some id

theorem Redeemable.of_account (ht : w.table.WellFormed) (haccount : accountOf w packet = some id) :
    ∃ code c, cString packet.data = some code ∧ Redeemable w.table code id c := by
  obtain ⟨code, c, conn, hcode, hlookup, hconn, hid⟩ := accountOf_eq_some haccount
  exact ⟨code, c, hcode, AwaitingTable.mem_of_lookup hlookup, ⟨conn, hconn⟩,
    ht.id_eq c conn hconn ▸ hid⟩

variable {t t' : AwaitingTable} {tok id' : CString} {b : Bool} {c now : ℕ}

/-- **Storing a code.**  What the table is worth afterwards is the new code, or it was worth
it before and is another code. -/
theorem Redeemable.of_insert (ht : t.WellFormed)
    (hinsert : AwaitingTable.insert tok id' now t = .ok (b, t')) (h : Redeemable t' code id c) :
    code = tok ∧ id = id' ∧ c = t.next ∨ code ≠ tok ∧ Redeemable t code id c := by
  obtain ⟨hmem, ⟨conn, hconn⟩, hid⟩ := h
  rcases AwaitingTable.mem_entries_of_insert hinsert hmem with ⟨rfl, rfl⟩ | ⟨hne, hold⟩
  · refine Or.inl ⟨rfl, ?_, rfl⟩
    cases hlookup : t.entries.lookup code with
    | none =>
      obtain ⟨-, rfl⟩ := AwaitingTable.insert_of_none hlookup hinsert
      exact Option.some.inj (hid.symm.trans (AwaitingTable.ids_alloc_next id' now t))
    | some old =>
      obtain ⟨_, -, -, rfl⟩ := AwaitingTable.insert_of_some hlookup hinsert
      simp at hconn
  · have hnext : c ≠ t.next := Nat.ne_of_lt (ht.bound code c hold)
    refine Or.inr ⟨hne, hold, ?_⟩
    cases hlookup : t.entries.lookup tok with
    | none =>
      obtain ⟨-, rfl⟩ := AwaitingTable.insert_of_none hlookup hinsert
      simp only [AwaitingTable.alloc, Function.update_of_ne hnext] at hconn hid
      exact ⟨⟨conn, hconn⟩, hid⟩
    | some old =>
      obtain ⟨conn', hconn', -, rfl⟩ := AwaitingTable.insert_of_some hlookup hinsert
      -- the connection that is destroyed is that of the other code
      have hold' := AwaitingTable.mem_of_lookup hlookup
      have hold_next : old ≠ t.next := Nat.ne_of_lt (ht.bound tok old hold')
      have hc : c ≠ old := fun hc => hne (ht.inj code tok c hold (hc ▸ hold'))
      simp only [AwaitingTable.alloc, Function.update_of_ne hold_next] at hconn'
      simp only [AwaitingTable.alloc, Function.update_of_ne hnext,
        Function.update_of_ne (ht.id_eq old conn' hconn' ▸ hc)] at hconn hid
      exact ⟨⟨conn, hconn⟩, hid⟩

/-- **Spending a code.**  What the table is worth afterwards is another code and was there. -/
theorem Redeemable.of_remove (hremove : AwaitingTable.remove tok t = .ok (b, t'))
    (h : Redeemable t' code id c) : code ≠ tok ∧ Redeemable t code id c := by
  obtain ⟨hmem, ⟨conn, hconn⟩, hid⟩ := h
  obtain ⟨-, hconns, hentries⟩ := AwaitingTable.remove_eq_ok hremove
  obtain ⟨hold, hne⟩ := AwaitingTable.mem_eraseEntry.mp (hentries ▸ hmem)
  refine ⟨hne, hold, ⟨conn, hconns ▸ hconn⟩, ?_⟩
  cases hlookup : t.entries.lookup tok with
  | none => rw [← (AwaitingTable.remove_of_none hlookup hremove).2, hid]
  | some c' =>
    obtain ⟨conn', -, -, rfl⟩ := AwaitingTable.remove_of_some hlookup hremove
    by_cases hc : c = conn'.id
    · simp [hc] at hid
    · exact (Function.update_of_ne hc none t.ids).symm.trans hid

/-- A code that is spent is worth nothing for anybody. -/
theorem Redeemable.spent (ht : t.WellFormed)
    (hremove : AwaitingTable.remove code t = .ok (b, t')) (h : Redeemable t code id c) :
    t'.ids c = none := by
  obtain ⟨hmem, ⟨conn, hconn⟩, -⟩ := h
  obtain ⟨conn', hconn', -, rfl⟩ :=
    AwaitingTable.remove_of_some (ht.lookup_eq hmem) hremove
  obtain rfl := ht.id_eq c conn' hconn'
  exact Function.update_self _ _ _

theorem Codes.wellFormed (h : Codes w a w') (ht : w.table.WellFormed) : w'.table.WellFormed := by
  cases h with
  | stored hinsert => exact ht.insert hinsert
  | spent _ hremove => exact ht.remove hremove
  | same _ htable => rwa [htable]

/-- The code of a login that logs in is determined. -/
theorem Spends.inj {code code' : CString} (h : Spends code w a) (h' : Spends code' w a) :
    code = code' := by
  obtain ⟨s, packet, _, _, rfl, -, hcode, -⟩ := h
  obtain ⟨_, _, _, _, ha, -, hcode', -⟩ := h'
  obtain ⟨rfl, rfl⟩ := Request.packet.inj ha
  exact Option.some.inj (hcode.symm.trans hcode')

/-- **One request.**  What a code is worth after it is what the request has stored, or what
the code was worth before a request that does not concern it. -/
theorem Codes.redeemable (h : Codes w a w') (ht : w.table.WellFormed)
    (hcode : Redeemable w'.table code id c) :
    (∃ now, a = .token code id now) ∨ Redeemable w.table code id c ∧ ¬Concerns code w a := by
  cases h with
  | stored hinsert =>
    rcases hcode.of_insert ht hinsert with ⟨rfl, rfl, -⟩ | ⟨hne, hold⟩
    · exact Or.inl ⟨_, rfl⟩
    · refine Or.inr ⟨hold, ?_⟩
      rintro (⟨_, _, ha⟩ | ⟨_, _, _, _, ha, -⟩)
      · exact hne (Request.token.inj ha).1.symm
      · exact Request.noConfusion ha
  | spent hspends hremove =>
    obtain ⟨hne, hold⟩ := hcode.of_remove hremove
    refine Or.inr ⟨hold, ?_⟩
    rintro (⟨_, _, rfl⟩ | hspends')
    · obtain ⟨_, _, _, _, ha, -⟩ := hspends
      exact Request.noConfusion ha
    · exact hne (hspends'.inj hspends)
  | same hnone htable => exact Or.inr ⟨htable ▸ hcode, hnone code⟩

/-! ## Agreement -/

/-- Members of the world, with a table that is in order. -/
structure Coded (defs : MapDefs) (w : World) : Prop where
  member : Member defs w
  table : w.table.WellFormed

theorem Coded.step (h : Coded defs w) (hstep : Step defs w a w') : Coded defs w' :=
  ⟨(h.member.step hstep).1, (h.member.codes hstep).wellFormed h.table⟩

theorem coded_boot (playerdata : List Document) : Coded defs (boot playerdata) :=
  ⟨member_boot playerdata, AwaitingTable.wellFormed_init⟩

theorem coded_run {playerdata : List Document} {l : List (Request × World)}
    (h : Trace (Step defs) (boot playerdata) l w) : Coded defs w :=
  h.invariant (I := Coded defs) (fun _ _ _ ht => ht.step) (coded_boot playerdata)

theorem not_redeemable_boot (playerdata : List Document) :
    ¬Redeemable (boot playerdata).table code id c :=
  fun h => absurd h.1 List.not_mem_nil

/-- A request after which a session roams that was disabled is a login for its account. -/
theorem Member.login_of_roams (h : Member defs w) (hstep : Step defs w (.packet s packet) w')
    (hs : w.sessions.get s = some session) (hstate : session.state = .disabled)
    (hroams : w'.scene.RoamsWith s q) :
    ∃ id doc, LoginFor w (.packet s packet) id ∧ findById id w.playerdata = some doc ∧
      w'.scene.Holds s q id := by
  obtain ⟨hmember, hlogins⟩ := h.step hstep
  obtain ⟨k, hholds⟩ := hmember.membership.holds hroams
  have hnot : ¬w.scene.Holds s q k := by
    rintro ⟨⟨session', hs', hroaming, -⟩, -⟩
    obtain rfl := Option.some.inj (hs.symm.trans hs')
    exact absurd (hstate.symm.trans hroaming) (by decide)
  cases hlogins with
  | same _ hsame => exact absurd ((hsame s q k).mp hholds) hnot
  | added hfor hdoc _ hadded =>
    obtain ⟨rfl, rfl, rfl⟩ := ((hadded s q k).mp hholds).resolve_left hnot
    exact ⟨_, _, hfor, hdoc, hholds⟩

/-- **Agreement.**  When a session is logged in, the code of its packet was stored for the
account of its player by the auth receiver, and since then nobody else was logged in with
this code, and it was not stored again. -/
theorem login_agreement {playerdata : List Document} {l : List (Request × World)}
    (h : Trace (Step defs) (boot playerdata) l w) (hstep : Step defs w (.packet s packet) w')
    (hs : w.sessions.get s = some session) (hstate : session.state = .disabled)
    (hroams : w'.scene.RoamsWith s q) :
    ∃ code id now l₁ v l₂, cString packet.data = some code ∧ w'.scene.Holds s q id ∧
      l = l₁ ++ (.token code id now, v) :: l₂ ∧
      Trace (Guarded (Step defs) fun u a => ¬Concerns code u a) v l₂ w := by
  have hcoded : Coded defs w := coded_run h
  obtain ⟨id, _, ⟨_, _, _, ha, -, -, -, haccount⟩, -, hholds⟩ :=
    hcoded.member.login_of_roams hstep hs hstate hroams
  obtain ⟨rfl, rfl⟩ := Request.packet.inj ha
  obtain ⟨code, c, hcode, hredeem⟩ := Redeemable.of_account hcoded.table haccount
  have hback : ∀ t a u (e : CString × CString × ℕ), Coded defs t → Step defs t a u →
      Redeemable u.table e.1 e.2.1 e.2.2 →
        (∃ now, a = .token e.1 e.2.1 now) ∨ Redeemable t.table e.1 e.2.1 e.2.2 ∧
          ¬Concerns e.1 t a :=
    fun _ _ _ _ ht hstep he => (ht.member.codes hstep).redeemable ht.table he
  obtain ⟨l₁, _, v, l₂, rfl, ⟨now, rfl⟩, hsince⟩ :=
    Trace.since (I := Coded defs) (P := fun w e => Redeemable w.table e.1 e.2.1 e.2.2)
      (fun _ _ _ ht => ht.step) hback (coded_boot playerdata)
      (fun _ => not_redeemable_boot playerdata) h (a := (code, id, c)) hredeem
  exact ⟨code, id, now, l₁, v, l₂, hcode, hholds, rfl, hsince⟩

/-- The run of the first login. -/
theorem login_agreement_firstLogin : ∃ (w' : World) (id : CString) (now : ℕ)
    (l₁ : List (Request × World)) (v : World) (l₂ : List (Request × World)), w'.scene.Holds 0 0 id ∧
    [(.connect 3, afterConnect), (.token [49] [97] 0, afterToken)]
      = l₁ ++ (.token [49] id now, v) :: l₂ ∧
    Trace (Guarded (Step mapLoaders) fun u a => ¬Concerns [49] u a) v l₂ afterToken := by
  obtain ⟨w', _, _, hloop, hs, -⟩ := eventLoop_firstLogin
  have hsession : afterToken.sessions.get 0 = some ⟨3, .disabled, none⟩ := rfl
  obtain ⟨code, id, now, l₁, v, l₂, hcode, hholds, hl, hsince⟩ :=
    login_agreement ((Trace.nil.snoc step_afterConnect).snoc step_afterToken) (.packet hloop)
      hsession rfl ⟨_, hs, rfl, rfl⟩
  obtain rfl : [49] = code := Option.some.inj hcode
  exact ⟨w', id, now, l₁, v, l₂, hholds, hl, hsince⟩

/-! ## Which session used which token -/

/-- The tokens of a run, in their order, with the accounts they were stored for. -/
def tokens (l : List (Request × World)) : List (CString × CString) :=
  l.filterMap fun e => match e.1 with
    | .token code id _ => some (code, id)
    | _ => none

theorem tokens_eq (l : List (Request × World)) :
    tokens l = (l.map Prod.fst).filterMap fun
      | .token code id _ => some (code, id)
      | _ => none := by
  rw [List.filterMap_map]
  rfl

theorem tokens_append (l l' : List (Request × World)) :
    tokens (l ++ l') = tokens l ++ tokens l' := List.filterMap_append

/-- The session has sent the code in a login packet. -/
def Presents (l : List (Request × World)) (s : ℕ) (code : CString) : Prop :=
  ∃ packet v, (.packet s packet, v) ∈ l ∧ packet.opcode = loginPacket ∧
    cString packet.data = some code

/-- The session `s` was logged in with the token number `f s`, whose code it had sent, and
nobody can use this token any more.  What can be used are tokens that were stored. -/
structure Issued (w : World) (l : List (Request × World)) (f : ℕ → ℕ) : Prop where
  next : w.table.next = (tokens l).length
  redeem : ∀ code id c, Redeemable w.table code id c → (tokens l)[c]? = some (code, id)
  used : ∀ s q id, w.scene.Holds s q id →
    (∃ code, (tokens l)[f s]? = some (code, id) ∧ Presents l s code) ∧ w.table.ids (f s) = none
  inj : ∀ s s' q q' id id', w.scene.Holds s q id → w.scene.Holds s' q' id' → f s = f s' → s = s'

/-- What is free of its id stays so. -/
theorem Codes.ids_eq_none (h : Codes w a w') (hc : c < w.table.next)
    (hnone : w.table.ids c = none) : w'.table.ids c = none := by
  have hupdate : ∀ {ids : ℕ → Option CString} {k : ℕ}, ids c = none →
      Function.update ids k none c = none := by
    intro ids k hids
    by_cases hk : c = k
    · simp [hk]
    · simp [Function.update_of_ne hk, hids]
  have halloc : ∀ id now, (AwaitingTable.alloc id now w.table).ids c = none := by
    intro id now
    simp [AwaitingTable.alloc, Function.update_of_ne (Nat.ne_of_lt hc), hnone]
  cases h with
  | @stored tok id now _ _ hinsert =>
    cases hlookup : w.table.entries.lookup tok with
    | none =>
      rw [(AwaitingTable.insert_of_none hlookup hinsert).2]
      exact halloc id now
    | some old =>
      obtain ⟨_, -, -, ht'⟩ := AwaitingTable.insert_of_some hlookup hinsert
      rw [ht']
      exact hupdate (hupdate (halloc id now))
  | @spent _ code _ _ _ hremove =>
    cases hlookup : w.table.entries.lookup code with
    | none =>
      rw [(AwaitingTable.remove_of_none hlookup hremove).2]
      exact hnone
    | some c' =>
      obtain ⟨_, -, -, ht'⟩ := AwaitingTable.remove_of_some hlookup hremove
      rw [ht']
      exact hupdate hnone
  | same _ htable => rw [htable, hnone]

/-- A request that is no token brings none. -/
theorem tokens_eq_nil (h : ∀ tok id now, a ≠ .token tok id now) : tokens [(a, w')] = [] := by
  cases a with
  | token tok id now => exact absurd rfl (h tok id now)
  | _ => rfl

/-- **The numbers of the tokens.**  The table counts them, and what can be used has the number
of its token. -/
theorem Codes.numbers {toks : List (CString × CString)} (h : Codes w a w')
    (ht : w.table.WellFormed) (hnext : w.table.next = toks.length)
    (hredeem : ∀ code id c, Redeemable w.table code id c → toks[c]? = some (code, id)) :
    w'.table.next = (toks ++ tokens [(a, w')]).length ∧ ∀ code id c,
      Redeemable w'.table code id c → (toks ++ tokens [(a, w')])[c]? = some (code, id) := by
  cases h with
  | @stored tok id' now _ _ hinsert =>
    have htokens : tokens [(.token tok id' now, w')] = [(tok, id')] := rfl
    rw [htokens, (AwaitingTable.insert_eq_ok hinsert).next_eq, hnext]
    refine ⟨by simp, fun code id c hcode => ?_⟩
    rcases hcode.of_insert ht hinsert with ⟨rfl, rfl, rfl⟩ | ⟨-, hold⟩
    · simp [hnext]
    · have hget := hredeem code id c hold
      rw [List.getElem?_append_left (List.getElem?_eq_some_iff.mp hget).1, hget]
  | spent hspends hremove =>
    obtain ⟨_, _, _, _, rfl, -⟩ := hspends
    rw [tokens_eq_nil (by simp), List.append_nil, (AwaitingTable.remove_eq_ok hremove).1]
    exact ⟨hnext, fun code id c hcode => hredeem code id c (hcode.of_remove hremove).2⟩
  | same hnone htable =>
    rw [tokens_eq_nil fun tok id now ha => hnone tok (Or.inl ⟨id, now, ha⟩), List.append_nil,
      htable]
    exact ⟨hnext, hredeem⟩

/-- A session that was not logged in before a packet, and is after it, is that of the packet. -/
theorem Member.eq_of_added (h : Member defs w) (hstep : Step defs w (.packet s packet) w')
    {sid : ℕ} (hnot : ∀ q k, ¬w.scene.Holds sid q k) (hholds : w'.scene.Holds sid q id) :
    sid = s := by
  by_contra hne
  obtain ⟨session, hs, hroams⟩ := hholds.1
  have hs' : w.scene.session sid = some session :=
    ((h.packet_sessions hstep).1 sid hne).symm.trans hs
  obtain ⟨k, hholds'⟩ := h.membership.holds ⟨session, hs', hroams⟩
  exact hnot q k hholds'

/-- **One request** gives at most one session a token, and one that nobody has. -/
theorem Issued.step {l : List (Request × World)} {f : ℕ → ℕ} (hcoded : Coded defs w)
    (h : Issued w l f) (hstep : Step defs w a w') : ∃ f', Issued w' (l ++ [(a, w')]) f' := by
  have hcodes := hcoded.member.codes hstep
  obtain ⟨hnext, hredeem⟩ := hcodes.numbers hcoded.table h.next h.redeem
  rw [← tokens_append] at hnext hredeem
  -- a token keeps its number
  have hget : ∀ {c : ℕ} {e : CString × CString}, (tokens l)[c]? = some e →
      (tokens (l ++ [(a, w')]))[c]? = some e := by
    intro c e hc
    rw [tokens_append, List.getElem?_append_left (List.getElem?_eq_some_iff.mp hc).1, hc]
  have hsent : ∀ {s code}, Presents l s code → Presents (l ++ [(a, w')]) s code := by
    rintro s code ⟨packet, v, hmem, hlogin⟩
    exact ⟨packet, v, List.mem_append_left _ hmem, hlogin⟩
  -- who is logged in keeps its token
  have hkeeps : ∀ s q id, w.scene.Holds s q id →
      (∃ code, (tokens (l ++ [(a, w')]))[f s]? = some (code, id) ∧
        Presents (l ++ [(a, w')]) s code) ∧ w'.table.ids (f s) = none := by
    intro s q id hs
    obtain ⟨⟨code, hf, hcode⟩, hnone⟩ := h.used s q id hs
    have hlt : f s < (tokens l).length := (List.getElem?_eq_some_iff.mp hf).1
    exact ⟨⟨code, hget hf, hsent hcode⟩, hcodes.ids_eq_none (h.next ▸ hlt) hnone⟩
  cases (hcoded.member.step hstep).2 with
  | same _ hsame =>
    refine ⟨f, hnext, hredeem, fun s q id hs => hkeeps s q id ((hsame s q id).mp hs), ?_⟩
    intro s s' q q' id id' hs hs'
    exact h.inj s s' q q' id id' ((hsame s q id).mp hs) ((hsame s' q' id').mp hs')
  | @added sid p id doc hfor hdoc hnot hadded =>
    have hlogin : LoginFor w a id := hfor
    obtain ⟨s₀, packet, _, rfl, hop, -, -, haccount⟩ := hlogin
    obtain ⟨code, c, hcode, hold⟩ := Redeemable.of_account hcoded.table haccount
    have hspends : Spends code w (.packet s₀ packet) :=
      ⟨s₀, packet, id, doc, rfl, hfor, hcode, hdoc⟩
    obtain rfl : sid = s₀ := hcoded.member.eq_of_added hstep hnot
      ((hadded sid p id).mpr (Or.inr ⟨rfl, rfl, rfl⟩))
    -- nobody has the token that is used, and it cannot be used again
    have hfree : ∀ s q k, w.scene.Holds s q k → f s ≠ c := by
      rintro s q k hs rfl
      exact absurd (hold.2.2.symm.trans (h.used s q k hs).2) (Option.some_ne_none id)
    have hspent : w'.table.ids c = none := by
      cases hcodes with
      | spent hspends' hremove =>
        obtain rfl := hspends.inj hspends'
        exact hold.spent hcoded.table hremove
      | same hnone _ => exact absurd (Or.inr hspends) (hnone code)
    have hpresents : Presents (l ++ [(.packet sid packet, w')]) sid code :=
      ⟨packet, w', by simp, hop, hcode⟩
    have hother : ∀ {s q : ℕ} {k : CString}, w.scene.Holds s q k →
        Function.update f sid c s = f s := by
      intro s q k hs
      refine Function.update_of_ne ?_ c f
      rintro rfl
      exact hnot q k hs
    refine ⟨Function.update f sid c, hnext, hredeem, fun s q k hs => ?_,
      fun s s' q q' k k' hs hs' hf => ?_⟩
    · rcases (hadded s q k).mp hs with hs | ⟨rfl, rfl, rfl⟩
      · rw [hother hs]
        exact hkeeps s q k hs
      · rw [Function.update_self]
        exact ⟨⟨code, hget (h.redeem code _ c hold), hpresents⟩, hspent⟩
    · rcases (hadded s q k).mp hs with hs | ⟨rfl, -, -⟩
      · rw [hother hs] at hf
        rcases (hadded s' q' k').mp hs' with hs' | ⟨rfl, -, -⟩
        · rw [hother hs'] at hf
          exact h.inj s s' q q' k k' hs hs' hf
        · rw [Function.update_self] at hf
          exact absurd hf (hfree s q k hs)
      · rcases (hadded s' q' k').mp hs' with hs' | ⟨rfl, -, -⟩
        · rw [hother hs', Function.update_self] at hf
          exact absurd hf.symm (hfree s' q' k' hs')
        · rfl

theorem issued_run {playerdata : List Document} {l : List (Request × World)}
    (h : Trace (Step defs) (boot playerdata) l w) : ∃ f, Issued w l f := by
  induction h with
  | nil =>
    refine ⟨id, rfl, fun code id c hc => absurd hc (not_redeemable_boot playerdata), ?_, ?_⟩
    · rintro s q id ⟨⟨session, hs, -⟩, -⟩
      exact absurd hs.symm (Option.some_ne_none session)
    · rintro s s' q q' id id' ⟨⟨session, hs, -⟩, -⟩
      exact absurd hs.symm (Option.some_ne_none session)
  | snoc hrun hlast ih =>
    obtain ⟨f, hf⟩ := ih
    exact hf.step (coded_run hrun) hlast

/-- Sessions with one token are one session. -/
theorem Issued.eq_of_roams {l : List (Request × World)} {f : ℕ → ℕ} {s' q' : ℕ}
    (h : Issued w l f) (hmember : Member defs w) (hs : w.scene.RoamsWith s q)
    (hs' : w.scene.RoamsWith s' q') (hf : f s = f s') : s = s' := by
  obtain ⟨id, hholds⟩ := hmember.membership.holds hs
  obtain ⟨id', hholds'⟩ := hmember.membership.holds hs'
  exact h.inj s s' q q' id id' hholds hholds' hf

/-- **A token for every session.**  After any run, the sessions that roam can be told apart by
tokens of the run.  Each has sent the code of its token, and it roams with a player of the
account the token was stored for. -/
theorem sessions_of_tokens {playerdata : List Document} {l : List (Request × World)}
    (h : Trace (Step defs) (boot playerdata) l w) :
    ∃ f : ℕ → ℕ, (∀ s q id, w.scene.Holds s q id →
        ∃ code, (tokens l)[f s]? = some (code, id) ∧ Presents l s code) ∧
      ∀ s s' q q', w.scene.RoamsWith s q → w.scene.RoamsWith s' q' → f s = f s' → s = s' := by
  obtain ⟨f, hf⟩ := issued_run h
  exact ⟨f, fun s q id hs => (hf.used s q id hs).1,
    fun s s' q q' hs hs' => hf.eq_of_roams (member_run h) hs hs'⟩

/-- Two sessions with one account have used the two tokens that were stored for it. -/
theorem sessions_of_tokens_secondLogin : ∃ l w, Trace (Step mapLoaders) (boot [firstRecord]) l w ∧
    tokens l = [([49], [97]), ([50], [97])] ∧ w.scene.RoamsWith 0 0 ∧ w.scene.RoamsWith 1 1 ∧
    ∃ f : ℕ → ℕ, (∀ s q id, w.scene.Holds s q id →
        ∃ code, [(([49] : CString), ([97] : CString)), ([50], [97])][f s]? = some (code, id) ∧
          Presents l s code) ∧
      f 0 ≠ f 1 := by
  obtain ⟨l, w, _, _, hrun, hl, -, hs, hs', -⟩ := trace_secondLogin
  have htokens : tokens l = [([49], [97]), ([50], [97])] := by
    rw [tokens_eq, hl]
    rfl
  have hroams : w.scene.RoamsWith 0 0 := ⟨_, hs, rfl, rfl⟩
  have hroams' : w.scene.RoamsWith 1 1 := ⟨_, hs', rfl, rfl⟩
  obtain ⟨f, hf, hinj⟩ := sessions_of_tokens hrun
  refine ⟨l, w, hrun, htokens, hroams, hroams', f, htokens ▸ hf, fun heq => ?_⟩
  exact absurd (hinj 0 1 0 1 hroams hroams' heq) (by decide)

end World
end MmoBackend
