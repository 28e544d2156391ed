import MmoBackend.Networking.HeaderLookup
import MmoBackend.Networking.HttpPhase

/-!
# From HTTP to WebSocket

`webServerHandleClient` is what the thread of a new connection does: it reads a request, looks
for an `Upgrade` header and, if it asks for a WebSocket, answers with the handshake of RFC 6455
and hands the connection to the event loop.  Everything else is closed.

The name of the header may be in upper or lower case, its value may not, and of several headers
with one name the first one counts.  A key has to be there: the answer is computed from it
without a look at the pointer.

SHA-1 and Base 64 come from libraries and are parameters.
-/

namespace MmoBackend
namespace Networking

open Arrivals Authentication Exec

/-! ## The functions -/

/-- What the thread of a connection works with, and the buffers of its calls of `ws_write`. -/
structure ClientState where
  http : HttpState
  written : List (List UInt8)
  closed : Bool

/-- Code that works with the reader and the headers. -/
def onHttp {α : Type} (x : Exec HttpState α) : Exec ClientState α := fun c =>
  match x c.http with
  | .ok (a, t) => .ok (a, { c with http := t })
  | .error e => .error e

/-- `ws_write`, on a socket that takes everything. -/
def wsWrite (buffer : List UInt8) : Exec ClientState Unit :=
  Exec.modify fun c => { c with written := c.written ++ [buffer] }

/-- `header_list_print`.  Both strings of every header are read. -/
def headerListPrint : ℕ → Option ℕ → Exec (Heap (Link Header)) Unit
  | 0, _ => Exec.stop .fuel
  | _ + 1, none => pure ()
  | fuel + 1, some cur => do
    let h ← Exec.get
    let link ← Exec.need (h.get cur)
    let _ ← Exec.need (link.payload.headerName >>= Block.string)
    let _ ← Exec.need (link.payload.headerValue >>= Block.string)
    headerListPrint fuel link.next

/-- The loop of `header_list_destroy`.  A link is freed when there is one behind it. -/
def destroyFrom : ℕ → ℕ → Exec (Heap (Link Header)) Unit
  | 0, _ => Exec.stop .fuel
  | fuel + 1, cur => do
    let h ← Exec.get
    let link ← Exec.need (h.get cur)
    match link.next with
    | none => pure ()
    | some next => do
      Exec.modify fun h => h.free cur
      destroyFrom fuel next

/-- `header_list_destroy`. -/
def headerListDestroy (fuel : ℕ) : Option ℕ → Exec (Heap (Link Header)) Unit
  | none => pure ()
  | some head => destroyFrom fuel head

/-- The suffix of `hash_key`. -/
def keySuffix : CString := "258EAFA5-E914-47DA-95CA-C5AB0DC85B11".toUTF8.toList

/-- The name of the header with the key. -/
def keyHeader : CString := "Sec-WebSocket-Key".toUTF8.toList

/-- The name of the header that asks for another protocol. -/
def upgradeHeader : CString := "Upgrade".toUTF8.toList

/-- The protocol that is asked for. -/
def websocket : CString := "websocket".toUTF8.toList

/-- `handshake_msg`. -/
def handshakeMsg : List UInt8 :=
  ("HTTP/1.1 101 Switching Protocols\r\nUpgrade: websocket\r\nConnection: Upgrade\r\n" ++
    "Sec-WebSocket-Accept: ").toUTF8.toList

/-- What the libraries compute: `SHA1`, and `g_base64_encode` of a hash that is there. -/
structure Digests where
  sha1 : List UInt8 → Vector UInt8 20
  base64Encode : Vector UInt8 20 → CString

section Functions

variable (lib : Digests)

/-- `hash_key`. -/
def hashKey : Option CString → Option (Vector UInt8 20)
  | none => none
  | some key => some (lib.sha1 (key ++ keySuffix))

/-- The string of a header that may not be there. -/
def headerString : Option Block → Exec ClientState (Option CString)
  | none => pure none
  | some block => do
    let s ← Exec.need block.string
    pure (some s)

/-- `ws_create`.  `g_base64_encode` returns null for a hash that is not there, and the length of
what it returned is taken. -/
def wsCreate (fuel : ℕ) (headers : Option ℕ) : Exec ClientState Unit := do
  let found ← onHttp (onHeaders (headerListGetHeader fuel headers keyHeader))
  let key ← headerString found
  wsWrite handshakeMsg
  let hash ← Exec.need (hashKey lib key)
  wsWrite (lib.base64Encode hash)
  wsWrite [13, 10, 13, 10]

/-- The end of `web_server_handle_client`. -/
def teardown (fuel : ℕ) (headers : Option ℕ) : Exec ClientState Unit := do
  onHttp (onHeaders (headerListDestroy fuel headers))
  Exec.modify fun c => { c with closed := true }

/-- `web_server_handle_client`, for a client whose address has a name.  If the first line raises
the flag there are no headers, and the connection is closed as well. -/
def webServerHandleClient (eventLoopStart : Exec ClientState Unit) (fuel : ℕ) :
    Exec ClientState Unit := do
  let headers ← onHttp (httpPhase fuel)
  onHttp (onHeaders (headerListPrint fuel headers))
  let found ← onHttp (onHeaders (headerListGetHeader fuel headers upgradeHeader))
  let upgrade ← headerString found
  if upgrade = some websocket then do
    wsCreate lib fuel headers
    eventLoopStart
  else pure ()
  teardown fuel headers

/-- The buffers of the handshake. -/
def handshake (key : CString) : List (List UInt8) :=
  [handshakeMsg, lib.base64Encode (lib.sha1 (key ++ keySuffix)), [13, 10, 13, 10]]

end Functions

/-! ## Headers -/

variable {h h' : Heap (Link Header)} {head : Option ℕ} {l : List (ℕ × Header)} {fuel n : ℕ}
  {br br' : BufferedReader} {hs : List CString} {r last : CString}

/-- The value of the first line with a name, in upper or lower case. -/
def lookupLine (hs : List CString) (name : CString) : Option CString :=
  (hs.find? fun line => (nameOf line).map tolower = name.map tolower).map valueOf

/-- The links carry what is in the lines. -/
def LinksRead (hs : List CString) (l : List (ℕ × Header)) : Prop :=
  List.Forall₂ (fun line e => Reads e.2 ((nameOf line).map tolower) (valueOf line)) hs l

theorem headerListPrint_run (hchain : Chain h head l) (hlinks : LinksRead hs l)
    (hfuel : l.length < fuel) : headerListPrint fuel head h = .ok ((), h) := by
  induction hchain generalizing hs fuel with
  | nil =>
    obtain ⟨fuel, rfl⟩ := Nat.exists_eq_succ_of_ne_zero (show fuel ≠ 0 by omega)
    rfl
  | @cons a next header l hget _ ih =>
    cases hlinks with
    | cons hreads hrest =>
      obtain ⟨fuel, rfl⟩ := Nat.exists_eq_succ_of_ne_zero (show fuel ≠ 0 by omega)
      rw [headerListPrint, get_bind, hget, need_some_bind, hreads.1, need_some_bind, hreads.2,
        need_some_bind]
      exact ih hrest (by rw [List.length_cons] at hfuel; omega)

/-- **The links are freed**, all but the last one. -/
theorem destroyFrom_run {a : ℕ} (hchain : Chain h (some a) l) (hfuel : l.length ≤ fuel) :
    ∃ h', destroyFrom fuel a h = .ok ((), h') ∧ (∀ e ∈ l.dropLast, h'.get e.1 = none) ∧
      (∀ e ∈ l.getLast?, h'.get e.1 ≠ none) ∧
      ∀ b, (∀ v, (b, v) ∉ l) → h'.get b = h.get b := by
  induction l generalizing a h fuel with
  | nil => cases hchain
  | cons e l ih =>
    cases hchain with
    | @cons _ next v _ hget hrest =>
      have hnot := (Chain.cons hget hrest).notMem_rest
      obtain ⟨fuel, rfl⟩ := Nat.exists_eq_succ_of_ne_zero (by
        rw [List.length_cons] at hfuel
        omega : fuel ≠ 0)
      cases hl : l with
      | nil =>
        subst hl
        cases hrest
        exact ⟨h, by rw [destroyFrom, get_bind, hget, need_some_bind]; rfl, by simp,
          by simp [hget], fun _ _ => rfl⟩
      | cons e' l' =>
        subst hl
        cases hrest with
        | @cons a' next' v' _ hget' hrest' =>
          have hfree : Chain (h.free a) (some a') ((a', v') :: l') :=
            (Chain.cons hget' hrest').free hnot
          obtain ⟨h', hrun, hgone, hkept, hother⟩ :=
            ih hfree (by simpa using hfuel)
          refine ⟨h', ?_, ?_, ?_, fun b hb => ?_⟩
          · rw [destroyFrom, get_bind, hget, need_some_bind]
            exact hrun
          · rw [List.dropLast_cons_of_ne_nil (List.cons_ne_nil _ _)]
            refine List.forall_mem_cons.mpr ⟨?_, hgone⟩
            rw [hother a hnot, Heap.get_free_self]
          · rwa [List.getLast?_cons_cons]
          · have hba : b ≠ a := fun hba => hb v (hba ▸ List.mem_cons_self)
            rw [hother b fun w hw => hb w (List.mem_cons_of_mem _ hw), Heap.get_free_of_ne h hba]

theorem headerListGetHeader_run (hchain : Chain h head l) (hlinks : LinksRead hs l)
    (name : CString) (hfuel : l.length < fuel) :
    ∃ found, headerListGetHeader fuel head name h = .ok (found, h) ∧
      found.map Block.string = (lookupLine hs name).map some := by
  have hfields : List.Forall₂ (fun (p : CString × CString) (e : ℕ × Header) => Reads e.2 p.1 p.2)
      (hs.map fun line => ((nameOf line).map tolower, valueOf line)) l :=
    List.forall₂_map_left_iff.mpr hlinks
  obtain ⟨found, hfound, hvalue⟩ := searchHeaders_run hchain hfields (name.map tolower) hfuel
  refine ⟨found, hfound, ?_⟩
  rw [hvalue, List.find?_map, Option.map_map, lookupLine, Option.map_map]
  rfl

/-- Lines become headers with what they say. -/
theorem exists_headers (h : ∀ line ∈ hs, HeaderFits line ∧ 0 ∉ line) :
    ∃ headers, List.Forall₂ (fun line header => parsed line = some header) hs headers ∧
      List.Forall₂ (fun line header => Reads header ((nameOf line).map tolower) (valueOf line))
        hs headers := by
  induction hs with
  | nil => exact ⟨[], .nil, .nil⟩
  | cons line hs ih =>
    obtain ⟨⟨hfits, hzero⟩, hrest⟩ := List.forall_mem_cons.mp h
    obtain ⟨header, hheader, hname, hvalue⟩ := hfits.toParses.parsed hzero
    obtain ⟨headers, hheaders, hreads⟩ := ih hrest
    rw [if_neg hfits.value_ne] at hvalue
    exact ⟨header :: headers, .cons hheader hheaders, .cons ⟨hname, hvalue⟩ hreads⟩

/-- **The two functions that read the request** return a list with a link for each line. -/
theorem httpPhase_run (hbr : Intact bufferSize br) (hr : RouteReads r)
    (hhs : ∀ line ∈ hs, line.head? ≠ some 13 ∧ HeaderFits line) (hlast : last.head? = some 13)
    (hread : Delivers br (r :: (hs ++ [last])) br') :
    ∃ n head h' l, (∀ fuel, n ≤ fuel → httpPhase fuel ⟨br, Heap.empty⟩ = .ok (head, ⟨br', h'⟩)) ∧
      Chain h' head l ∧ LinksRead hs l := by
  cases hread with
  | @cons _ br₁ _ rounds _ _ hcall hrest =>
    have hbr₁ := hbr.call hcall
    have hzero := hrest.zero_notMem hbr₁
    obtain ⟨headers, hheaders, hreads⟩ := exists_headers fun line hline =>
      ⟨(hhs line hline).2, hzero line (List.mem_append_left _ hline)⟩
    obtain ⟨ends, h', l, hparse, hb, hmap⟩ := parseLines_run hheaders (built_nil Heap.empty)
    obtain ⟨k, hloop⟩ := parseLoop_run hlast hbr₁.flags_eq (fun line hline => (hhs line hline).1)
      hrest hparse
    have hchain := hb.chain
    rw [List.nil_append] at hchain
    refine ⟨max rounds k, ends.head, h', l, fun fuel hfuel => ?_, hchain, ?_⟩
    · obtain ⟨blocks, hroute⟩ := webServerGetRoute_run hbr
        (brReadLine_mono hcall (le_trans (Nat.le_max_left rounds k) hfuel)) hr
      rw [httpPhase, bind_of_ok (onReader_of_ok hroute), get_bind,
        if_neg (fun hraised => hraised hbr₁.flags_eq)]
      exact hloop fuel (le_trans (Nat.le_max_right rounds k) hfuel)
    · rw [← hmap] at hreads
      exact List.forall₂_map_right_iff.mp hreads

/-! ## The thread of a connection -/

variable {lib : Digests} {c : ClientState} {key : CString}

theorem onHttp_of_ok {α : Type} {x : Exec HttpState α} {a : α} {t : HttpState}
    (hx : x c.http = .ok (a, t)) : onHttp x c = .ok (a, { c with http := t }) := by
  rw [onHttp, hx]

/-- The headers are read and stay as they are. -/
theorem onHttp_headers {α : Type} {x : Exec (Heap (Link Header)) α} {a : α}
    (hx : x c.http.headers = .ok (a, c.http.headers)) :
    onHttp (onHeaders x) c = .ok (a, c) :=
  onHttp_of_ok (t := c.http) (onHeaders_of_ok hx)

theorem headerString_run {found : Option Block} {value : Option CString}
    (h : found.map Block.string = value.map some) :
    headerString found c = .ok (value, c) := by
  cases found with
  | none =>
    obtain rfl := Option.map_eq_none_iff.mp h.symm
    rfl
  | some block =>
    obtain ⟨s, rfl, hs⟩ := Option.map_eq_some_iff.mp h.symm
    rw [headerString, ← hs, need_some_bind]
    rfl

/-- A lookup on behalf of the thread. -/
theorem headerString_lookup (hchain : Chain c.http.headers head l) (hlinks : LinksRead hs l)
    (hfuel : l.length < fuel) (name : CString) :
    (onHttp (onHeaders (headerListGetHeader fuel head name)) >>= headerString) c
      = .ok (lookupLine hs name, c) := by
  obtain ⟨found, hfound, hvalue⟩ := headerListGetHeader_run hchain hlinks name hfuel
  rw [bind_of_ok (onHttp_headers hfound)]
  exact headerString_run hvalue

/-- **The answer** to a request with a key. -/
theorem wsCreate_run (hchain : Chain c.http.headers head l) (hlinks : LinksRead hs l)
    (hfuel : l.length < fuel) (hkey : lookupLine hs keyHeader = some key) :
    wsCreate lib fuel head c
      = .ok ((), { c with written := c.written ++ handshake lib key }) := by
  have hlookup := headerString_lookup hchain hlinks hfuel keyHeader
  rw [hkey] at hlookup
  obtain ⟨found, c', hfound, hstring⟩ := bind_eq_ok.mp hlookup
  rw [wsCreate, bind_of_ok hfound, bind_of_ok hstring, wsWrite, modify_bind, hashKey,
    need_some_bind, wsWrite, modify_bind, wsWrite, handshake]
  simp [Exec.modify]

/-- Without a key there is no answer. -/
theorem wsCreate_fault (hchain : Chain c.http.headers head l) (hlinks : LinksRead hs l)
    (hfuel : l.length < fuel) (hkey : lookupLine hs keyHeader = none) :
    wsCreate lib fuel head c = .error .fault := by
  have hlookup := headerString_lookup hchain hlinks hfuel keyHeader
  rw [hkey] at hlookup
  obtain ⟨found, c', hfound, hstring⟩ := bind_eq_ok.mp hlookup
  rw [wsCreate, bind_of_ok hfound, bind_of_ok hstring, wsWrite, modify_bind, hashKey,
    need_none_bind]

/-- **The end** closes the connection and frees the headers, all but the last one. -/
theorem teardown_run (hchain : Chain c.http.headers head l) (hfuel : l.length ≤ fuel) :
    ∃ h', teardown fuel head c
        = .ok ((), { c with http := { c.http with headers := h' }, closed := true }) ∧
      (∀ e ∈ l.dropLast, h'.get e.1 = none) ∧ ∀ e ∈ l.getLast?, h'.get e.1 ≠ none := by
  have hrun : ∃ h', headerListDestroy fuel head c.http.headers = .ok ((), h') ∧
      (∀ e ∈ l.dropLast, h'.get e.1 = none) ∧ ∀ e ∈ l.getLast?, h'.get e.1 ≠ none := by
    cases head with
    | none =>
      obtain rfl := hchain.eq_nil
      exact ⟨_, rfl, by simp, by simp⟩
    | some a =>
      obtain ⟨h', hrun, hgone, hkept, -⟩ := destroyFrom_run hchain hfuel
      exact ⟨h', hrun, hgone, hkept⟩
  obtain ⟨h', hrun, hgone, hkept⟩ := hrun
  refine ⟨h', ?_, hgone, hkept⟩
  rw [teardown, bind_of_ok (onHttp_of_ok (onHeaders_of_ok hrun))]
  rfl

/-- **The thread of a connection** after it has read the request. -/
theorem webServerHandleClient_run (lib : Digests) (s : Arrivals UInt8)
    (hr : RouteReads r) (hhs : ∀ line ∈ hs, line.head? ≠ some 13 ∧ HeaderFits line)
    (hlast : last.head? = some 13)
    (hread : Delivers (brInit s bufferSize) (r :: (hs ++ [last])) br') :
    ∃ n head h' l, Chain h' head l ∧ LinksRead hs l ∧ l.length < n ∧
      ∀ (fuel : ℕ) (eventLoopStart : Exec ClientState Unit), n ≤ fuel →
        webServerHandleClient lib eventLoopStart fuel
            ⟨⟨brInit s bufferSize, Heap.empty⟩, [], false⟩
          = if lookupLine hs upgradeHeader = some websocket then
              (do wsCreate lib fuel head; eventLoopStart; teardown fuel head)
                ⟨⟨br', h'⟩, [], false⟩
            else teardown fuel head ⟨⟨br', h'⟩, [], false⟩ := by
  obtain ⟨k, head, h', l, hphase, hchain, hlinks⟩ :=
    httpPhase_run (intact_brInit (by decide) s) hr hhs hlast hread
  refine ⟨max k (l.length + 1), head, h', l, hchain, hlinks, Nat.le_max_right k _,
    fun fuel loop hfuel => ?_⟩
  have hlen : l.length < fuel := le_trans (Nat.le_max_right k _) hfuel
  have hlookup := headerString_lookup (c := ⟨⟨br', h'⟩, [], false⟩) hchain hlinks hlen upgradeHeader
  obtain ⟨found, c', hfound, hstring⟩ := bind_eq_ok.mp hlookup
  rw [webServerHandleClient,
    bind_of_ok (onHttp_of_ok (hphase fuel (le_trans (Nat.le_max_left k _) hfuel))),
    bind_of_ok (onHttp_headers (c := ⟨⟨br', h'⟩, [], false⟩)
      (headerListPrint_run hchain hlinks hlen)),
    bind_of_ok hfound, bind_of_ok hstring]
  by_cases hup : lookupLine hs upgradeHeader = some websocket
  · rw [if_pos hup, if_pos hup]
  · rw [if_neg hup, if_neg hup]

/-- **What becomes of a connection.**  For every request whose lines fit the buffers, and every
way in which it arrives: the event loop gets the connection, after the handshake for the key of
the request, if the first `Upgrade` header says `websocket` and there is a key.  If there is
none, the thread uses a null pointer.  To every other connection nothing is written.  At the end
the connection is closed, and the headers are freed, all but the last one. -/
theorem webServerHandleClient_eq (lib : Digests) (s : Arrivals UInt8)
    (hr : RouteReads r) (hhs : ∀ line ∈ hs, line.head? ≠ some 13 ∧ HeaderFits line)
    (hlast : last.head? = some 13)
    (hread : Delivers (brInit s bufferSize) (r :: (hs ++ [last])) br') :
    ∃ n head h' l, Chain h' head l ∧ LinksRead hs l ∧
      (∀ (fuel : ℕ) (eventLoopStart : Exec ClientState Unit), n ≤ fuel →
        webServerHandleClient lib eventLoopStart fuel
            ⟨⟨brInit s bufferSize, Heap.empty⟩, [], false⟩
          = if lookupLine hs upgradeHeader = some websocket then
              match lookupLine hs keyHeader with
              | some key =>
                (do eventLoopStart; teardown fuel head) ⟨⟨br', h'⟩, handshake lib key, false⟩
              | none => .error .fault
            else teardown fuel head ⟨⟨br', h'⟩, [], false⟩) ∧
      ∀ (fuel : ℕ) (br : BufferedReader) (written : List (List UInt8)), n ≤ fuel →
        ∃ h'', teardown fuel head ⟨⟨br, h'⟩, written, false⟩
            = .ok ((), ⟨⟨br, h''⟩, written, true⟩) ∧
          (∀ e ∈ l.dropLast, h''.get e.1 = none) ∧ ∀ e ∈ l.getLast?, h''.get e.1 ≠ none := by
  obtain ⟨k, head, h', l, hchain, hlinks, hlen, hrun⟩ :=
    webServerHandleClient_run lib s hr hhs hlast hread
  refine ⟨k, head, h', l, hchain, hlinks, fun fuel loop hfuel => ?_,
    fun fuel br written hfuel => ?_⟩
  · have hfuel' : l.length < fuel := hlen.trans_le hfuel
    rw [hrun fuel loop hfuel]
    by_cases hup : lookupLine hs upgradeHeader = some websocket
    · rw [if_pos hup, if_pos hup]
      cases hkey : lookupLine hs keyHeader with
      | some key => exact bind_of_ok (wsCreate_run hchain hlinks hfuel' hkey)
      | none => exact bind_of_error (wsCreate_fault hchain hlinks hfuel' hkey)
    · rw [if_neg hup, if_neg hup]
  · exact teardown_run (c := ⟨⟨br, h'⟩, written, false⟩) hchain (hlen.trans_le hfuel).le

/-! ### The request of the standard

The key is the one the standard gives as an example, with the hash of it. -/

/-- The key of the example. -/
def sampleKey : CString := "dGhlIHNhbXBsZSBub25jZQ==".toUTF8.toList

/-- The hash of the key of the example. -/
def sampleHash : Vector UInt8 20 :=
  #v[0xb3, 0x7a, 0x4f, 0x2c, 0xc0, 0x62, 0x4f, 0x16, 0x90, 0xf6, 0x46, 0x06, 0xcf, 0x38, 0x59, 0x45,
    0xb2, 0xbe, 0xc4, 0xea]

/-- The request line of the example. -/
def sampleRoute : CString := "GET /chat HTTP/1.1\r\n".toUTF8.toList

/-- The headers of the example that matter. -/
def sampleHeaders : List CString :=
  ["upgrade: websocket\r\n".toUTF8.toList,
    "Sec-WebSocket-Key: dGhlIHNhbXBsZSBub25jZQ==\r\n".toUTF8.toList]

/-- The example, when it has arrived in one piece. -/
def sampleRequest : Arrivals UInt8 :=
  ofList (sampleRoute :: (sampleHeaders ++ [[13, 10]])).flatten

theorem delivers_sample : ∃ br', Delivers (brInit sampleRequest bufferSize)
    (sampleRoute :: (sampleHeaders ++ [[13, 10]])) br' := by
  have htexts : ∀ line ∈ sampleRoute :: (sampleHeaders ++ [[13, 10]]),
      line = line.dropLast ++ [10] ∧ line.dropLast ≠ [] ∧ 10 ∉ line.dropLast := by
    decide +kernel
  exact (intact_brInit (by decide) _).delivers_iff.mpr (shows_ofList
    (fun line hline => ⟨_, htexts line hline⟩) (by decide +kernel) (by decide +kernel))

theorem routeReads_sample : RouteReads sampleRoute where
  method_lt := by decide +kernel
  route_lt := by decide +kernel
  method_ne := by decide +kernel
  route_ne := by decide +kernel

theorem headerFits_sample :
    ∀ line ∈ sampleHeaders, line.head? ≠ some 13 ∧ HeaderFits line := by
  have hheaders : ∀ line ∈ sampleHeaders, line.head? ≠ some 13 ∧ (nameOf line ≠ [] ∧
      (nameOf line).length < maxHeader ∧ (valueOf line).length < maxHeaderValue) ∧
      valueOf line ≠ [] := by
    decide +kernel
  intro line hline
  obtain ⟨hhead, ⟨hname, hlt, hlt'⟩, hvalue⟩ := hheaders line hline
  exact ⟨hhead, ⟨hname, hlt, hlt'⟩, hvalue⟩

theorem lookupLine_sample : lookupLine sampleHeaders upgradeHeader = some websocket ∧
    lookupLine sampleHeaders keyHeader = some sampleKey := by
  decide +kernel

/-- The hash of the example and the answer to its key. -/
def sampleLib : Digests where
  sha1 := fun _ => sampleHash
  base64Encode := fun _ => "s3pPLMBiTxaQ9kYGzzhZRbK+xOo=".toUTF8.toList

/-- The example is answered as the standard says, and closed when the event loop is done. -/
theorem webServerHandleClient_eq_sample : ∃ br' n head h',
    (∀ fuel eventLoopStart, n ≤ fuel →
      webServerHandleClient sampleLib eventLoopStart fuel
          ⟨⟨brInit sampleRequest bufferSize, Heap.empty⟩, [], false⟩
        = (do eventLoopStart; teardown fuel head)
          ⟨⟨br', h'⟩, [handshakeMsg, "s3pPLMBiTxaQ9kYGzzhZRbK+xOo=".toUTF8.toList,
            [13, 10, 13, 10]], false⟩) ∧
    ∀ fuel br written, n ≤ fuel →
      ∃ h'', teardown fuel head ⟨⟨br, h'⟩, written, false⟩
        = .ok ((), ⟨⟨br, h''⟩, written, true⟩) := by
  obtain ⟨br', hread⟩ := delivers_sample
  obtain ⟨hupgrade, hkey⟩ := lookupLine_sample
  obtain ⟨n, head, h', l, -, -, hclient, hteardown⟩ := webServerHandleClient_eq sampleLib
    sampleRequest routeReads_sample headerFits_sample rfl hread
  refine ⟨br', n, head, h', fun fuel loop hfuel => ?_, fun fuel br written hfuel => ?_⟩
  · rw [hclient fuel loop hfuel, if_pos hupgrade, hkey]
    rfl
  · obtain ⟨h'', hrun, -, -⟩ := hteardown fuel br written hfuel
    exact ⟨h'', hrun⟩

end Networking
end MmoBackend
