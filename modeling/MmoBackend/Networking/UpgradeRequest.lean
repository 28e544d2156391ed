import MmoBackend.Networking.Upgrade

/-!
# A client that asks for a WebSocket

`UpgradeRequest` is what such a client sends, at most half a buffer of it.  If it arrives in one
piece, the thread of the connection reads all of it and nothing else: the event loop starts with
a socket from which everything has been read.

This needs a client that waits for the answer, as the standard asks.  What it sends at once is
read into the buffer of the line reader, and the event loop never sees it.
-/

namespace MmoBackend
namespace Networking

open Arrivals Authentication Exec Memory

/-- A request that asks for a WebSocket. -/
structure UpgradeRequest where
  route : CString
  headers : List CString
  key : CString
  texts : ∀ line ∈ route :: (headers ++ [[13, 10]]), IsText line
  zero_notMem : 0 ∉ (route :: (headers ++ [[13, 10]])).flatten
  small : 2 * (route :: (headers ++ [[13, 10]])).flatten.length < bufferSize
  reads : RouteReads route
  fits : ∀ line ∈ headers, line.head? ≠ some 13 ∧ HeaderFits line
  upgrade : lookupLine headers upgradeHeader = some websocket
  lookup_key : lookupLine headers keyHeader = some key

namespace UpgradeRequest

/-- The lines of a request, with the empty one behind the headers. -/
def lines (q : UpgradeRequest) : List CString := q.route :: (q.headers ++ [[13, 10]])

/-- The bytes of a request. -/
def bytes (q : UpgradeRequest) : List UInt8 := q.lines.flatten

theorem length_bytes_lt (q : UpgradeRequest) : q.bytes.length < bufferSize := by
  have hsmall : 2 * q.bytes.length < bufferSize := q.small
  omega

theorem bytes_ne_nil (q : UpgradeRequest) : q.bytes ≠ [] := by
  obtain ⟨text, hroute, -, -⟩ := q.texts q.route List.mem_cons_self
  rw [bytes, lines, List.flatten_cons, hroute]
  simp

end UpgradeRequest

/-- The event loop gets the connection, in the state `c`, whatever the event loop is. -/
def Upgrades (lib : Digests) (s : Arrivals UInt8) (c : ClientState) : Prop :=
  ∃ n head, ∀ (fuel : ℕ) (eventLoopStart : Exec ClientState Unit), n ≤ fuel →
    webServerHandleClient lib eventLoopStart fuel ⟨⟨brInit s bufferSize, Heap.empty⟩, [], false⟩
      = (do eventLoopStart; teardown fuel head) c

variable {lib : Digests} {s t : Arrivals UInt8} {c c' : ClientState}
  {q : UpgradeRequest} {n : ℕ} {br : BufferedReader} {lines : List CString} {got : List UInt8}

/-! ## What is read -/

/-- The lines of a buffer that holds all that comes are delivered, and then nothing is left. -/
theorem Holds.delivers (hholds : Holds n lines.flatten br) (hlines : ∀ line ∈ lines, IsText line)
    (hfd : br.fd.all = []) (hsize : 2 * lines.flatten.length < n) :
    ∃ br', Delivers br lines br' ∧ br'.fd.all = [] := by
  induction lines generalizing br with
  | nil => exact ⟨br, .nil, hfd⟩
  | cons line lines ih =>
    obtain ⟨hline, hrest⟩ := List.forall_mem_cons.mp hlines
    rw [List.flatten_cons] at hholds hsize
    obtain ⟨i, hscan, hne, -, hat, hholds', hfd'⟩ := hholds.shows_line hline hfd hsize
    have hi : i ≤ (line ++ lines.flatten).length := by
      obtain rfl := Option.some.inj (hscan.symm.trans hholds.scan_eq)
      exact List.idxOf_le_length
    have hcall : brReadLine 1 br = .ok (some (lineAt i br.buf), advanced i br) :=
      brReadLine_line hscan hne (by rw [hholds.bufSize_eq]; omega)
    obtain ⟨br', hdelivers, hend⟩ := ih hholds' hrest hfd' (by
      rw [List.length_append] at hsize
      omega)
    exact ⟨br', .cons (hat ▸ hcall) hdelivers, hend⟩

theorem holds_brInit (s : Arrivals UInt8) : Holds bufferSize [] (brInit s bufferSize) :=
  ⟨rfl, by decide, List.not_mem_nil⟩

/-- **A request in one piece** is delivered, and then nothing is left. -/
theorem delivers_of_polls (h : s.InBlocks UpgradeRequest.bytes [q])
    (hpolls : Polls (bufferSize - 1) s got t) :
    ∃ br', Delivers (brInit s bufferSize) q.lines br' ∧ br'.fd.all = [] := by
  obtain ⟨rfl, ht⟩ := hpolls.block h (Nat.le_sub_one_of_lt q.length_bytes_lt)
  have hnul : 0 ∉ s.all := by
    rw [h.all_eq, List.map_singleton, List.flatten_singleton]
    exact q.zero_notMem
  obtain ⟨hholds, hrounds⟩ := (holds_brInit s).of_polls hnul hpolls
  obtain ⟨br', hdelivers, hend⟩ := Holds.delivers hholds q.texts ht q.small
  refine ⟨br', ?_, hend⟩
  cases hdelivers with
  | @cons _ br₁ _ fuel _ _ hcall hrest =>
    obtain ⟨fuel', hfuel'⟩ := hrounds fuel
    exact .cons (hfuel'.trans hcall) hrest

/-- **The request is answered** with the handshake for its key, and the event loop starts with
nothing to read. -/
theorem exists_upgrades (lib : Digests)
    (h : s.InBlocks UpgradeRequest.bytes [q]) (hpolls : Polls (bufferSize - 1) s got t) :
    ∃ c, Upgrades lib s c ∧ c.written = handshake lib q.key ∧ c.http.reader.fd.all = [] := by
  obtain ⟨br', hdelivers, hend⟩ := delivers_of_polls h hpolls
  obtain ⟨n, head, h', l, hchain, hlinks, hlen, hrun⟩ :=
    webServerHandleClient_run lib s q.reads q.fits rfl hdelivers
  refine ⟨⟨⟨br', h'⟩, handshake lib q.key, false⟩, ⟨n, head, fun fuel loop hfuel => ?_⟩, rfl, hend⟩
  rw [hrun fuel loop hfuel, if_pos q.upgrade]
  exact bind_of_ok (wsCreate_run hchain hlinks (hlen.trans_le hfuel) q.lookup_key)

/-! ## What is known of a connection that the event loop gets -/

theorem Upgrades.unique (h : Upgrades lib s c) (h' : Upgrades lib s c') : c = c' := by
  classical
  obtain ⟨n, head, hrun⟩ := h
  obtain ⟨n', head', hrun'⟩ := h'
  -- an event loop that tells `c` from every other state
  let probe : Exec ClientState Unit := fun d => .error (if d = c then .fault else .deadlock)
  have hsame := (hrun (max n n') probe (Nat.le_max_left n n')).symm.trans
    (hrun' (max n n') probe (Nat.le_max_right n n'))
  rw [bind_of_error (show probe c = .error .fault by simp [probe])] at hsame
  by_contra hne
  rw [bind_of_error (show probe c' = .error .deadlock by simp [probe, Ne.symm hne])] at hsame
  cases hsame

/-- The request has been read. -/
theorem Upgrades.phase (h : Upgrades lib s c) :
    ∃ fuel r, httpPhase fuel ⟨brInit s bufferSize, Heap.empty⟩ = .ok r := by
  obtain ⟨n, head, hrun⟩ := h
  cases hphase : httpPhase n ⟨brInit s bufferSize, Heap.empty⟩ with
  | ok r => exact ⟨n, r, hphase⟩
  | error e =>
    have hstop : ∀ loop : Exec ClientState Unit, webServerHandleClient lib loop n
        ⟨⟨brInit s bufferSize, Heap.empty⟩, [], false⟩ = .error e := by
      intro loop
      refine bind_of_error ?_
      rw [onHttp, hphase]
    have hfault := (hstop (Exec.stop .fault)).symm.trans (hrun n _ (Nat.le_refl n))
    have hdeadlock := (hstop (Exec.stop .deadlock)).symm.trans (hrun n _ (Nat.le_refl n))
    exact absurd (hfault.symm.trans hdeadlock) (by simp [Exec.stop, bind_of_error])

/-- Something has arrived. -/
theorem Upgrades.polls (h : Upgrades lib s c) (hnul : 0 ∉ s.all) :
    ∃ got t, Polls (bufferSize - 1) s got t := by
  obtain ⟨fuel, r, hphase⟩ := h.phase
  obtain ⟨blocks, u, hroute, -⟩ := bind_eq_ok.mp hphase
  obtain ⟨br', hroute, -⟩ := onReader_eq_ok.mp hroute
  obtain ⟨r, hcall, -⟩ := routeReads_of_run (intact_brInit (by decide) s) hroute
  obtain ⟨got, t, -, hpolls, -⟩ := (holds_brInit s).polls hnul hcall
  exact ⟨got, t, hpolls⟩

/-- **From a client that has asked**, everything has been read, and it has its answer. -/
theorem Upgrades.answered (h : Upgrades lib s c) (hs : s.InBlocks UpgradeRequest.bytes [q]) :
    c.written = handshake lib q.key ∧ c.http.reader.fd.all = [] := by
  have hnul : 0 ∉ s.all := by
    rw [hs.all_eq, List.map_singleton, List.flatten_singleton]
    exact q.zero_notMem
  obtain ⟨got, t, hpolls⟩ := h.polls hnul
  obtain ⟨c', hc', hwritten, hread⟩ := exists_upgrades lib hs hpolls
  exact h.unique hc' ▸ ⟨hwritten, hread⟩

/-- From a client that has sent nothing the event loop gets no connection. -/
theorem Upgrades.all_ne_nil (h : Upgrades lib s c) : s.all ≠ [] := by
  intro hnil
  obtain ⟨got, t, hpolls⟩ := h.polls (hnil ▸ List.not_mem_nil)
  have hall := hpolls.later.append_all
  rw [hnil, List.append_eq_nil_iff] at hall
  exact hpolls.ne_nil hall.1

/-! ## The request of the standard -/

/-- The example of the standard. -/
def sampleUpgrade : UpgradeRequest where
  route := sampleRoute
  headers := sampleHeaders
  key := sampleKey
  texts := by
    have htexts : ∀ line ∈ sampleRoute :: (sampleHeaders ++ [[13, 10]]),
        line = line.dropLast ++ [10] ∧ line.dropLast ≠ [] ∧ 10 ∉ line.dropLast := by
      decide +kernel
    exact fun line hline => ⟨_, htexts line hline⟩
  zero_notMem := by decide +kernel
  small := by decide +kernel
  reads := routeReads_sample
  fits := headerFits_sample
  upgrade := lookupLine_sample.1
  lookup_key := lookupLine_sample.2

end Networking
end MmoBackend
