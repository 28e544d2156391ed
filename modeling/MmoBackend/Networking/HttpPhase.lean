import MmoBackend.Networking.WebServer

/-!
# The end of a request

Between the first byte of a connection and the end of the headers the server does nothing but
read lines.  It stops reading at a line that starts with a carriage return.  Nothing else
stops it: `br_read_line` asks `br_read` for more as long as the buffer looks empty, and does
not look at how much has come, so at the end of the stream it asks forever.

What becomes of a line decides about no read.  `phaseReads` are the reads of the two functions
by themselves, and `httpPhase_follows` says that the functions come to the end of these reads,
or read forever, or use memory outside of a block on the way.  Which lines do that is the
subject of `http_fields_iff`; here such a line is one line more that was read.

`Shows` follows the buffer from line to line.  `httpPhase_ends_iff` says that the reads come to
an end if and only if the buffer comes to show a line that starts with a carriage return,
behind the request line.  So the end of the stream never ends a request, and a request without
a carriage return never ends, `not_ends_of_no_return`.
-/

namespace MmoBackend
namespace Networking

open Arrivals Authentication Exec Memory

/-- The buffer shows these lines, one after the other. -/
inductive Shows : BufferedReader → List CString → Prop
  | nil {br : BufferedReader} : Shows br []
  | cons {br v : BufferedReader} {i : ℕ} {lines : List CString} :
      Looks br v → ¬Full v → scan v.buf = some i → Shows (advanced i v) lines →
      Shows br (lineAt i v.buf :: lines)

/-- There are two words in the request line, and they fit into their blocks. -/
structure RouteReads (r : CString) : Prop extends RouteFits r where
  method_ne : wordOf r ≠ []
  route_ne : wordOf (behindWord r) ≠ []

/-- The buffer shows a request line, header lines, and then a line that starts with a carriage
return. -/
def ShowsEnd (br : BufferedReader) : Prop :=
  ∃ r hs last, Shows br (r :: (hs ++ [last])) ∧ (∀ line ∈ hs, line.head? ≠ some 13) ∧
    last.head? = some 13

/-- The reads of the loop of `header_list_parse_headers`, for at most `fuel` lines. -/
def headerReads : ℕ → Exec BufferedReader Unit
  | 0 => Exec.stop .fuel
  | fuel + 1 => do
    let headerLine ← brReadLine fuel
    let br ← Exec.get
    match headerLine with
    | none => pure ()
    | some line => if br.flags = 0 ∧ line.head? ≠ some 13 then headerReads fuel else pure ()

/-- The reads of `web_server_get_route` and `header_list_parse_headers`. -/
def phaseReads (fuel : ℕ) : Exec BufferedReader Unit := do
  let _ ← brReadLine fuel
  let br ← Exec.get
  if br.flags ≠ 0 then pure () else headerReads fuel

/-- On a new connection the reads come to an end. -/
def PhaseEnds (s : Arrivals UInt8) : Prop :=
  ∃ fuel br, phaseReads fuel (brInit s bufferSize) = .ok ((), br)

/-- Code that comes to the end of these reads, or reads forever as they do, unless it uses memory
it must not use. -/
inductive Follows {α : Type} :
    Except Stop (α × HttpState) → Except Stop (Unit × BufferedReader) → Prop
  | fault {y : Except Stop (Unit × BufferedReader)} : Follows (.error .fault) y
  | fuel : Follows (.error .fuel) (.error .fuel)
  | ok {a : α} {br : BufferedReader} {h : Heap (Link Header)} :
      Follows (.ok (a, ⟨br, h⟩)) (.ok ((), br))

variable {n fuel : ℕ} {br br' : BufferedReader} {r last : CString} {lines hs : List CString}
  {h : Heap (Link Header)} {ends : Ends} {l : List (ℕ × Header)} {s : Arrivals UInt8}

/-! ## Lines -/

/-- What the buffer shows is what the calls return. -/
theorem Intact.delivers_iff (hbr : Intact n br) :
    (∃ br', Delivers br lines br') ↔ Shows br lines := by
  induction lines generalizing br with
  | nil => exact iff_of_true ⟨br, .nil⟩ .nil
  | cons line lines ih =>
    constructor
    · rintro ⟨br', hread⟩
      cases hread with
      | cons hcall hrest =>
        obtain ⟨v, i, hlooks, hfull, hscan, hne, hsize, hline, rfl⟩ := hbr.line_of_ok hcall
        obtain rfl := Option.some.inj hline
        have hshows := (ih (hbr.call hcall)).mp ⟨br', hrest⟩
        exact .cons hlooks hfull hscan hshows
    · intro hshows
      cases hshows with
      | cons hlooks hfull hscan hrest =>
        obtain ⟨i, fuel, hi, hne, hsize, hcall⟩ := (brReadLine_of_looks hbr hlooks).2 hfull
        obtain rfl := Option.some.inj (hscan.symm.trans hi)
        obtain ⟨br', hdelivers⟩ := (ih ((hlooks.intact hbr).advance hne hsize)).mpr hrest
        exact ⟨br', .cons hcall hdelivers⟩

theorem Delivers.zero_notMem (hread : Delivers br lines br') (hbr : Intact n br) :
    ∀ line ∈ lines, 0 ∉ line := by
  induction hread with
  | nil => exact fun line hline => absurd hline List.not_mem_nil
  | cons hcall _ ih =>
    exact List.forall_mem_cons.mpr ⟨hbr.zero_notMem hcall, ih (hbr.call hcall)⟩

/-! ## The request line -/

/-- The words of a request line can be read back. -/
theorem RouteReads.blocks (hr : RouteReads r) (hzero : 0 ∉ r) :
    ∃ blocks, sscanf routeFormat r (malloc 32) (malloc maxLine) = some blocks ∧
      blocks.1.string = some (wordOf r) ∧ blocks.2.string = some (wordOf (behindWord r)) := by
  have hbehind : behindWord r <:+: r :=
    (List.dropWhile_suffix _).isInfix.trans (List.dropWhile_suffix _).isInfix
  have hmethod : 0 ∉ wordOf r := fun h0 => hzero ((wordOf_within r).subset h0)
  have hroute : 0 ∉ wordOf (behindWord r) := fun h0 =>
    hzero (((wordOf_within _).trans hbehind).subset h0)
  have hmethodFits : (wordOf r).length + 1 ≤ (malloc 32).length := by
    rw [Block.length_malloc]
    exact hr.method_lt
  have hrouteFits : (wordOf (behindWord r)).length + 1 ≤ (malloc maxLine).length := by
    rw [Block.length_malloc]
    exact hr.route_lt
  obtain ⟨first, hfirst, hfirstRead⟩ := store_run hmethod hmethodFits
  obtain ⟨second, hsecond, hsecondRead⟩ := store_run hroute hrouteFits
  refine ⟨(first, second), ?_, hfirstRead, hsecondRead⟩
  simp [sscanf, scanf_route, hr.method_ne, hr.route_ne, hfirst, hsecond]

/-- Only words that are there and fit can be read back. -/
theorem routeReads_of_blocks {blocks : Block × Block} {method route : CString}
    (hscan : sscanf routeFormat r (malloc 32) (malloc maxLine) = some blocks)
    (hmethod : blocks.1.string = some method) (hroute : blocks.2.string = some route) :
    RouteReads r := by
  refine ⟨routeStored_iff.mp (Option.isSome_of_eq_some hscan), fun hnone => ?_, fun hnone => ?_⟩
  · simp [sscanf, scanf_route, hnone] at hscan
    rw [← hscan, Block.string_malloc] at hmethod
    cases hmethod
  · have hsecond : blocks.2 = malloc maxLine := by
      rw [sscanf, scanf_route, if_pos hnone] at hscan
      obtain ⟨first, -, second, hsecond, rfl⟩ := by
        simpa only [Option.bind_eq_bind, Option.bind_eq_some_iff, Option.pure_def,
          Option.some.injEq] using hscan
      split at hsecond <;> exact (Option.some.inj hsecond).symm
    rw [hsecond, Block.string_malloc] at hroute
    cases hroute

/-- A request line that can be stored is returned from. -/
theorem webServerGetRoute_run (hbr : Intact n br)
    (hcall : brReadLine fuel br = .ok (some r, br')) (hr : RouteReads r) :
    ∃ blocks, webServerGetRoute fuel (malloc 32) (malloc maxLine) br = .ok (blocks, br') := by
  obtain ⟨blocks, hscan, hmethod, hroute⟩ := hr.blocks (hbr.zero_notMem hcall)
  have hflags : br'.flags = 0 := (hbr.call hcall).flags_eq
  refine ⟨blocks, ?_⟩
  rw [webServerGetRoute, bind_of_ok hcall, get_bind,
    if_neg (fun hraised => hraised hflags)]
  dsimp only
  rw [hscan, need_some_bind, hmethod, need_some_bind, hroute, need_some_bind]
  rfl

/-- What has been returned from was such a line. -/
theorem routeReads_of_run {blocks : Block × Block} (hbr : Intact n br)
    (hrun : webServerGetRoute fuel (malloc 32) (malloc maxLine) br = .ok (blocks, br')) :
    ∃ r, brReadLine fuel br = .ok (some r, br') ∧ RouteReads r := by
  obtain ⟨out, br₁, hcall, hrest⟩ := bind_eq_ok.mp hrun
  obtain ⟨v, i, -, -, -, -, -, rfl, -⟩ := hbr.line_of_ok hcall
  have hflags : br₁.flags = 0 := (hbr.call hcall).flags_eq
  rw [get_bind, if_neg (fun hraised => hraised hflags)] at hrest
  simp only [bind_eq_ok, need_eq_ok, pure_eq_ok] at hrest
  obtain ⟨blocks', _, ⟨hscan, rfl⟩, method, _, ⟨hmethod, rfl⟩, route, _, ⟨hroute, rfl⟩, -, rfl⟩ :=
    hrest
  exact ⟨_, hcall, routeReads_of_blocks hscan hmethod hroute⟩

/-- A request line is stored, or memory is used that must not be. -/
theorem webServerGetRoute_or_fault (hbr : Intact n br)
    (hcall : brReadLine fuel br = .ok (some r, br')) :
    webServerGetRoute fuel (malloc 32) (malloc maxLine) br = .error .fault ∨
      ∃ blocks, webServerGetRoute fuel (malloc 32) (malloc maxLine) br = .ok (blocks, br') := by
  have hflags : br'.flags = 0 := (hbr.call hcall).flags_eq
  rw [webServerGetRoute, bind_of_ok hcall, get_bind, if_neg (fun hraised => hraised hflags)]
  dsimp only
  cases sscanf routeFormat r (malloc 32) (malloc maxLine) with
  | none => exact Or.inl (need_none_bind _)
  | some blocks =>
    rw [need_some_bind]
    cases blocks.1.string with
    | none => exact Or.inl (need_none_bind _)
    | some method =>
      rw [need_some_bind]
      cases blocks.2.string with
      | none => exact Or.inl (need_none_bind _)
      | some route => exact Or.inr ⟨blocks, rfl⟩

/-! ## The reads -/

/-- **What a loop that has ended has read**: lines, and then one that starts with a carriage
return. -/
theorem lines_of_headerReads (hbr : Intact n br) (hrun : headerReads fuel br = .ok ((), br')) :
    ∃ hs last, Delivers br (hs ++ [last]) br' ∧ (∀ line ∈ hs, line.head? ≠ some 13) ∧
      last.head? = some 13 := by
  induction fuel generalizing br with
  | zero => exact (stop_eq_ok.mp hrun).elim
  | succ fuel ih =>
    rw [headerReads] at hrun
    obtain ⟨out, br₁, hcall, hrest⟩ := bind_eq_ok.mp hrun
    obtain ⟨v, i, -, -, -, -, -, rfl, -⟩ := hbr.line_of_ok hcall
    have hflags : br₁.flags = 0 := (hbr.call hcall).flags_eq
    rw [get_bind] at hrest
    dsimp only at hrest
    by_cases hlast : (lineAt i v.buf).head? = some 13
    · rw [if_neg fun hgo => hgo.2 hlast] at hrest
      obtain ⟨-, rfl⟩ := pure_eq_ok.mp hrest
      exact ⟨[], _, .cons hcall .nil, fun line hline => absurd hline List.not_mem_nil, hlast⟩
    · rw [if_pos ⟨hflags, hlast⟩] at hrest
      obtain ⟨hs, last, hdelivers, hhs, hend⟩ := ih (hbr.call hcall) hrest
      exact ⟨_ :: hs, last, .cons hcall hdelivers, List.forall_mem_cons.mpr ⟨hlast, hhs⟩, hend⟩

/-- The loop reads the lines that the reader delivers, up to the one that starts with a carriage
return. -/
theorem headerReads_run (hlast : last.head? = some 13) (hflags : br.flags = 0)
    (hhs : ∀ line ∈ hs, line.head? ≠ some 13) (hread : Delivers br (hs ++ [last]) br') :
    ∃ n, ∀ fuel, n ≤ fuel → headerReads fuel br = .ok ((), br') := by
  induction hs generalizing br with
  | nil =>
    cases hread with
    | @cons _ _ _ rounds _ _ hcall hrest =>
      cases hrest
      refine ⟨rounds + 1, fun fuel hfuel => ?_⟩
      obtain ⟨fuel, rfl⟩ := Nat.exists_eq_succ_of_ne_zero (show fuel ≠ 0 by omega)
      rw [headerReads, bind_of_ok (brReadLine_mono hcall (by omega)), get_bind]
      dsimp only
      rw [if_neg fun hgo => hgo.2 hlast]
      rfl
  | cons line hs ih =>
    cases hread with
    | @cons _ br₁ _ rounds _ _ hcall hrest =>
      have hflags' : br₁.flags = 0 := (flags_eq hcall).trans hflags
      obtain ⟨hline, hhs⟩ := List.forall_mem_cons.mp hhs
      obtain ⟨n, hloop⟩ := ih hflags' hhs hrest
      refine ⟨max rounds n + 1, fun fuel hfuel => ?_⟩
      obtain ⟨fuel, rfl⟩ := Nat.exists_eq_succ_of_ne_zero (show fuel ≠ 0 by omega)
      rw [headerReads, bind_of_ok (brReadLine_mono hcall (by omega)), get_bind]
      dsimp only
      rw [if_pos ⟨hflags', hline⟩]
      exact hloop fuel (by omega)

theorem showsEnd_of_ends (h : PhaseEnds s) : ShowsEnd (brInit s bufferSize) := by
  have hbr : Intact bufferSize (brInit s bufferSize) := intact_brInit (by decide) s
  obtain ⟨fuel, br', hrun⟩ := h
  obtain ⟨out, br₁, hcall, hrest⟩ := bind_eq_ok.mp hrun
  obtain ⟨v, i, -, -, -, -, -, rfl, -⟩ := hbr.line_of_ok hcall
  have hbr₁ := hbr.call hcall
  rw [get_bind, if_neg (fun hraised => hraised hbr₁.flags_eq)] at hrest
  obtain ⟨hs, last, hdelivers, hhs, hlast⟩ := lines_of_headerReads hbr₁ hrest
  exact ⟨_, hs, last, hbr.delivers_iff.mp ⟨br', .cons hcall hdelivers⟩, hhs, hlast⟩

theorem ends_of_showsEnd (h : ShowsEnd (brInit s bufferSize)) : PhaseEnds s := by
  have hbr : Intact bufferSize (brInit s bufferSize) := intact_brInit (by decide) s
  obtain ⟨r, hs, last, hshows, hhs, hlast⟩ := h
  obtain ⟨br', hdelivers⟩ := hbr.delivers_iff.mpr hshows
  cases hdelivers with
  | @cons _ br₁ _ rounds _ _ hcall hrest =>
    have hbr₁ := hbr.call hcall
    obtain ⟨k, hloop⟩ := headerReads_run hlast hbr₁.flags_eq hhs hrest
    refine ⟨max rounds k, br', ?_⟩
    rw [phaseReads, bind_of_ok (brReadLine_mono hcall (Nat.le_max_left rounds k)), get_bind,
      if_neg (fun hraised => hraised hbr₁.flags_eq)]
    exact hloop _ (Nat.le_max_right rounds k)

/-! ## The functions follow their reads -/

/-- A call of the reader has no reason to stop but these two. -/
theorem Intact.stop_of_error {e : Stop} (hbr : Intact n br) (h : brReadLine fuel br = .error e) :
    e = .fault ∨ e = .fuel := by
  cases e with
  | fault => exact Or.inl rfl
  | fuel => exact Or.inr rfl
  | deadlock =>
    obtain ⟨v, fuel', hlooks, hv⟩ := exists_looks (by rw [h]; simp)
    have hintact := hlooks.intact hbr
    rw [h] at hv
    by_cases hfull : Full v
    · rw [hintact.call_full hlooks.scan_ne hfull] at hv
      cases hv
    · obtain ⟨_, -, -, -, hline⟩ := hintact.call_line hlooks.scan_ne hfull fuel'
      rw [hline] at hv
      cases hv

theorem follows_stop {α : Type} {e : Stop} {y : Except Stop (Unit × BufferedReader)}
    (he : e = .fault ∨ e = .fuel) (hy : y = .error e) :
    Follows (.error e : Except Stop (α × HttpState)) y := by
  rcases he with rfl | rfl
  · exact .fault
  · exact hy ▸ .fuel

/-- A line becomes a link, or memory is used that must not be. -/
theorem headerListParseLine_or_fault (hb : Built h ends l) (line : CString) :
    headerListParseLine line ends h = .error .fault ∨ ∃ ends' h' l',
      headerListParseLine line ends h = .ok (ends', h') ∧ Built h' ends' l' := by
  cases hline : parsed line with
  | none => exact Or.inl (hb.fault hline)
  | some header =>
    obtain ⟨ends', h', hparse, hb'⟩ := hb.parse hline
    exact Or.inr ⟨ends', h', _, hparse, hb'⟩

/-- **The loop over the headers.** -/
theorem parseLoop_follows (hbr : Intact n br) (hb : Built h ends l) (fuel : ℕ) :
    Follows (parseLoop fuel ends ⟨br, h⟩) (headerReads fuel br) := by
  induction fuel generalizing br h ends l with
  | zero => exact .fuel
  | succ fuel ih =>
    rw [parseLoop, headerReads]
    cases hcall : brReadLine fuel br with
    | error e =>
      rw [bind_of_error (onReader_of_error hcall), bind_of_error hcall]
      exact follows_stop (hbr.stop_of_error hcall) rfl
    | ok r =>
      obtain ⟨out, br₁⟩ := r
      obtain ⟨v, i, -, -, -, -, -, rfl, -⟩ := hbr.line_of_ok hcall
      have hbr₁ := hbr.call hcall
      rw [bind_of_ok (onReader_of_ok hcall), bind_of_ok hcall, get_bind, get_bind]
      dsimp only
      split
      · rcases headerListParseLine_or_fault hb (lineAt i v.buf) with hfault | ⟨_, _, _, hparse, hb'⟩
        · rw [bind_of_error (onHeaders_of_error hfault)]
          exact .fault
        · rw [bind_of_ok (onHeaders_of_ok hparse)]
          exact ih hbr₁ hb'
      · exact .ok

/-- **The two functions follow their reads.** -/
theorem httpPhase_follows (s : Arrivals UInt8) (fuel : ℕ) :
    Follows (httpPhase fuel ⟨brInit s bufferSize, Heap.empty⟩)
      (phaseReads fuel (brInit s bufferSize)) := by
  have hbr : Intact bufferSize (brInit s bufferSize) := intact_brInit (by decide) s
  rw [httpPhase, phaseReads]
  cases hcall : brReadLine fuel (brInit s bufferSize) with
  | error e =>
    have hroute : webServerGetRoute fuel (malloc 32) (malloc maxLine) (brInit s bufferSize)
        = .error e := bind_of_error hcall
    rw [bind_of_error (onReader_of_error hroute), bind_of_error hcall]
    exact follows_stop (hbr.stop_of_error hcall) rfl
  | ok r =>
    obtain ⟨out, br₁⟩ := r
    obtain ⟨v, i, -, -, -, -, -, rfl, -⟩ := hbr.line_of_ok hcall
    have hbr₁ := hbr.call hcall
    rcases webServerGetRoute_or_fault hbr hcall with hfault | ⟨blocks, hroute⟩
    · rw [bind_of_error (onReader_of_error hfault)]
      exact .fault
    · rw [bind_of_ok (onReader_of_ok hroute), bind_of_ok hcall, get_bind, get_bind,
        if_neg (fun hraised => hraised hbr₁.flags_eq),
        if_neg (fun hraised => hraised hbr₁.flags_eq)]
      exact parseLoop_follows hbr₁ (built_nil Heap.empty) fuel

/-- **When the reading of a request ends.**  For every stream and every way in which it arrives
the reads of the two functions come to an end if and only if the buffer comes to show a line
that starts with a carriage return, behind the request line.  And the functions do what their
reads do, whatever is in the lines, as long as they use no memory they must not use. -/
theorem httpPhase_ends_iff (s : Arrivals UInt8) :
    (PhaseEnds s ↔ ShowsEnd (brInit s bufferSize)) ∧
      ∀ fuel, Follows (httpPhase fuel ⟨brInit s bufferSize, Heap.empty⟩)
        (phaseReads fuel (brInit s bufferSize)) :=
  ⟨⟨showsEnd_of_ends, ends_of_showsEnd⟩, httpPhase_follows s⟩

/-! ## Requests that arrive in one piece -/

/-- A line with a text, and a newline behind it. -/
def IsText (line : CString) : Prop := ∃ text, line = text ++ [10] ∧ text ≠ [] ∧ 10 ∉ text

/-- The first line of a buffer that holds all that comes, and is at most half full. -/
theorem Holds.shows_line {P line : List UInt8} (hholds : Holds n (line ++ P) br)
    (hline : IsText line) (hfd : br.fd.all = []) (hsize : 2 * (line ++ P).length < n) :
    ∃ i, scan br.buf = some i ∧ i ≠ 0 ∧ ¬Full br ∧ lineAt i br.buf = line ∧
      Holds n P (advanced i br) ∧ (advanced i br).fd.all = [] := by
  obtain ⟨text, rfl, htext, hnewline⟩ := hline
  have hpos : text.length ≠ 0 := by simpa using htext
  have hidx : (text ++ [10] ++ P).idxOf 10 = text.length := by
    rw [List.append_assoc, List.idxOf_append, if_neg hnewline, List.singleton_append,
      List.idxOf_cons_self, Nat.zero_add]
  have hscan := hholds.scan_eq
  have hline := hholds.lineAt_eq
  have hnul := hholds.nul
  have hlength : text.length < (text ++ [10] ++ P).length := by simp
  rw [hidx] at hscan hline
  have htake : (text ++ [10] ++ P).take (text.length + 1) = text ++ [10] :=
    List.take_left' (by simp)
  have hdrop : (text ++ [10] ++ P).drop (text.length + 1) = P := List.drop_left' (by simp)
  have hlater := (later_readLoop (text.length + 1) br.fd).append_all
  rw [hfd, List.append_eq_nil_iff] at hlater
  have hfits : RefillFits n text.length (text ++ [10] ++ P) [] := Or.inl ⟨rfl, by omega⟩
  obtain ⟨hbuf, hlt⟩ := (refill_iff hholds.length_lt hlength hpos hnul (Nat.zero_le _)
    List.not_mem_nil).mpr hfits
  rw [hdrop, List.append_nil] at hbuf hlt
  refine ⟨text.length, hscan, hpos, fun hfull => ?_, hline.trans htake, ⟨?_, hlt, ?_⟩, hlater.2⟩
  · refine (hfull 10 ?_).2 rfl
    rw [hholds.bufSize_eq, hholds.buf_eq, pad, List.take_append, List.take_of_length_le (by omega)]
    simp
  · rw [advanced, hlater.1, hholds.bufSize_eq, hholds.buf_eq]
    exact hbuf
  · exact fun h0 => hnul (List.mem_append_right _ h0)

/-- What a buffer shows that holds all that comes. -/
theorem Holds.shows (hholds : Holds n lines.flatten br) (hlines : ∀ line ∈ lines, IsText line)
    (hfd : br.fd.all = []) (hsize : 2 * lines.flatten.length < n) : Shows br lines := by
  induction lines generalizing br with
  | nil => exact .nil
  | cons line lines ih =>
    obtain ⟨hline, hrest⟩ := List.forall_mem_cons.mp hlines
    rw [List.flatten_cons] at hholds hsize
    obtain ⟨i, hscan, hne, hfull, hat, hholds', hfd'⟩ := hholds.shows_line hline hfd hsize
    rw [← hat]
    refine .cons (.here ?_) hfull hscan (ih hholds' hrest hfd' ?_)
    · rw [hscan]
      exact fun h0 => hne (Option.some.inj h0)
    · rw [List.length_append] at hsize
      omega

/-- What a fresh reader shows of lines that have arrived. -/
theorem shows_ofList (hlines : ∀ line ∈ lines, IsText line) (hzero : 0 ∉ lines.flatten)
    (hsize : 2 * lines.flatten.length < n) : Shows (brInit (ofList lines.flatten) n) lines := by
  cases lines with
  | nil => exact .nil
  | cons line lines =>
    have hempty : Holds n [] (brInit (ofList (line :: lines).flatten) n) :=
      ⟨rfl, by rw [List.length_nil]; omega, List.not_mem_nil⟩
    have hread : (ofList (line :: lines).flatten).readLoop (n - 1)
        = ((line :: lines).flatten, ofList []) := readLoop_ofList (by omega)
    have hrefilled : refilled (brInit (ofList (line :: lines).flatten) n)
        = ⟨poke 0 (line :: lines).flatten (pad 0 n []), ofList [], 0⟩ := by
      rw [refilled, hempty.bufSize_eq]
      show BufferedReader.mk _ _ _ = _
      rw [brInit]
      dsimp only
      rw [hread]
    have hlt : (line :: lines).flatten.length < n := by omega
    have hholds := hempty.read (ofList []) hlt hzero
    have hshows : Shows (refilled (brInit (ofList (line :: lines).flatten) n)) (line :: lines) := by
      rw [hrefilled]
      exact hholds.shows hlines rfl hsize
    cases hshows with
    | cons hlooks hfull hscan hrest => exact .cons (.again hempty.scan_eq hlooks) hfull hscan hrest

/-- **A small request** that arrives in one piece, with an empty line at its end, is read to this
line. -/
theorem ends_of_small_request (htexts : ∀ line ∈ r :: (hs ++ [last]), IsText line)
    (hzero : 0 ∉ (r :: (hs ++ [last])).flatten)
    (hsize : 2 * (r :: (hs ++ [last])).flatten.length < bufferSize)
    (hhs : ∀ line ∈ hs, line.head? ≠ some 13) (hlast : last.head? = some 13) :
    PhaseEnds (ofList (r :: (hs ++ [last])).flatten) :=
  ends_of_showsEnd ⟨r, hs, last, shows_ofList htexts hzero hsize, hhs, hlast⟩

/-! ## Requests without a carriage return -/

theorem Looks.notMem {b : UInt8} {v : BufferedReader} (hlooks : Looks br v) (hbuf : b ∉ br.buf)
    (hfd : b ∉ br.fd.all) : b ∉ v.buf ∧ b ∉ v.fd.all := by
  induction hlooks with
  | here => exact ⟨hbuf, hfd⟩
  | @again br _ _ _ ih =>
    have hlater := (later_readLoop (br.bufSize - 1) br.fd).append_all
    rw [← hlater, List.mem_append, not_or] at hfd
    exact ih (notMem_poke hfd.1 hbuf) hfd.2

theorem notMem_advanced {b : UInt8} {i : ℕ} (hb : b ≠ 0) (hbuf : b ∉ br.buf)
    (hfd : b ∉ br.fd.all) : b ∉ (advanced i br).buf ∧ b ∉ (advanced i br).fd.all := by
  have hlater := (later_readLoop (i + 1) br.fd).append_all
  rw [← hlater, List.mem_append, not_or] at hfd
  refine ⟨notMem_poke hfd.1 (notMem_poke ?_ (notMem_poke ?_ hbuf)), hfd.2⟩
  · exact fun hmem => hb (List.eq_of_mem_replicate hmem)
  · exact fun hmem => hbuf (List.mem_of_mem_drop (List.mem_of_mem_take hmem))

/-- A byte that does not come is not in a line. -/
theorem Shows.notMem {b : UInt8} (hshows : Shows br lines) (hb : b ≠ 0) (hbuf : b ∉ br.buf)
    (hfd : b ∉ br.fd.all) : ∀ line ∈ lines, b ∉ line := by
  induction hshows with
  | nil => exact fun line hline => absurd hline List.not_mem_nil
  | @cons br v i lines hlooks _ _ _ ih =>
    obtain ⟨hbuf', hfd'⟩ := hlooks.notMem hbuf hfd
    obtain ⟨hbuf'', hfd''⟩ := notMem_advanced (i := i) hb hbuf' hfd'
    refine List.forall_mem_cons.mpr ⟨fun hmem => hbuf' ?_, ih hbuf'' hfd''⟩
    exact List.mem_of_mem_take ((List.takeWhile_sublist _).subset hmem)

/-- **A request without a carriage return** is read forever, however long it is and wherever it
ends. -/
theorem not_ends_of_no_return (hs : 13 ∉ s.all) : ¬PhaseEnds s := by
  intro hends
  obtain ⟨r, hs', last, hshows, -, hlast⟩ := showsEnd_of_ends hends
  have hbuf : 13 ∉ (brInit s bufferSize).buf := fun hmem => by
    rw [brInit, pad, List.nil_append] at hmem
    cases List.eq_of_mem_replicate hmem
  have hlines := hshows.notMem (by decide) hbuf hs
  refine hlines last ?_ (List.mem_of_mem_head? hlast)
  exact List.mem_cons_of_mem _ (List.mem_append_right _ List.mem_cons_self)

/-- At the end of the stream an empty buffer is filled forever. -/
theorem Holds.waits (hholds : Holds n [] br) (hfd : br.fd.all = []) (fuel : ℕ) :
    brReadLine fuel br = .error .fuel := by
  induction fuel generalizing br with
  | zero => rfl
  | succ fuel ih =>
    have hnul : 0 ∉ br.fd.all := by simp [hfd]
    obtain ⟨hholds', -, hagain⟩ := hholds.again hnul fuel
    have hlater := (later_readLoop (n - 1) br.fd).append_all
    rw [hfd, List.append_eq_nil_iff] at hlater
    rw [hagain]
    rw [hlater.1] at hholds' ⊢
    exact ih hholds' hlater.2

/-- A line that comes alone is returned, if the call is not cut off, and nothing is left. -/
theorem brReadLine_alone (hline : IsText r) (hzero : 0 ∉ r) (hsize : 2 * r.length < n) (fuel : ℕ) :
    brReadLine fuel (brInit (ofList r) n) = .error .fuel ∨
      ∃ br, brReadLine fuel (brInit (ofList r) n) = .ok (some r, br) ∧ Holds n [] br ∧
        br.fd.all = [] := by
  have hempty : Holds n [] (brInit (ofList r) n) :=
    ⟨rfl, by rw [List.length_nil]; omega, List.not_mem_nil⟩
  have hread : (brInit (ofList r) n).fd.readLoop (n - 1) = (r, ofList []) :=
    readLoop_ofList (by omega)
  have hnul : 0 ∉ (brInit (ofList r) n).fd.all := by simpa [brInit, ofList, all] using hzero
  rcases fuel with - | fuel
  · exact Or.inl rfl
  obtain ⟨hholds, -, hagain⟩ := hempty.again hnul fuel
  rw [hread] at hholds hagain
  rw [hagain]
  rcases fuel with - | fuel
  · exact Or.inl rfl
  obtain ⟨i, hscan, hi, -, hat, hholds', hfd⟩ :=
    Holds.shows_line (P := []) (by rw [List.append_nil]; exact hholds) hline rfl
      (by rw [List.append_nil]; exact hsize)
  have hlt : i ≤ r.length := by
    obtain rfl := Option.some.inj (hscan.symm.trans hholds.scan_eq)
    exact List.idxOf_le_length
  refine Or.inr ⟨_, ?_, hholds', hfd⟩
  rw [brReadLine_line hscan hi (by rw [hholds.bufSize_eq]; omega), hat]
  rfl

/-- **A request line and nothing behind it**: the functions are never done. -/
theorem httpPhase_waits (hline : IsText r) (hzero : 0 ∉ r) (hr : RouteReads r)
    (hsize : 2 * r.length < bufferSize) (fuel : ℕ) :
    httpPhase fuel ⟨brInit (ofList r) bufferSize, Heap.empty⟩ = .error .fuel := by
  have hbr : Intact bufferSize (brInit (ofList r) bufferSize) := intact_brInit (by decide) _
  rcases brReadLine_alone hline hzero hsize fuel with hcall | ⟨br₁, hcall, hholds, hfd⟩
  · have hroute : webServerGetRoute fuel (malloc 32) (malloc maxLine) (brInit (ofList r) bufferSize)
        = .error .fuel := bind_of_error hcall
    exact bind_of_error (onReader_of_error hroute)
  · obtain ⟨blocks, hroute⟩ := webServerGetRoute_run hbr hcall hr
    rw [httpPhase, bind_of_ok (onReader_of_ok hroute), get_bind,
      if_neg (fun hraised => hraised (hbr.call hcall).flags_eq)]
    cases fuel with
    | zero => rfl
    | succ fuel => exact bind_of_error (onReader_of_error (hholds.waits hfd fuel))

/-- A client that sends `GET /` and a newline, and closes the connection. -/
theorem httpPhase_does_not_end :
    (∀ fuel, httpPhase fuel ⟨brInit (ofList [71, 69, 84, 32, 47, 10]) bufferSize, Heap.empty⟩
      = .error .fuel) ∧ ¬∀ s : Arrivals UInt8, PhaseEnds s := by
  refine ⟨httpPhase_waits ⟨[71, 69, 84, 32, 47], rfl, by decide, by decide⟩ (by decide)
    ⟨⟨by decide, by decide⟩, by decide, by decide⟩ (by decide), fun h => ?_⟩
  exact not_ends_of_no_return (by decide) (h (ofList [71, 69, 84, 32, 47, 10]))

end Networking
end MmoBackend
