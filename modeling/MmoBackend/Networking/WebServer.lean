import MmoBackend.Networking.HeaderList

/-!
# `web-server.c`: the request line, and what is stored of a request

The method and the route of a request are stored in blocks of 32 and 1024 bytes, the name and
the value of a header in blocks of 128 and 1024.  A line that the reader returns can be almost
as long as its buffer, which has 4096 bytes, and none of the conversions has a width.  So a
long word is written past the end of its block, and a conversion that matches nothing leaves
its block as `malloc` handed it out.

`http_fields_iff` says which lines are stored as they should be.
-/

namespace MmoBackend
namespace Networking

open Arrivals Authentication Exec Memory

/-- The size of the buffer that `web_server_handle_client` passes to `br_init`. -/
def bufferSize : ℕ := 4096

/-- `MAX_LINE`. -/
def maxLine : ℕ := 1024

/-- `"%s %s"`. -/
def routeFormat : List (Directive UInt8) := word ++ .skip isspace :: (word ++ [])

/-- `web_server_get_route`.  It returns the two blocks with what has been stored.  The block
for the arguments is not used.  The method and the route are printed. -/
def webServerGetRoute (fuel : ℕ) (method route : Block) : Exec BufferedReader (Block × Block) := do
  let line ← brReadLine fuel
  let br ← Exec.get
  if br.flags ≠ 0 then pure (method, route)
  else
    match line with
    | none => pure (method, route)
    | some line => do
      let blocks ← Exec.need (sscanf routeFormat line method route)
      let _ ← Exec.need blocks.1.string
      let _ ← Exec.need blocks.2.string
      pure blocks

/-- `web_server_handle_client` from the allocation of the blocks to the end of the headers. -/
def httpPhase (fuel : ℕ) : Exec HttpState (Option ℕ) := do
  let _ ← onReader (webServerGetRoute fuel (malloc 32) (malloc maxLine))
  let s ← Exec.get
  if s.reader.flags ≠ 0 then pure none else headerListParseHeaders fuel

/-- A reader with a buffer of `n` bytes can return this line. -/
def CanReturn (n : ℕ) (line : CString) : Prop :=
  ∃ s br fuel br', Reached n s br ∧ brReadLine fuel br = .ok (some line, br')

variable {n : ℕ} {line text r : CString} {lines hs : List CString} {header : Header}

/-! ## Lines -/

/-- There is no zero byte in a line. -/
theorem CanReturn.zero_notMem (hn : 0 < n) (h : CanReturn n line) : 0 ∉ line := by
  obtain ⟨s, br, fuel, br', hreached, hrun⟩ := h
  exact (hreached.intact hn).zero_notMem hrun

/-- A text that is not empty and has a newline behind it. -/
theorem canReturn_text (htext : text ≠ []) (hnewline : 10 ∉ text) (hzero : 0 ∉ text)
    (hsize : text.length + 2 ≤ n) : CanReturn n (text ++ [10]) := by
  have hlength : (text ++ [10]).length ≤ n - 1 := by
    rw [List.length_append, List.length_singleton]
    omega
  have hnul : 0 ∉ text ++ [10] := by simpa using hzero
  have hempty : Holds n [] (brInit (ofList (text ++ [10])) n) :=
    ⟨rfl, by rw [List.length_nil]; omega, List.not_mem_nil⟩
  have hread : (ofList (text ++ [10])).readLoop (n - 1) = (text ++ [10], ofList []) :=
    readLoop_ofList hlength
  have hpolls : Polls (n - 1) (ofList (text ++ [10])) (text ++ [10]) (ofList []) := by
    have hhere := Polls.here (n := n - 1) (s := ofList (text ++ [10])) (by rw [hread]; simp)
    rwa [hread] at hhere
  obtain ⟨hholds, hrounds⟩ :=
    hempty.of_polls (by simpa [brInit, ofList, all] using hzero) hpolls
  have hidx : (text ++ [10]).idxOf 10 = text.length := by
    rw [List.idxOf_append, if_neg hnewline, List.idxOf_cons_self, Nat.zero_add]
  have hscan := hholds.scan_eq
  have hline := hholds.lineAt_eq
  rw [hidx] at hscan hline
  rw [List.take_of_length_le (by simp)] at hline
  obtain ⟨fuel, hfuel⟩ := hrounds 1
  have hcall : brReadLine 1 ⟨pad 0 n (text ++ [10]), ofList [], 0⟩ = _ :=
    brReadLine_line hscan (by simpa using htext) (hsize.trans (Nat.le_of_eq hholds.bufSize_eq.symm))
  rw [hline] at hcall
  exact ⟨_, _, fuel, _, .init, hfuel.trans hcall⟩

/-! ## The request line -/

/-- Both conversions of the request line stay inside their blocks. -/
def RouteStored (r : CString) : Prop :=
  (sscanf routeFormat r (malloc 32) (malloc maxLine)).isSome = true

/-- The first word of the request line fits into the block for the method, and the second one
into that for the route. -/
structure RouteFits (r : CString) : Prop where
  method_lt : (wordOf r).length < 32
  route_lt : (wordOf (behindWord r)).length < maxLine

instance (r : CString) : Decidable (RouteFits r) :=
  decidable_of_iff ((wordOf r).length < 32 ∧ (wordOf (behindWord r)).length < maxLine)
    ⟨fun h => ⟨h.1, h.2⟩, fun h => ⟨h.method_lt, h.route_lt⟩⟩

/-- There is no word behind the last one. -/
theorem wordOf_behindWord (h : wordOf r = []) : wordOf (behindWord r) = [] := by
  have hnone : r.dropWhile isspace = [] := by
    cases hrest : r.dropWhile isspace with
    | nil => rfl
    | cons b rest =>
      have hb := List.head?_dropWhile_not isspace r
      rw [wordOf, hrest] at h
      rw [hrest] at hb
      simp_all
  rw [behindWord, hnone]
  rfl

/-- What the conversions of the request line match. -/
theorem scanf_route (r : CString) :
    scanf routeFormat r
      = if wordOf r = [] then [] else if wordOf (behindWord r) = [] then [wordOf r]
        else [wordOf r, wordOf (behindWord r)] := by
  rw [routeFormat, scanf_word, scanf_space_word, scanf_word, scanf_nil]
  split
  · rfl
  · exact apply_ite (wordOf r :: ·) (wordOf (behindWord r) = []) [] [wordOf (behindWord r)]

/-- Two conversions stay inside their blocks if each does. -/
theorem sscanf_isSome {format : List (Directive UInt8)} {first second : Block} :
    (sscanf format line first second).isSome = true ↔
      (∀ s, (scanf format line)[0]? = some s → s.length < first.length) ∧
        ∀ s, (scanf format line)[1]? = some s → s.length < second.length := by
  rw [← store_isSome, ← store_isSome, sscanf]
  cases store first (scanf format line)[0]? with
  | none => simp
  | some first' =>
    cases store second (scanf format line)[1]? with
    | none => simp
    | some second' => simp

theorem routeStored_iff : RouteStored r ↔ RouteFits r := by
  rw [RouteStored, sscanf_isSome, scanf_route, Block.length_malloc, Block.length_malloc]
  by_cases hmethod : wordOf r = []
  · have hroute := wordOf_behindWord hmethod
    refine iff_of_true ?_ ⟨by rw [hmethod]; decide, by rw [hroute]; decide⟩
    simp [hmethod]
  · by_cases hroute : wordOf (behindWord r) = []
    · have hlt : 0 < maxLine := by decide
      constructor
      · intro h
        exact ⟨h.1 _ (by simp [hmethod, hroute]), by rw [hroute]; exact hlt⟩
      · intro h
        simpa [hmethod, hroute] using h.method_lt
    · constructor
      · intro h
        exact ⟨h.1 _ (by simp [hmethod, hroute]), h.2 _ (by simp [hmethod, hroute])⟩
      · intro h
        simpa [hmethod, hroute] using ⟨h.method_lt, h.route_lt⟩

/-! ## The headers -/

/-- A header carries a name and a value from a line, and both fit into their blocks. -/
def TakenFromLine (line : CString) (header : Header) : Prop :=
  ∃ name value, name <:+: line ∧ value <:+: line ∧ name.length + 1 ≤ maxHeader ∧
    value.length + 1 ≤ maxHeaderValue ∧ Reads header (name.map tolower) value

/-- The lines become the headers of a list, and nothing is stored outside of the blocks. -/
def HeadersStored (hs : List CString) : Prop :=
  ∃ ends h l, parseLines hs ⟨none, none⟩ Heap.empty = .ok (ends, h) ∧ Chain h ends.head l ∧
    List.Forall₂ (fun line e => TakenFromLine line e.2) hs l

/-- The text in front of the first colon is not empty and fits into the block for the name,
and there is a word behind the colon, which fits into that for the value. -/
structure HeaderFits (line : CString) : Prop extends Parses line where
  value_ne : valueOf line ≠ []

theorem headersStored_of_fits (hzero : ∀ line ∈ hs, 0 ∉ line) (h : ∀ line ∈ hs, HeaderFits line) :
    HeadersStored hs := by
  have hlines : ∀ line ∈ hs, ∃ header, parsed line = some header ∧ TakenFromLine line header := by
    intro line hline
    have hfits := h line hline
    obtain ⟨header, hparsed, hname, hvalue⟩ := hfits.toParses.parsed (hzero line hline)
    rw [if_neg hfits.value_ne] at hvalue
    exact ⟨header, hparsed, nameOf line, valueOf line, nameOf_within line, valueOf_within line,
      hfits.name_lt, hfits.value_lt, hname, hvalue⟩
  have hheaders : ∃ headers, List.Forall₂
      (fun line header => parsed line = some header ∧ TakenFromLine line header) hs headers := by
    clear h hzero
    induction hs with
    | nil => exact ⟨[], .nil⟩
    | cons line hs ih =>
      obtain ⟨header, hheader⟩ := hlines line List.mem_cons_self
      obtain ⟨headers, hheaders⟩ := ih fun line hline => hlines line (List.mem_cons_of_mem _ hline)
      exact ⟨header :: headers, .cons hheader hheaders⟩
  obtain ⟨headers, hheaders⟩ := hheaders
  obtain ⟨ends, h', l, hrun, hb, rfl⟩ :=
    parseLines_run (hheaders.imp fun _ _ hheader => hheader.1) (built_nil Heap.empty)
  refine ⟨ends, h', l, hrun, hb.chain, ?_⟩
  exact List.forall₂_map_right_iff.mp (hheaders.imp fun _ _ hheader => hheader.2)

theorem fits_of_headersStored (hzero : ∀ line ∈ hs, 0 ∉ line) (h : HeadersStored hs) :
    ∀ line ∈ hs, HeaderFits line := by
  obtain ⟨ends, h', l, hrun, hchain, htaken⟩ := h
  obtain ⟨headers, hheaders⟩ := forall_parsed_of_ok (built_nil Heap.empty) hrun
  obtain ⟨ends₁, h₁, l₁, hrun₁, hb, hmap⟩ := parseLines_run hheaders (built_nil Heap.empty)
  obtain ⟨rfl, rfl⟩ := Prod.mk.inj (Except.ok.inj (hrun₁.symm.trans hrun))
  obtain rfl : l₁ = l := hb.chain.unique hchain
  rw [← hmap, List.forall₂_map_right_iff] at hheaders
  intro line hline
  obtain ⟨i, hi, rfl⟩ := List.getElem_of_mem hline
  have hlt : i < l₁.length := by rw [← htaken.length_eq]; exact hi
  have hparsed := hheaders.get hi hlt
  obtain ⟨name, value, -, -, -, -, -, hvalue⟩ := htaken.get hi hlt
  rw [List.get_eq_getElem] at hparsed
  have hparses := parses_of_parsed hparsed
  refine ⟨hparses, fun hempty => ?_⟩
  obtain ⟨header, hheader, -, hnone⟩ := hparses.parsed (hzero _ hline)
  rw [if_pos hempty] at hnone
  obtain rfl := Option.some.inj (hheader.symm.trans hparsed)
  rw [hnone] at hvalue
  cases hvalue

/-- The list that the parser returns on a reader carries the headers of these lines. -/
def ParserStores (br : BufferedReader) (hs : List CString) : Prop :=
  ∃ fuel head t l, headerListParseHeaders fuel ⟨br, Heap.empty⟩ = .ok (head, t) ∧
    Chain t.headers head l ∧ List.Forall₂ (fun line e => TakenFromLine line e.2) hs l

/-- On a reader that delivers the lines and then one that starts with a carriage return, the
parser does what is done with the lines. -/
theorem parserStores_iff (hlines : ∀ line ∈ hs, line.head? ≠ some 13) {br br' : BufferedReader}
    {last : CString} (hflags : br.flags = 0) (hlast : last.head? = some 13)
    (hread : Delivers br (hs ++ [last]) br') : ParserStores br hs ↔ HeadersStored hs := by
  constructor
  · rintro ⟨fuel, head, t, l, hrun, hchain, htaken⟩
    obtain ⟨ends, hparse, rfl⟩ := parseLines_of_parseLoop hlast hflags hlines hread hrun
    exact ⟨ends, t.headers, l, hparse, hchain, htaken⟩
  · rintro ⟨ends, h', l, hparse, hchain, htaken⟩
    obtain ⟨k, hloop⟩ := parseLoop_run hlast hflags hlines hread hparse
    exact ⟨k, ends.head, ⟨br', h'⟩, l, hloop k (Nat.le_refl k), hchain, htaken⟩

/-- **Which fields fit their buffers**: for every request line and every list of header lines
that the reader can return, nothing is stored outside of the four kinds of blocks and every
name and value that is stored is from its line, if and only if the words of the request line
fit, and every header line has a name and a value that fit.  A line that starts with a
carriage return is no header line, and the parser stops in front of it. -/
theorem http_fields_iff (r : CString) (hhs : ∀ line ∈ hs, CanReturn bufferSize line)
    (hlines : ∀ line ∈ hs, line.head? ≠ some 13) :
    (RouteStored r ∧ HeadersStored hs ↔ RouteFits r ∧ ∀ line ∈ hs, HeaderFits line) ∧
      ∀ br last br', br.flags = 0 → last.head? = some 13 → Delivers br (hs ++ [last]) br' →
        (ParserStores br hs ↔ HeadersStored hs) := by
  have hzero : ∀ line ∈ hs, 0 ∉ line := fun line hline =>
    (hhs line hline).zero_notMem (by decide)
  rw [routeStored_iff]
  exact ⟨and_congr_right fun _ => ⟨fits_of_headersStored hzero, headersStored_of_fits hzero⟩,
    fun _ _ _ hflags hlast hread => parserStores_iff hlines hflags hlast hread⟩

/-- `GET /` with the header `A: b`. -/
theorem http_fields_iff_get :
    CanReturn bufferSize [71, 69, 84, 32, 47, 13, 10] ∧
      CanReturn bufferSize [65, 58, 32, 98, 13, 10] ∧
      RouteStored [71, 69, 84, 32, 47, 13, 10] ∧ HeadersStored [[65, 58, 32, 98, 13, 10]] := by
  have hrequest : CanReturn bufferSize ([71, 69, 84, 32, 47, 13] ++ [10]) :=
    canReturn_text (by decide) (by decide) (by decide) (by decide)
  have hheader : CanReturn bufferSize ([65, 58, 32, 98, 13] ++ [10]) :=
    canReturn_text (by decide) (by decide) (by decide) (by decide)
  exact ⟨hrequest, hheader, (http_fields_iff _ (List.forall_mem_singleton.mpr hheader)
    (List.forall_mem_singleton.mpr (by decide))).1.mpr
      ⟨by decide, List.forall_mem_singleton.mpr ⟨⟨by decide, by decide, by decide⟩, by decide⟩⟩⟩

/-- A method of 32 letters. -/
theorem http_fields_do_not_fit :
    ¬∀ (r : CString) (hs : List CString), CanReturn bufferSize r →
      (∀ line ∈ hs, CanReturn bufferSize line ∧ line.head? ≠ some 13) →
        RouteStored r ∧ HeadersStored hs := by
  intro h
  have hline : CanReturn bufferSize (List.replicate 32 65 ++ [32, 47, 13] ++ [10]) :=
    canReturn_text (by decide) (by decide) (by decide) (by decide)
  have hstored := (h _ [] hline (fun _ hmem => absurd hmem List.not_mem_nil)).1
  have hfits := routeStored_iff.mp hstored
  revert hfits
  decide

end Networking
end MmoBackend
