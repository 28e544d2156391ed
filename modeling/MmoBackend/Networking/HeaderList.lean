import Mathlib.Data.List.DropRight
import MmoBackend.Library.Block
import MmoBackend.Library.LinkedList
import MmoBackend.Library.Scanf
import MmoBackend.Networking.LongLines

/-!
# `header-list.c`: the headers of a request

The headers are read line by line until one starts with a carriage return.  Each becomes a
link at the end of a list, with two blocks of memory that `sscanf` fills from the line, and
the name is brought to lower case where it stands.  A lookup brings what is looked for to
lower case as well and walks down the list.

The conversions of the format store what they match and leave the block of a conversion that
is not reached as it was.
-/

namespace MmoBackend
namespace Networking

open Authentication Exec

/-! ## Characters -/

/-- `isspace`. -/
def isspace (b : UInt8) : Bool := b = 32 || (9 ≤ b && b ≤ 13)

/-- `tolower`. -/
def tolower (b : UInt8) : UInt8 := if 65 ≤ b ∧ b ≤ 90 then b + 32 else b

/-- `MAX_HEADER`. -/
def maxHeader : ℕ := 128

/-- `MAX_HEADER_VALUE`. -/
def maxHeaderValue : ℕ := 1024

/-- `%s`. -/
def word : List (Directive UInt8) := [.skip isspace, .take true fun b => !isspace b]

/-- `"%[^:]%*[:] %s"`. -/
def headerFormat : List (Directive UInt8) :=
  [.take true (· ≠ 58), .take false (· = 58), .skip isspace] ++ word

/-! ## Memory -/

/-- What one conversion of `sscanf` stores. -/
def store (block : Block) : Option CString → Option Block
  | none => some block
  | some s => block.write 0 (s ++ [0])

/-- `sscanf` with a format of two conversions. -/
def sscanf (format : List (Directive UInt8)) (line : CString) (first second : Block) :
    Option (Block × Block) := do
  let first ← store first (scanf format line)[0]?
  let second ← store second (scanf format line)[1]?
  pure (first, second)

/-- The loop that brings a string in memory to lower case. -/
def lowerInPlace (block : Block) : Option Block := do
  let s ← block.string
  block.write 0 (s.map tolower)

/-- The payload of a `HeaderList` node. -/
structure Header where
  headerName : Option Block
  headerValue : Option Block

/-- What the functions of a connection work on. -/
structure HttpState where
  reader : BufferedReader
  headers : Heap (Link Header)

/-- A call of the reader. -/
def onReader {α : Type} (x : Exec BufferedReader α) : Exec HttpState α := fun s =>
  match x s.reader with
  | .ok (a, br) => .ok (a, { s with reader := br })
  | .error e => .error e

/-- A piece of code that works on the headers only. -/
def onHeaders {α : Type} (x : Exec (Heap (Link Header)) α) : Exec HttpState α := fun s =>
  match x s.headers with
  | .ok (a, h) => .ok (a, { s with headers := h })
  | .error e => .error e

/-! ## The functions -/

/-- The two pointers of the loop of `header_list_parse_headers`, besides `cur`. -/
structure Ends where
  head : Option ℕ
  prev : Option ℕ

/-- `if(prev) prev->next_header = cur`. -/
def linkBehind (cur : ℕ) : Option ℕ → Exec (Heap (Link Header)) Unit
  | none => pure ()
  | some prev => do
    let h ← Exec.get
    let link ← Exec.need (h.get prev)
    Exec.modify fun h => h.set prev { link with next := some cur }

/-- The body of the loop of `header_list_parse_headers`.  The memory can always be
allocated. -/
def headerListParseLine (headerLine : CString) (ends : Ends) : Exec (Heap (Link Header)) Ends := do
  let h ← Exec.get
  let cur := h.next
  Exec.modify fun h => h.alloc ⟨none, ⟨none, none⟩⟩
  linkBehind cur ends.prev
  let blocks ← Exec.need (sscanf headerFormat headerLine (malloc maxHeader) (malloc maxHeaderValue))
  let name ← Exec.need (lowerInPlace blocks.1)
  Exec.modify fun h => h.set cur ⟨none, ⟨some name, some blocks.2⟩⟩
  pure ⟨ends.head.or (some cur), some cur⟩

/-- The rounds of the loop that are run with these lines. -/
def parseLines : List CString → Ends → Exec (Heap (Link Header)) Ends
  | [], ends => pure ends
  | line :: lines, ends => do
    let ends ← headerListParseLine line ends
    parseLines lines ends

/-- The loop of `header_list_parse_headers`, for at most `fuel` lines. -/
def parseLoop : ℕ → Ends → Exec HttpState (Option ℕ)
  | 0, _ => Exec.stop .fuel
  | fuel + 1, ends => do
    let headerLine ← onReader (brReadLine fuel)
    let s ← Exec.get
    match headerLine with
    | none => pure ends.head
    | some line =>
      if s.reader.flags = 0 ∧ line.head? ≠ some 13 then do
        let ends ← onHeaders (headerListParseLine line ends)
        parseLoop fuel ends
      else pure ends.head

/-- `header_list_parse_headers`. -/
def headerListParseHeaders (fuel : ℕ) : Exec HttpState (Option ℕ) := parseLoop fuel ⟨none, none⟩

/-- The loop of `header_list_get_header`. -/
def searchHeaders (headerLower : CString) : ℕ → Option ℕ →
    Exec (Heap (Link Header)) (Option Block)
  | 0, _ => Exec.stop .fuel
  | _ + 1, none => pure none
  | fuel + 1, some cur => do
    let h ← Exec.get
    let link ← Exec.need (h.get cur)
    let name ← Exec.need (link.payload.headerName >>= Block.string)
    if name = headerLower then pure link.payload.headerValue
    else searchHeaders headerLower fuel link.next

/-- `header_list_get_header`. -/
def headerListGetHeader (fuel : ℕ) (head : Option ℕ) (header : CString) :
    Exec (Heap (Link Header)) (Option Block) := searchHeaders (header.map tolower) fuel head

/-! ## What there is to prove about -/

/-- What a line becomes. -/
def parsed (line : CString) : Option Header := do
  let blocks ← sscanf headerFormat line (malloc maxHeader) (malloc maxHeaderValue)
  let name ← lowerInPlace blocks.1
  pure ⟨some name, some blocks.2⟩

/-- The text in front of the first colon. -/
def nameOf (line : CString) : CString := line.takeWhile fun b => b ≠ 58

/-- The first word. -/
def wordOf (s : CString) : CString := (s.dropWhile isspace).takeWhile fun b => !isspace b

/-- What is behind the first word. -/
def behindWord (s : CString) : CString := (s.dropWhile isspace).dropWhile fun b => !isspace b

/-- The first word behind the first colons. -/
def valueOf (line : CString) : CString :=
  wordOf ((line.dropWhile fun b => b ≠ 58).dropWhile fun b => b = 58)

/-- What can be read from a header. -/
def Reads (header : Header) (name value : CString) : Prop :=
  header.headerName >>= Block.string = some name ∧ header.headerValue >>= Block.string = some value

/-- The list that is being built, with its first and its last link. -/
structure Built (h : Heap (Link Header)) (ends : Ends) (l : List (ℕ × Header)) : Prop where
  chain : Chain h ends.head l
  prev_eq : ends.prev = l.getLast?.map Prod.fst

variable {h h' : Heap (Link Header)} {ends : Ends} {l : List (ℕ × Header)} {line last s : CString}
  {header : Header} {br br' : BufferedReader} {fuel : ℕ} {lines : List CString} {block : Block}

/-! ## Lower case -/

theorem tolower_ne_zero {b : UInt8} (hb : b ≠ 0) : tolower b ≠ 0 := by
  rw [tolower]
  split
  · rename_i hupper
    obtain ⟨hle, hge⟩ := hupper
    rw [UInt8.le_iff_toNat_le] at hle hge
    intro hzero
    have hnat := congrArg UInt8.toNat hzero
    rw [UInt8.toNat_add] at hnat
    simp at hnat hle hge
    omega
  · exact hb

theorem zero_not_mem_lower (hs : 0 ∉ s) : 0 ∉ s.map tolower := by
  intro hmem
  obtain ⟨b, hb, hzero⟩ := List.mem_map.mp hmem
  exact tolower_ne_zero (fun h0 => hs (h0 ▸ hb)) hzero

/-- The loop that brings a string to lower case does that. -/
theorem lowerInPlace_run (h : block.string = some s) :
    ∃ block', lowerInPlace block = some block' ∧ block'.string = some (s.map tolower) := by
  obtain ⟨hzero, rest, rfl⟩ := Block.string_eq_some.mp h
  refine ⟨(s.map tolower).map some ++ some 0 :: rest, ?_,
    Block.string_append (zero_not_mem_lower hzero) rest⟩
  rw [lowerInPlace, h, Option.bind_eq_bind, Option.bind_some, Block.write_zero (by simp)]
  simp

/-! ## One line -/

@[simp] theorem store_none (block : Block) : store block none = some block := rfl

/-- A conversion whose result fits is read back. -/
theorem store_run (hs : 0 ∉ s) (hfits : s.length + 1 ≤ block.length) :
    ∃ block', store block (some s) = some block' ∧ block'.string = some s := by
  have hwrite := Block.write_zero (l := s ++ [0]) (b := block) (by simpa using hfits)
  exact ⟨_, hwrite, Block.string_write hs hwrite⟩

/-- A conversion that matches nothing leaves the block, and one that does not fit leaves it
too far. -/
theorem store_isSome {found : Option CString} :
    (store block found).isSome = true ↔ ∀ s, found = some s → s.length < block.length := by
  cases found with
  | none => simp [store]
  | some s =>
    rw [store, Block.write_isSome, List.length_append, List.length_singleton]
    constructor
    · intro hfits s' hs
      rw [← Option.some.inj hs]
      omega
    · intro hlt
      have hs := hlt s rfl
      omega

/-- `%s` matches the first word. -/
theorem scanf_word (f : List (Directive UInt8)) (s : CString) :
    scanf (word ++ f) s
      = if wordOf s = [] then [] else wordOf s :: scanf f (behindWord s) := by
  rw [word, List.cons_append, scanf_skip, List.singleton_append]
  split
  · rename_i hword
    exact scanf_fail hword
  · rename_i hword
    exact scanf_store hword

/-- White space in the format makes no difference in front of a word. -/
theorem scanf_space_word (f : List (Directive UInt8)) (s : CString) :
    scanf (.skip isspace :: (word ++ f)) s = scanf (word ++ f) s := by
  rw [scanf_skip, word, List.cons_append, scanf_skip, scanf_skip, List.dropWhile_idempotent]

/-- **What the conversions match**: the name and the value, as far as they are there. -/
theorem scanf_header (line : CString) :
    scanf headerFormat line
      = if nameOf line = [] then [] else if valueOf line = [] then [nameOf line]
        else [nameOf line, valueOf line] := by
  have hformat : headerFormat = .take true (· ≠ 58) :: .take false (· = 58) ::
      .skip isspace :: (word ++ []) := rfl
  rw [hformat]
  split
  · rename_i hname
    exact scanf_fail hname
  · rename_i hname
    rw [scanf_store hname]
    by_cases hcolon : ((line.dropWhile fun b => decide (b ≠ 58)).takeWhile fun b => b = 58) = []
    · -- no colon, and nothing behind the name
      have hnone : (line.dropWhile fun b => decide (b ≠ 58)) = [] := by
        cases hrest : line.dropWhile fun b => decide (b ≠ 58) with
        | nil => rfl
        | cons b rest =>
          have hb := List.head?_dropWhile_not (fun b : UInt8 => decide (b ≠ 58)) line
          rw [hrest] at hb hcolon
          simp_all
      have hvalue : valueOf line = [] := by
        rw [valueOf, hnone]
        rfl
      rw [scanf_fail hcolon, if_pos hvalue]
      rfl
    · rw [scanf_drop hcolon, scanf_space_word, scanf_word, scanf_nil]
      exact apply_ite (nameOf line :: ·) (valueOf line = []) [] [valueOf line]

theorem wordOf_within (s : CString) : wordOf s <:+: s :=
  (List.takeWhile_prefix _).isInfix.trans (List.dropWhile_suffix _).isInfix

theorem nameOf_within (line : CString) : nameOf line <:+: line :=
  (List.takeWhile_prefix _).isInfix

theorem valueOf_within (line : CString) : valueOf line <:+: line :=
  (wordOf_within _).trans
    ((List.dropWhile_suffix _).isInfix.trans (List.dropWhile_suffix _).isInfix)

/-- The name is there and fits into its block, and the value fits if it is there. -/
structure Parses (line : CString) : Prop where
  name_ne : nameOf line ≠ []
  name_lt : (nameOf line).length < maxHeader
  value_lt : (valueOf line).length < maxHeaderValue

/-- **A line that parses** becomes a link with its name and its value.  Without a value the
block for it stays as it was. -/
theorem Parses.parsed (hline : Parses line) (hzero : 0 ∉ line) :
    ∃ header, parsed line = some header ∧
      header.headerName >>= Block.string = some ((nameOf line).map tolower) ∧
      header.headerValue >>= Block.string
        = if valueOf line = [] then none else some (valueOf line) := by
  have hname : 0 ∉ nameOf line := fun h0 => hzero ((nameOf_within line).subset h0)
  have hvalue : 0 ∉ valueOf line := fun h0 => hzero ((valueOf_within line).subset h0)
  have hnameFits : (nameOf line).length + 1 ≤ (malloc maxHeader).length := by
    rw [Block.length_malloc]
    exact hline.name_lt
  have hvalueFits : (valueOf line).length + 1 ≤ (malloc maxHeaderValue).length := by
    rw [Block.length_malloc]
    exact hline.value_lt
  obtain ⟨first, hfirst, hfirstRead⟩ := store_run hname hnameFits
  obtain ⟨lower, hlower, hlowerRead⟩ := lowerInPlace_run hfirstRead
  by_cases hempty : valueOf line = []
  · refine ⟨⟨some lower, some (malloc maxHeaderValue)⟩, ?_, hlowerRead, ?_⟩
    · simp [Networking.parsed, sscanf, scanf_header, hline.name_ne, hempty, hfirst, hlower]
    · rw [if_pos hempty]
      exact Block.string_malloc maxHeaderValue
  · obtain ⟨second, hsecond, hsecondRead⟩ := store_run hvalue hvalueFits
    refine ⟨⟨some lower, some second⟩, ?_, hlowerRead, ?_⟩
    · simp [Networking.parsed, sscanf, scanf_header, hline.name_ne, hempty, hfirst, hsecond,
        hlower]
    · rw [if_neg hempty]
      exact hsecondRead

/-- Only a line that parses becomes a link. -/
theorem parses_of_parsed (h : parsed line = some header) : Parses line := by
  simp only [parsed, sscanf, Option.bind_eq_bind, Option.bind_eq_some_iff, Option.pure_def,
    Option.some.injEq] at h
  obtain ⟨blocks, ⟨first, hfirst, second, hsecond, rfl⟩, name, hname, -⟩ := h
  have hfirstFits := store_isSome.mp (Option.isSome_of_eq_some hfirst)
  have hsecondFits := store_isSome.mp (Option.isSome_of_eq_some hsecond)
  rw [Block.length_malloc] at hfirstFits hsecondFits
  rw [scanf_header] at hfirst hfirstFits hsecondFits
  have hne : nameOf line ≠ [] := fun hempty => by
    rw [if_pos hempty] at hfirst
    obtain rfl := Option.some.inj hfirst
    rw [lowerInPlace, Block.string_malloc] at hname
    cases hname
  refine ⟨hne, ?_, ?_⟩
  · refine hfirstFits _ ?_
    rw [if_neg hne]
    split <;> rfl
  · by_cases hempty : valueOf line = []
    · rw [hempty]
      decide
    · refine hsecondFits _ ?_
      rw [if_neg hne, if_neg hempty]
      rfl

/-! ## The list -/

theorem built_nil (h : Heap (Link Header)) : Built h ⟨none, none⟩ [] := ⟨.nil, rfl⟩

/-- The list behind the link that was allocated for a line. -/
theorem Built.link (hb : Built h ends l) : ∃ h', linkBehind h.next ends.prev
      (h.alloc ⟨none, ⟨none, none⟩⟩) = .ok ((), h') ∧
    Chain h' (ends.head.or (some h.next)) (l ++ [(h.next, ⟨none, none⟩)]) := by
  obtain ⟨head, prev⟩ := ends
  obtain ⟨hchain, hprev⟩ := hb
  have hnew := h.get_alloc_next ⟨none, (⟨none, none⟩ : Header)⟩
  rcases List.eq_nil_or_concat' l with rfl | ⟨l, ⟨b, u⟩, rfl⟩
  · cases hchain
    obtain rfl : prev = none := hprev
    exact ⟨_, rfl, .cons hnew .nil⟩
  · obtain rfl : prev = some b := by simpa using hprev
    have hold := hchain.alloc ⟨none, ⟨none, none⟩⟩
    refine ⟨(h.alloc ⟨none, ⟨none, none⟩⟩).set b ⟨some h.next, u⟩, ?_, ?_⟩
    · rw [linkBehind, get_bind, hold.get_last, need_some_bind]
      rfl
    · dsimp only
      rw [hchain.or_head]
      exact hchain.add_last _

/-- **A line becomes the last link of the list.** -/
theorem Built.parse (hb : Built h ends l) (hline : parsed line = some header) :
    ∃ ends' h', headerListParseLine line ends h = .ok (ends', h') ∧
      Built h' ends' (l ++ [(h.next, header)]) := by
  obtain ⟨h₁, hlink, hchain⟩ := hb.link
  simp only [parsed, Option.bind_eq_bind, Option.bind_eq_some_iff, Option.pure_def,
    Option.some.injEq] at hline
  obtain ⟨blocks, hscan, name, hname, rfl⟩ := hline
  refine ⟨⟨ends.head.or (some h.next), some h.next⟩, _, ?_, hchain.set_last .nil, by simp⟩
  rw [headerListParseLine, get_bind,
    modify_bind, bind_of_ok hlink, hscan, need_some_bind, hname,
    need_some_bind, modify_bind]
  rfl

/-- A line that overflows a block, or leaves the name as it was, ends the run. -/
theorem Built.fault (hb : Built h ends l) (hline : parsed line = none) :
    headerListParseLine line ends h = .error .fault := by
  obtain ⟨h₁, hlink, -⟩ := hb.link
  rw [headerListParseLine, get_bind,
    modify_bind, bind_of_ok hlink]
  cases hscan : sscanf headerFormat line (malloc maxHeader) (malloc maxHeaderValue) with
  | none => rfl
  | some blocks =>
    have hname : lowerInPlace blocks.1 = none := by
      refine Option.eq_none_iff_forall_ne_some.mpr ?_
      simpa [parsed, hscan] using hline
    rw [need_some_bind, hname, need_none_bind]

/-- **The lines become links**, in order. -/
theorem parseLines_run {headers : List Header}
    (hlines : List.Forall₂ (fun line header => parsed line = some header) lines headers)
    (hb : Built h ends l) :
    ∃ ends' h' l', parseLines lines ends h = .ok (ends', h') ∧ Built h' ends' (l ++ l') ∧
      l'.map Prod.snd = headers := by
  induction hlines generalizing h ends l with
  | nil => exact ⟨ends, h, [], rfl, by rwa [List.append_nil], rfl⟩
  | @cons line header lines headers hline _ ih =>
    obtain ⟨ends₁, h₁, hparse, hb₁⟩ := hb.parse hline
    obtain ⟨ends', h', l', hrest, hb', hmap⟩ := ih hb₁
    refine ⟨ends', h', (h.next, header) :: l', ?_, ?_, by rw [List.map_cons, hmap]⟩
    · rw [parseLines, bind_of_ok hparse, hrest]
    · rw [List.append_assoc] at hb'
      exact hb'

/-- Lines that have become links could. -/
theorem Built.parsed_of_ok {ends' : Ends} (hb : Built h ends l)
    (hrun : headerListParseLine line ends h = .ok (ends', h')) :
    ∃ header, parsed line = some header ∧ Built h' ends' (l ++ [(h.next, header)]) := by
  cases hline : parsed line with
  | none => rw [hb.fault hline] at hrun; cases hrun
  | some header =>
    obtain ⟨ends₁, h₁, hparse, hb₁⟩ := hb.parse hline
    obtain ⟨rfl, rfl⟩ := Prod.mk.inj (Except.ok.inj (hparse.symm.trans hrun))
    exact ⟨header, rfl, hb₁⟩

/-- The same for several lines. -/
theorem forall_parsed_of_ok {ends' : Ends} (hb : Built h ends l)
    (hrun : parseLines lines ends h = .ok (ends', h')) :
    ∃ headers, List.Forall₂ (fun line header => parsed line = some header) lines headers := by
  induction lines generalizing h ends l with
  | nil => exact ⟨[], .nil⟩
  | cons line lines ih =>
    obtain ⟨ends₁, h₁, hparse, hrest⟩ := bind_eq_ok.mp hrun
    obtain ⟨header, hline, hb₁⟩ := hb.parsed_of_ok hparse
    obtain ⟨headers, hheaders⟩ := ih hb₁ hrest
    exact ⟨header :: headers, .cons hline hheaders⟩

/-! ## The loop -/

theorem onReader_of_ok {α : Type} {x : Exec BufferedReader α} {a : α}
    (hx : x br = .ok (a, br')) : onReader x ⟨br, h⟩ = .ok (a, ⟨br', h⟩) := by
  rw [onReader, hx]

theorem onHeaders_of_ok {α : Type} {x : Exec (Heap (Link Header)) α} {a : α}
    (hx : x h = .ok (a, h')) : onHeaders x ⟨br, h⟩ = .ok (a, ⟨br, h'⟩) := by
  rw [onHeaders, hx]

theorem onReader_of_error {α : Type} {x : Exec BufferedReader α} {e : Stop}
    (hx : x br = .error e) : onReader x ⟨br, h⟩ = .error e := by
  rw [onReader, hx]

theorem onHeaders_of_error {α : Type} {x : Exec (Heap (Link Header)) α} {e : Stop}
    (hx : x h = .error e) : onHeaders x ⟨br, h⟩ = .error e := by
  rw [onHeaders, hx]

theorem onReader_eq_ok {α : Type} {x : Exec BufferedReader α} {a : α} {t : HttpState} :
    onReader x ⟨br, h⟩ = .ok (a, t) ↔ ∃ br', x br = .ok (a, br') ∧ t = ⟨br', h⟩ := by
  rw [onReader]
  cases x br with
  | error e => simp
  | ok p => simp [Prod.ext_iff, eq_comm]

theorem onHeaders_eq_ok {α : Type} {x : Exec (Heap (Link Header)) α} {a : α} {t : HttpState} :
    onHeaders x ⟨br, h⟩ = .ok (a, t) ↔ ∃ h', x h = .ok (a, h') ∧ t = ⟨br, h'⟩ := by
  rw [onHeaders]
  cases x h with
  | error e => simp
  | ok p => simp [Prod.ext_iff, eq_comm]

/-- The line behind the headers. -/
theorem parseLoop_last (hread : brReadLine fuel br = .ok (some last, br'))
    (hlast : last.head? = some 13) :
    parseLoop (fuel + 1) ends ⟨br, h⟩ = .ok (ends.head, ⟨br', h⟩) := by
  rw [parseLoop, bind_of_ok (onReader_of_ok hread), get_bind]
  dsimp only
  rw [if_neg fun hgo => hgo.2 hlast]
  rfl

/-- A line with a header. -/
theorem parseLoop_line {ends' : Ends} (hread : brReadLine fuel br = .ok (some line, br'))
    (hflags : br'.flags = 0) (hline : line.head? ≠ some 13)
    (hparse : headerListParseLine line ends h = .ok (ends', h')) :
    parseLoop (fuel + 1) ends ⟨br, h⟩ = parseLoop fuel ends' ⟨br', h'⟩ := by
  rw [parseLoop, bind_of_ok (onReader_of_ok hread), get_bind]
  dsimp only
  rw [if_pos ⟨hflags, hline⟩, bind_of_ok (onHeaders_of_ok hparse)]

/-- **The loop** runs its body with the lines that the reader delivers, up to the one that
starts with a carriage return. -/
theorem parseLoop_run {ends' : Ends} (hlast : last.head? = some 13) (hflags : br.flags = 0)
    (hlines : ∀ line ∈ lines, line.head? ≠ some 13)
    (hread : Delivers br (lines ++ [last]) br')
    (hparse : parseLines lines ends h = .ok (ends', h')) :
    ∃ n, ∀ fuel, n ≤ fuel → parseLoop fuel ends ⟨br, h⟩ = .ok (ends'.head, ⟨br', h'⟩) := by
  induction lines generalizing br ends h with
  | nil =>
    obtain ⟨rfl, rfl⟩ := pure_eq_ok.mp hparse
    cases hread with
    | @cons _ _ _ rounds _ _ hcall hrest =>
      cases hrest
      refine ⟨rounds + 1, fun fuel hfuel => ?_⟩
      obtain ⟨fuel, rfl⟩ := Nat.exists_eq_succ_of_ne_zero (show fuel ≠ 0 by omega)
      exact parseLoop_last (brReadLine_mono hcall (by omega)) hlast
  | cons line lines ih =>
    obtain ⟨ends₁, h₁, hbody, hbodies⟩ := bind_eq_ok.mp hparse
    cases hread with
    | @cons _ br₁ _ rounds _ _ hcall hrest =>
      have hflags' : br₁.flags = 0 := (flags_eq hcall).trans hflags
      obtain ⟨n, hloop⟩ :=
        ih hflags' (fun line hline => hlines line (List.mem_cons_of_mem _ hline)) hrest hbodies
      refine ⟨max rounds n + 1, fun fuel hfuel => ?_⟩
      obtain ⟨fuel, rfl⟩ := Nat.exists_eq_succ_of_ne_zero (show fuel ≠ 0 by omega)
      rw [parseLoop_line (brReadLine_mono hcall (by omega)) hflags'
        (hlines line List.mem_cons_self) hbody]
      exact hloop fuel (by omega)

/-- A loop that returns has read what any call reads that returns. -/
theorem read_of_parseLoop {head : Option ℕ} {t : HttpState} {out : Option CString} {rounds : ℕ}
    (hcall : brReadLine rounds br = .ok (out, br'))
    (hrun : parseLoop (fuel + 1) ends ⟨br, h⟩ = .ok (head, t)) :
    brReadLine fuel br = .ok (out, br') := by
  obtain ⟨first, s, hfirst, -⟩ := bind_eq_ok.mp hrun
  obtain ⟨br₁, hread, -⟩ := onReader_eq_ok.mp hfirst
  obtain ⟨rfl, rfl⟩ := brReadLine_unique hread hcall
  exact hread

/-- If the loop returns, its body has run with the lines that the reader delivers. -/
theorem parseLines_of_parseLoop {head : Option ℕ} {t : HttpState} (hlast : last.head? = some 13)
    (hflags : br.flags = 0) (hlines : ∀ line ∈ lines, line.head? ≠ some 13)
    (hread : Delivers br (lines ++ [last]) br')
    (hrun : parseLoop fuel ends ⟨br, h⟩ = .ok (head, t)) :
    ∃ ends', parseLines lines ends h = .ok (ends', t.headers) ∧ head = ends'.head := by
  induction lines generalizing br ends h fuel with
  | nil =>
    cases fuel with
    | zero => cases hrun
    | succ fuel =>
      cases hread with
      | cons hcall hrest =>
        rw [parseLoop_last (read_of_parseLoop hcall hrun) hlast] at hrun
        obtain ⟨rfl, rfl⟩ := Prod.mk.inj (Except.ok.inj hrun)
        exact ⟨ends, rfl, rfl⟩
  | cons line lines ih =>
    cases fuel with
    | zero => cases hrun
    | succ fuel =>
      cases hread with
      | @cons _ br₁ _ _ _ _ hcall hrest =>
        have hflags' : br₁.flags = 0 := (flags_eq hcall).trans hflags
        have hfirst := read_of_parseLoop hcall hrun
        rw [parseLoop, bind_of_ok (onReader_of_ok hfirst), get_bind] at hrun
        dsimp only at hrun
        rw [if_pos ⟨hflags', hlines line List.mem_cons_self⟩] at hrun
        obtain ⟨ends₁, s, hbody, hloop⟩ := bind_eq_ok.mp hrun
        obtain ⟨h₁, hparse, rfl⟩ := onHeaders_eq_ok.mp hbody
        obtain ⟨ends', hbodies, hhead⟩ :=
          ih hflags' (fun line hline => hlines line (List.mem_cons_of_mem _ hline)) hrest hloop
        exact ⟨ends', by rw [parseLines, bind_of_ok hparse, hbodies], hhead⟩

/-! ## The lookup -/

/-- **The search** finds the first link with the name that is looked for. -/
theorem searchHeaders_run {head : Option ℕ} {fields : List (CString × CString)}
    (hchain : Chain h head l)
    (hfields : List.Forall₂ (fun field e => Reads e.2 field.1 field.2) fields l)
    (headerLower : CString) (hfuel : l.length < fuel) :
    ∃ found, searchHeaders headerLower fuel head h = .ok (found, h) ∧
      found.map Block.string
        = (fields.find? fun field => field.1 = headerLower).map fun field => some field.2 := by
  induction hchain generalizing fields fuel with
  | nil =>
    cases hfields
    obtain ⟨fuel, rfl⟩ := Nat.exists_eq_succ_of_ne_zero (show fuel ≠ 0 by omega)
    exact ⟨none, rfl, rfl⟩
  | @cons a next header l hget _ ih =>
    cases hfields with
    | @cons field _ fields _ hreads hrest =>
      obtain ⟨fuel, rfl⟩ := Nat.exists_eq_succ_of_ne_zero (show fuel ≠ 0 by omega)
      rw [searchHeaders, get_bind, hget, need_some_bind, hreads.1,
        need_some_bind, List.find?_cons]
      by_cases hname : field.1 = headerLower
      · rw [if_pos hname]
        obtain ⟨block, hblock, hvalue⟩ := Option.bind_eq_some_iff.mp hreads.2
        refine ⟨some block, by rw [hblock]; rfl, ?_⟩
        simp [hname, hvalue]
      · rw [if_neg hname]
        have hlt : l.length < fuel := by rw [List.length_cons] at hfuel; omega
        simpa [hname] using ih hrest hlt

end Networking
end MmoBackend
