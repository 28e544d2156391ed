import MmoBackend.Networking.HeaderList

/-!
# Looking up a header

`Field` is a header as a client should send it: a name, a colon, blanks and a value without
white space.  The two conversions of the format then match the name and the value and nothing
else, `scanf_text`, so the link that the line becomes carries the name in lower case and the
value.  What is looked for is brought to lower case too, and the first of several headers with
one name is the one that is found.
-/

namespace MmoBackend
namespace Networking

open Authentication Exec

/-- A header of a request. -/
structure Field where
  name : CString
  blanks : CString
  value : CString
  name_ne : name ≠ []
  name_lt : name.length < maxHeader
  name_plain : ∀ b ∈ name, b ≠ 58 ∧ b ≠ 0 ∧ b ≠ 13 ∧ b ≠ 10
  blanks_ne : blanks ≠ []
  blanks_blank : ∀ b ∈ blanks, b = 32 ∨ b = 9
  value_ne : value ≠ []
  value_lt : value.length < maxHeaderValue
  value_plain : ∀ b ∈ value, isspace b = false ∧ b ≠ 0

/-- The line of a header. -/
def Field.text (field : Field) : CString :=
  field.name ++ 58 :: (field.blanks ++ (field.value ++ [13, 10]))

variable {br br' : BufferedReader} {last : CString}

/-! ## One line -/

/-- The conversions match the name and the value. -/
theorem fields_text (field : Field) :
    nameOf field.text = field.name ∧ valueOf field.text = field.value := by
  obtain ⟨name, blanks, value, -, -, hplain, hblanks, hblank, hvalue, -, hword⟩ := field
  obtain ⟨c, value, rfl⟩ := List.exists_cons_of_ne_nil hvalue
  have hname : ∀ b ∈ name, decide (b ≠ 58) = true := fun b hb => by simpa using (hplain b hb).1
  have hspace : ∀ b ∈ blanks, isspace b = true := fun b hb => by
    rcases hblank b hb with rfl | rfl <;> decide
  have hnonspace : ∀ b ∈ c :: value, (!isspace b) = true := fun b hb => by
    simpa using (hword b hb).1
  have hcolon : ∀ b ∈ (58 :: (blanks ++ (c :: value ++ [13, 10]))).head?,
      decide (b ≠ 58) = false := by simp
  have hbehind : ∀ b ∈ (blanks ++ (c :: value ++ [13, 10])).head?, decide (b = 58) = false := by
    obtain ⟨b, blanks, rfl⟩ := List.exists_cons_of_ne_nil hblanks
    rcases hblank b List.mem_cons_self with rfl | rfl <;> simp
  have hnoblank : ∀ b ∈ (c :: value ++ [13, 10]).head?, isspace b = false := by
    simpa using (hword c List.mem_cons_self).1
  have hend : ∀ b ∈ [(13 : UInt8), 10].head?, (!isspace b) = false := by
    intro b hb
    obtain rfl : b = 13 := by simpa using hb.symm
    decide
  have hcolons := dropWhile_piece (l := [58]) (by simp) hbehind
  rw [List.singleton_append] at hcolons
  constructor
  · exact takeWhile_piece hname hcolon
  · rw [Field.text, valueOf, dropWhile_piece hname hcolon, hcolons, wordOf,
      dropWhile_piece hspace hnoblank, takeWhile_piece hnonspace hend]

/-- **A header becomes a link** that carries its name in lower case and its value. -/
theorem parsed_text (field : Field) : ∃ header, parsed field.text = some header ∧
    Reads header (field.name.map tolower) field.value := by
  obtain ⟨hname, hvalue⟩ := fields_text field
  have hparses : Parses field.text :=
    ⟨hname ▸ field.name_ne, hname ▸ field.name_lt, hvalue ▸ field.value_lt⟩
  have hzero : 0 ∉ field.text := by
    have hname0 := fun h0 => (field.name_plain 0 h0).2.1 rfl
    have hvalue0 := fun h0 => (field.value_plain 0 h0).2 rfl
    have hblank0 : 0 ∉ field.blanks := fun h0 => by
      rcases field.blanks_blank 0 h0 with h | h <;> cases h
    simpa [Field.text] using ⟨hname0, hblank0, hvalue0⟩
  obtain ⟨header, hparsed, hnameRead, hvalueRead⟩ := hparses.parsed hzero
  rw [hname] at hnameRead
  rw [hvalue, if_neg field.value_ne] at hvalueRead
  exact ⟨header, hparsed, hnameRead, hvalueRead⟩

/-- A header does not look like the end of the headers. -/
theorem head?_text (field : Field) : field.text.head? ≠ some 13 := by
  obtain ⟨b, name, hname⟩ := List.exists_cons_of_ne_nil field.name_ne
  rw [Field.text, hname]
  have hb := (field.name_plain b (hname ▸ List.mem_cons_self)).2.2.1
  simpa using hb

/-! ## The list -/

/-- **Looking up a header.**  If the reader delivers the lines of some headers and then one
that starts with a carriage return, the parser returns a list with one link for each header,
in order, and a lookup returns the value of the first header with that name, in upper or lower
case, or nothing if there is none. -/
theorem header_list_lookup (fields : List Field) (h : Heap (Link Header))
    (hlast : last.head? = some 13) (hflags : br.flags = 0)
    (hread : Delivers br (fields.map Field.text ++ [last]) br') :
    ∃ n head h' l, (∀ fuel, n ≤ fuel →
        headerListParseHeaders fuel ⟨br, h⟩ = .ok (head, ⟨br', h'⟩)) ∧
      Chain h' head l ∧
      List.Forall₂ (fun field e => Reads e.2 (field.name.map tolower) field.value) fields l ∧
      ∀ (header : CString) (fuel : ℕ), fields.length < fuel →
        ∃ found, headerListGetHeader fuel head header h' = .ok (found, h') ∧
          found.map Block.string
            = (fields.find? fun field => field.name.map tolower = header.map tolower).map
                fun field => some field.value := by
  choose header hparsed hreads using parsed_text
  have hlines : List.Forall₂ (fun line header => parsed line = some header)
      (fields.map Field.text) (fields.map header) := by
    rw [List.forall₂_map_left_iff, List.forall₂_map_right_iff, List.forall₂_same]
    exact fun field _ => hparsed field
  have hno : ∀ line ∈ fields.map Field.text, line.head? ≠ some 13 :=
    List.forall_mem_map.mpr fun field _ => head?_text field
  obtain ⟨ends, h', l, hparse, hb, hmap⟩ := parseLines_run hlines (built_nil h)
  obtain ⟨n, hloop⟩ := parseLoop_run hlast hflags hno hread hparse
  have hchain := hb.chain
  rw [List.nil_append] at hchain
  have hlinks : List.Forall₂
      (fun field e => Reads e.2 (field.name.map tolower) field.value) fields l := by
    have hheaders : List.Forall₂ (fun field header => Reads header (field.name.map tolower)
        field.value) fields (l.map Prod.snd) := by
      rw [hmap, List.forall₂_map_right_iff, List.forall₂_same]
      exact fun field _ => hreads field
    exact List.forall₂_map_right_iff.mp hheaders
  refine ⟨n, ends.head, h', l, hloop, hchain, hlinks, fun q fuel hfuel => ?_⟩
  have hfields : List.Forall₂ (fun (p : CString × CString) (e : ℕ × Header) => Reads e.2 p.1 p.2)
      (fields.map fun field => (field.name.map tolower, field.value)) l :=
    List.forall₂_map_left_iff.mpr hlinks
  obtain ⟨found, hfound, hvalue⟩ := searchHeaders_run hchain hfields (q.map tolower)
    (by rwa [← hlinks.length_eq])
  refine ⟨found, hfound, ?_⟩
  rw [hvalue, List.find?_map, Option.map_map]
  rfl

/-- A header with one letter as its name and one as its value. -/
def letterField (a v : UInt8) (ha : a ≠ 58 ∧ a ≠ 0 ∧ a ≠ 13 ∧ a ≠ 10)
    (hv : isspace v = false ∧ v ≠ 0) : Field :=
  ⟨[a], [32], [v], List.cons_ne_nil a [], (by decide : 1 < maxHeader),
    List.forall_mem_singleton.mpr ha, by decide, List.forall_mem_singleton.mpr (by decide),
    List.cons_ne_nil v [], (by decide : 1 < maxHeaderValue), List.forall_mem_singleton.mpr hv⟩

/-- `A: b`, `c: d` and `a: e`. -/
def threeFields : List Field :=
  [letterField 65 98 (by decide) (by decide), letterField 99 100 (by decide) (by decide),
    letterField 97 101 (by decide) (by decide)]

/-- The headers, when they have arrived in one piece. -/
def threeHeaders : BufferedReader :=
  brInit (Arrivals.ofList (threeFields.map Field.text ++ [[13, 10]]).flatten) 64

theorem delivers_threeHeaders :
    ∃ br', Delivers threeHeaders (threeFields.map Field.text ++ [[13, 10]]) br' := by
  have hrun : Exec.value (do
      let a ← brReadLine 2
      let b ← brReadLine 2
      let c ← brReadLine 2
      let d ← brReadLine 2
      pure (decide ([a, b, c, d] = (threeFields.map Field.text ++ [[13, 10]]).map some)))
      threeHeaders = some true := by
    decide +kernel
  obtain ⟨_, hrun⟩ := Exec.value_eq_some.mp hrun
  simp only [Exec.bind_eq_ok, Exec.pure_eq_ok, decide_eq_true_iff] at hrun
  obtain ⟨_, br₁, hfirst, _, br₂, hsecond, _, br₃, hthird, _, br₄, hfourth, hlines, -⟩ := hrun
  simp only [threeFields, List.map_cons, List.map_nil, List.cons_append, List.nil_append,
    List.cons.injEq, and_true] at hlines
  obtain ⟨rfl, rfl, rfl, rfl⟩ := hlines
  exact ⟨br₄, .cons hfirst (.cons hsecond (.cons hthird (.cons hfourth .nil)))⟩

/-- Of two headers with one name the first one is found, in upper or lower case. -/
theorem header_list_lookup_three :
    ∃ br' n head h', (∀ fuel, n ≤ fuel →
        headerListParseHeaders fuel ⟨threeHeaders, Heap.empty⟩ = .ok (head, ⟨br', h'⟩)) ∧
      (∃ found, headerListGetHeader 4 head [97] h' = .ok (found, h') ∧
        found.map Block.string = some (some [98])) ∧
      (∃ found, headerListGetHeader 4 head [67] h' = .ok (found, h') ∧
        found.map Block.string = some (some [100])) ∧
      ∃ found, headerListGetHeader 4 head [120] h' = .ok (found, h') ∧
        found.map Block.string = none := by
  obtain ⟨br', hread⟩ := delivers_threeHeaders
  obtain ⟨n, head, h', l, hparse, -, -, hlookup⟩ :=
    header_list_lookup threeFields Heap.empty rfl rfl hread
  exact ⟨br', n, head, h', hparse, hlookup [97] 4 (by decide), hlookup [67] 4 (by decide),
    hlookup [120] 4 (by decide)⟩

end Networking
end MmoBackend
