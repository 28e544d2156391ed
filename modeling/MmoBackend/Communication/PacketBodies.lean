import MmoBackend.Communication.PacketTypes
import MmoBackend.Library.Block
import MmoBackend.Maps.MapDefinitions
import MmoBackend.Player.Distance

/-!
# `packet-types.c`: the bodies of the packets

`ServerPacket.toPacket` says what the packet of a template contains.  Here the templates
allocate its body and write into it, byte for byte, and each of them computes three sizes on
its own: that of the block, how much is copied and what the packet states as its length.  A
packet is built within its body when no write goes outside of the block and every byte up to
the stated length has been written.

The sizes are `int`s, and the length of a string is a `size_t`.  Three templates lay out two
numbers and a string, and differ in whether the string has its zero byte with it; for them
the three sizes agree as long as they fit.  `packet_template_leaving_map` allocates one byte
more than it states.  `packet_template_error` allocates the length of its text and copies the
text with its zero byte, which goes outside for every code.
-/

namespace MmoBackend
namespace Communication

open Authentication Bytes Maps Player

open Block (strncpyBytes length_strncpyBytes strncpyBytes_append strncpyBytes_string strncpy_eq_some
  strncpy_malloc zero_mem_string)

/-! ## Memory -/

/-- An `int` as a `size_t`. -/
def sizeT (n : ℤ) : ℕ := (n % 2 ^ 64).toNat

/-- `malloc`.  For `2 ^ 63` bytes and more it returns a null pointer, and then every template
writes through that. -/
def allocate (size : ℕ) : Option Block := if 2 ^ 63 ≤ size then none else some (malloc size)

/-! ## The templates -/

/-- `Packet`, with the block its data is in.  A null pointer is `none`. -/
structure Built where
  opcode : UInt8
  id : BitVec 32
  length : BitVec 32
  data : Option Block

/-- `packet_create`. -/
def Built.create (opcode : UInt8) (id : ℤ) (data : Option Block) (len : ℤ) : Built :=
  ⟨opcode, BitVec.ofInt 32 id, BitVec.ofInt 32 len, data⟩

/-- A body of `size` bytes with two numbers and a string of `n` bytes in it. -/
def buildBody (size a b : ℤ) (src : List UInt8) (n : ℕ) : Option Block := do
  let body ← allocate (sizeT size)
  let body ← body.write 0 (intBytes a)
  let body ← body.write 4 (intBytes b)
  body.strncpy 8 src n

namespace Bodies

/-- `packet_template_success`. -/
def packetTemplateSuccess (code : ℤ) : Option (Option Built) := some (some (.create 3 code none 0))

/-- `packet_template_failure`. -/
def packetTemplateFailure (code : ℤ) : Option (Option Built) := some (some (.create 4 code none 0))

/-- `packet_template_bad_state`. -/
def packetTemplateBadState (code : ℤ) : Option (Option Built) := some (some (.create 7 code none 0))

/-- `error_strings[code]`.  `none` is a read in front of the table. -/
def errorString (code : ℤ) : Option CString := if code < 0 then none else errorStrings[code.toNat]?

/-- `packet_template_error`. -/
def packetTemplateError (code : ℤ) : Option (Option Built) := do
  let code := if (errorStrings.length : ℤ) - 1 < code then 0 else code
  let text ← errorString code
  let msg ← allocate text.length
  let msg ← msg.write 0 (text ++ [0])
  let s ← msg.string
  pure (some (.create 0 code (some msg) s.length))

/-- `packet_template_update_position`. -/
def packetTemplateUpdatePosition (id : Option CString) (x y : ℤ) : Option (Option Built) :=
  match id with
  | none => some none
  | some id => do
    let length := wrap32 id.length
    let size := wrap32 (8 + length)
    let body ← buildBody size x y (id ++ [0]) (sizeT length)
    pure (some (.create 6 0 (some body) size))

/-- `packet_template_player`. -/
def packetTemplatePlayer (code : ℤ) (name : CString) (x y : ℤ) : Option (Option Built) := do
  let size := wrap32 (8 + name.length + 1)
  let body ← buildBody size x y (name ++ [0]) (name.length + 1)
  pure (some (.create 8 code (some body) size))

/-- `packet_template_map`, for the map that was loaded. -/
def packetTemplateMap (map : Map) : Option (Option Built) := do
  let cells := wrap32 (map.width * map.height)
  let size := wrap32 (8 + cells)
  let body ← buildBody size map.width map.height map.decor (sizeT cells)
  pure (some (.create 9 0 (some body) size))

/-- `packet_template_leaving_map`. -/
def packetTemplateLeavingMap (id : CString) : Option (Option Built) := do
  let size := wrap32 id.length
  let body ← allocate (sizeT (wrap32 (size + 1)))
  let body ← body.strncpy 0 (id ++ [0]) (sizeT (wrap32 (size + 1)))
  pure (some (.create 10 0 (some body) size))

end Bodies

/-- A call of a template. -/
inductive Template where
  | success (code : ℤ)
  | failure (code : ℤ)
  | badState (code : ℤ)
  | error (code : ℤ)
  | updatePosition (id : Option CString) (x y : ℤ)
  | player (code : ℤ) (name : CString) (x y : ℤ)
  | map (tile : Map)
  | leavingMap (id : CString)

/-- The packet of a template.  `none` is a write outside of its body, and `some none` the
null pointer. -/
def Template.build : Template → Option (Option Built)
  | .success code => Bodies.packetTemplateSuccess code
  | .failure code => Bodies.packetTemplateFailure code
  | .badState code => Bodies.packetTemplateBadState code
  | .error code => Bodies.packetTemplateError code
  | .updatePosition id x y => Bodies.packetTemplateUpdatePosition id x y
  | .player code name x y => Bodies.packetTemplatePlayer code name x y
  | .map tile => Bodies.packetTemplateMap tile
  | .leavingMap id => Bodies.packetTemplateLeavingMap id

/-! ## Within the body -/

/-- No write goes outside, and the bytes the packet states to have are there. -/
def BuiltWithin (result : Option (Option Built)) : Prop :=
  ∃ r, result = some r ∧ ∀ built, r = some built →
    Block.Written built.length.toNat (built.data.getD [])

/-- The sizes of a template fit into an `int`. -/
def Template.Fits : Template → Prop
  | .success _ | .failure _ | .badState _ => True
  | .error _ => False
  | .updatePosition id _ _ => ∀ s, id = some s → 0 ≤ wrap32 s.length ∧ wrap32 s.length + 8 < 2 ^ 31
  | .player _ name _ _ => name.length + 9 < 2 ^ 31
  | .map tile => 0 ≤ wrap32 (tile.width * tile.height) ∧
      wrap32 (tile.width * tile.height) + 8 < 2 ^ 31 ∧
      (0 ∈ tile.decor ∨ (wrap32 (tile.width * tile.height)).toNat ≤ tile.decor.length)
  | .leavingMap id => 0 ≤ wrap32 id.length ∧ wrap32 id.length + 1 < 2 ^ 31

/-- A packet without a body. -/
theorem builtWithin_empty (opcode : UInt8) (id : ℤ) :
    BuiltWithin (some (some (.create opcode id none 0))) := by
  refine ⟨_, rfl, fun built hbuilt => ?_⟩
  obtain rfl := Option.some.inj hbuilt
  exact Block.written_zero _

/-- A packet with one. -/
theorem builtWithin_body_iff {body : Option Block} {opcode : UInt8} {id size : ℤ} :
    BuiltWithin (body.bind fun body => some (some (.create opcode id (some body) size))) ↔
      ∃ b, body = some b ∧ Block.Written (BitVec.ofInt 32 size).toNat b := by
  constructor
  · rintro ⟨r, hr, hwritten⟩
    obtain ⟨b, rfl, hb⟩ := Option.bind_eq_some_iff.mp hr
    exact ⟨b, rfl, hwritten _ (Option.some.inj hb).symm⟩
  · rintro ⟨b, rfl, hwritten⟩
    refine ⟨_, rfl, fun built hbuilt => ?_⟩
    obtain rfl := Option.some.inj hbuilt
    exact hwritten

/-! ## Two numbers and a string -/

section Body

variable {size a b : ℤ} {src : List UInt8} {n : ℕ} {body : Block}

theorem sizeT_of_nonneg (h : 0 ≤ size) (hsize : IsInt32 size) : sizeT size = size.toNat := by
  obtain ⟨-, hlt⟩ := hsize
  rw [sizeT]
  omega

theorem sizeT_natCast {m : ℕ} (h : m < 2 ^ 31) : sizeT m = m := by
  rw [sizeT_of_nonneg (by omega) ⟨by omega, by omega⟩, Int.toNat_natCast]

theorem le_sizeT_of_neg (h : size < 0) (hsize : IsInt32 size) : 2 ^ 63 ≤ sizeT size := by
  obtain ⟨hle, -⟩ := hsize
  rw [sizeT]
  omega

theorem toNat_ofInt (h : 0 ≤ size) (hsize : IsInt32 size) :
    (BitVec.ofInt 32 size).toNat = size.toNat := by
  obtain ⟨-, hlt⟩ := hsize
  rw [BitVec.toNat_ofInt]
  omega

/-- What is allocated is as large as the `int` says. -/
theorem allocate_eq_some (hsize : IsInt32 size) :
    allocate (sizeT size) = some body ↔ 0 ≤ size ∧ body = malloc size.toNat := by
  rw [allocate]
  by_cases h : size < 0
  · rw [if_pos (le_sizeT_of_neg h hsize)]
    exact iff_of_false (Option.some_ne_none body).symm fun hbody => by omega
  · have hnat := sizeT_of_nonneg (not_lt.mp h) hsize
    obtain ⟨-, hlt⟩ := hsize
    rw [hnat, if_neg (by omega), Option.some.injEq]
    exact ⟨fun hbody => ⟨not_lt.mp h, hbody.symm⟩, fun hbody => hbody.2.symm⟩

/-- **The writes go outside** unless the block has room for all of them. -/
theorem buildBody_eq_some (hsize : IsInt32 size) :
    buildBody size a b src n = some body ↔ (0 ∈ src ∨ n ≤ src.length) ∧ 8 + (n : ℤ) ≤ size ∧
      body = Block.filled (intBytes a ++ intBytes b ++ strncpyBytes src n)
        (size.toNat - 4 - 4 - n) := by
  have ha := length_intBytes a
  have hb := length_intBytes b
  have hn := length_strncpyBytes src n
  have hab : (intBytes a ++ intBytes b).length = 8 := by rw [List.length_append, ha, hb]
  simp only [buildBody, Option.bind_eq_bind, Option.bind_eq_some_iff, allocate_eq_some hsize,
    strncpy_eq_some]
  constructor
  · rintro ⟨_, ⟨hnonneg, rfl⟩, body₁, h₁, body₂, h₂, hread, h₃⟩
    obtain ⟨hle₁, rfl⟩ := Block.write_malloc_eq_some.mp h₁
    obtain ⟨hle₂, rfl⟩ := (Block.write_filled_eq_some ha).mp h₂
    obtain ⟨hle₃, rfl⟩ := (Block.write_filled_eq_some hab).mp h₃
    rw [ha, hb, hn] at hle₃ ⊢
    exact ⟨hread, by omega, rfl⟩
  · rintro ⟨hread, hfits, rfl⟩
    have h₁ := Block.write_malloc_eq_some.mpr ⟨show (intBytes a).length ≤ size.toNat by omega, rfl⟩
    have h₂ := (Block.write_filled_eq_some ha).mpr
      ⟨show (intBytes b).length ≤ size.toNat - (intBytes a).length by omega, rfl⟩
    have h₃ := (Block.write_filled_eq_some hab).mpr
      ⟨show (strncpyBytes src n).length ≤ size.toNat - (intBytes a).length - (intBytes b).length
        by omega, rfl⟩
    rw [ha, hb, hn] at h₃
    rw [ha, hb] at h₂
    rw [ha] at h₁
    exact ⟨_, ⟨by omega, rfl⟩, _, h₁, _, h₂, hread, h₃⟩

/-- **A packet of two numbers and a string** is built within its body exactly when its length
is that of what has been written. -/
theorem builtWithin_buildBody_iff {opcode : UInt8} {id : ℤ} (hsize : IsInt32 size) :
    BuiltWithin ((buildBody size a b src n).bind fun body =>
      some (some (.create opcode id (some body) size))) ↔
      (0 ∈ src ∨ n ≤ src.length) ∧ size = 8 + (n : ℤ) := by
  rw [builtWithin_body_iff]
  have hlen : (intBytes a ++ intBytes b ++ strncpyBytes src n).length = 8 + n := by
    rw [List.length_append, List.length_append, length_intBytes, length_intBytes,
      length_strncpyBytes]
  constructor
  · rintro ⟨body, hbody, hwritten⟩
    obtain ⟨hread, hfits, rfl⟩ := (buildBody_eq_some hsize).mp hbody
    rw [toNat_ofInt (by omega) hsize, Block.written_filled_iff, hlen] at hwritten
    exact ⟨hread, by omega⟩
  · rintro ⟨hread, hfits⟩
    refine ⟨_, (buildBody_eq_some hsize).mpr ⟨hread, by omega, rfl⟩, ?_⟩
    rw [toNat_ofInt (by omega) hsize, Block.written_filled_iff, hlen]
    omega

end Body

/-! ## The templates one by one -/

/-- The text of an error has no room for its zero byte. -/
theorem not_builtWithin_error (code : ℤ) : ¬BuiltWithin (Bodies.packetTemplateError code) := by
  rintro ⟨r, hr, -⟩
  simp only [Bodies.packetTemplateError, Option.bind_eq_bind, Option.bind_eq_some_iff,
    allocate, Option.ite_none_left_eq_some, Block.write_eq_some] at hr
  obtain ⟨text, -, msg, ⟨-, hmsg⟩, msg', ⟨hfits, -⟩, -⟩ := hr
  rw [← Option.some.inj hmsg, Block.length_malloc, List.length_append,
    List.length_singleton] at hfits
  omega

section Sizes

variable {size : ℤ}

/-- A sum that is kept in an `int` is exact when it fits. -/
theorem wrap32_eq_iff (h : 0 ≤ size) : wrap32 size = size ↔ size < 2 ^ 31 := by
  constructor
  · intro heq
    have hsize := isInt32_wrap32 size
    rw [heq] at hsize
    exact hsize.2
  · exact fun hlt => wrap32_eq (by omega) hlt

/-- The size of two numbers and `size` bytes more. -/
theorem wrap32_add_sizeT_iff (h : IsInt32 size) :
    wrap32 (8 + size) = 8 + (sizeT size : ℤ) ↔ 0 ≤ size ∧ size + 8 < 2 ^ 31 := by
  by_cases hneg : size < 0
  · have hlarge := le_sizeT_of_neg hneg h
    obtain ⟨-, hlt⟩ := isInt32_wrap32 (8 + size)
    exact iff_of_false (by omega) (by omega)
  · have hnonneg : 0 ≤ 8 + size := by omega
    rw [sizeT_of_nonneg (by omega) h, Int.toNat_of_nonneg (by omega), wrap32_eq_iff hnonneg]
    omega

end Sizes

theorem packetTemplateUpdatePosition_some (id : CString) (x y : ℤ) :
    Bodies.packetTemplateUpdatePosition (some id) x y
      = (buildBody (wrap32 (8 + wrap32 id.length)) x y (id ++ [0]) (sizeT (wrap32 id.length))).bind
        fun body => some (some (.create 6 0 (some body) (wrap32 (8 + wrap32 id.length)))) := rfl

theorem builtWithin_updatePosition_iff {id : CString} {x y : ℤ} :
    BuiltWithin (Bodies.packetTemplateUpdatePosition (some id) x y) ↔
      0 ≤ wrap32 id.length ∧ wrap32 id.length + 8 < 2 ^ 31 := by
  rw [packetTemplateUpdatePosition_some, builtWithin_buildBody_iff (isInt32_wrap32 _),
    wrap32_add_sizeT_iff (isInt32_wrap32 _)]
  exact and_iff_right (zero_mem_string id _)

theorem packetTemplatePlayer_eq (code : ℤ) (name : CString) (x y : ℤ) :
    Bodies.packetTemplatePlayer code name x y
      = (buildBody (wrap32 (8 + name.length + 1)) x y (name ++ [0]) (name.length + 1)).bind
        fun body => some (some (.create 8 code (some body) (wrap32 (8 + name.length + 1)))) := rfl

theorem builtWithin_player_iff {code : ℤ} {name : CString} {x y : ℤ} :
    BuiltWithin (Bodies.packetTemplatePlayer code name x y) ↔ name.length + 9 < 2 ^ 31 := by
  have hsum : (8 : ℤ) + (name.length + 1 : ℕ) = 8 + name.length + 1 := by omega
  rw [packetTemplatePlayer_eq, builtWithin_buildBody_iff (isInt32_wrap32 _), hsum,
    wrap32_eq_iff (by omega), and_iff_right (zero_mem_string name _)]
  omega

theorem packetTemplateMap_eq (tile : Map) :
    Bodies.packetTemplateMap tile
      = (buildBody (wrap32 (8 + wrap32 (tile.width * tile.height))) tile.width tile.height
        tile.decor (sizeT (wrap32 (tile.width * tile.height)))).bind fun body => some (some
          (.create 9 0 (some body) (wrap32 (8 + wrap32 (tile.width * tile.height))))) := rfl

theorem builtWithin_map_iff {tile : Map} :
    BuiltWithin (Bodies.packetTemplateMap tile) ↔ (Template.map tile).Fits := by
  have hcells := isInt32_wrap32 (tile.width * tile.height)
  rw [packetTemplateMap_eq, builtWithin_buildBody_iff (isInt32_wrap32 _),
    wrap32_add_sizeT_iff hcells, Template.Fits]
  constructor
  · rintro ⟨hread, hnonneg, hlt⟩
    rw [sizeT_of_nonneg hnonneg hcells] at hread
    exact ⟨hnonneg, hlt, hread⟩
  · rintro ⟨hnonneg, hlt, hread⟩
    rw [sizeT_of_nonneg hnonneg hcells]
    exact ⟨hread, hnonneg, hlt⟩

theorem packetTemplateLeavingMap_eq (id : CString) :
    Bodies.packetTemplateLeavingMap id
      = ((allocate (sizeT (wrap32 (wrap32 id.length + 1)))).bind fun body =>
          body.strncpy 0 (id ++ [0]) (sizeT (wrap32 (wrap32 id.length + 1)))).bind
        fun body => some (some (.create 10 0 (some body) (wrap32 id.length))) := by
  rw [Option.bind_assoc]
  rfl

theorem builtWithin_leavingMap_iff {id : CString} :
    BuiltWithin (Bodies.packetTemplateLeavingMap id) ↔
      0 ≤ wrap32 id.length ∧ wrap32 id.length + 1 < 2 ^ 31 := by
  have hlength := isInt32_wrap32 (id.length : ℤ)
  rw [packetTemplateLeavingMap_eq, builtWithin_body_iff]
  generalize wrap32 (id.length : ℤ) = length at hlength
  have hsize := isInt32_wrap32 (length + 1)
  constructor
  · rintro ⟨b, hb, hwritten⟩
    obtain ⟨body, hbody, hcopy⟩ := Option.bind_eq_some_iff.mp hb
    obtain ⟨hnonneg, rfl⟩ := (allocate_eq_some hsize).mp hbody
    rw [sizeT_of_nonneg hnonneg hsize, strncpy_malloc] at hcopy
    rw [← Option.some.inj hcopy, Block.written_filled_iff, length_strncpyBytes,
      BitVec.toNat_ofInt] at hwritten
    obtain ⟨hle, hlt⟩ := hlength
    obtain ⟨-, hsizelt⟩ := hsize
    have hlength0 : 0 ≤ length := by omega
    refine ⟨hlength0, ?_⟩
    by_contra hlarge
    -- the largest `int`, which has no successor
    have hmax : length + 1 = 2 ^ 31 := by omega
    have hneg : wrap32 (2 ^ 31) = -2 ^ 31 := by decide
    rw [hmax, hneg] at hnonneg
    omega
  · rintro ⟨hnonneg, hlt⟩
    have hexact : wrap32 (length + 1) = length + 1 := wrap32_eq (by omega) (by omega)
    rw [hexact] at hsize ⊢
    have hnat := sizeT_of_nonneg (by omega) hsize
    have halloc : allocate (sizeT (length + 1)) = some (malloc (length + 1).toNat) :=
      (allocate_eq_some hsize).mpr ⟨by omega, rfl⟩
    refine ⟨Block.filled (strncpyBytes (id ++ [0]) (length + 1).toNat) 0, ?_, ?_⟩
    · rw [halloc, Option.bind_some, hnat, strncpy_malloc]
    · rw [toNat_ofInt hnonneg hlength, Block.written_filled_iff, length_strncpyBytes]
      omega

/-! ## All templates -/

/-- **When a packet is built within its body.**  For every call of a template: an error never
is, and every other packet exactly if its sizes fit into an `int`. -/
theorem template_builtWithin_iff (template : Template) :
    BuiltWithin template.build ↔ template.Fits := by
  cases template with
  | success code => exact iff_of_true (builtWithin_empty 3 code) trivial
  | failure code => exact iff_of_true (builtWithin_empty 4 code) trivial
  | badState code => exact iff_of_true (builtWithin_empty 7 code) trivial
  | error code => exact iff_of_false (not_builtWithin_error code) not_false
  | updatePosition id x y =>
    cases id with
    | none =>
      refine iff_of_true ⟨none, rfl, fun built hbuilt => ?_⟩ fun s hs => ?_
      · exact absurd hbuilt (Option.some_ne_none built).symm
      · exact absurd hs (Option.some_ne_none s).symm
    | some id =>
      refine builtWithin_updatePosition_iff.trans ⟨fun h s hs => ?_, fun h => h id rfl⟩
      rwa [← Option.some.inj hs]
  | player code name x y => exact builtWithin_player_iff
  | map tile => exact builtWithin_map_iff
  | leavingMap id => exact builtWithin_leavingMap_iff

/-- **The text of the error 1** is copied behind its body. -/
theorem template_error_not_builtWithin : ¬BuiltWithin (Template.error 1).build :=
  not_builtWithin_error 1

/-- A map with as many bytes of decor as it has cells, as `map_create` makes it. -/
theorem fits_map {tile : Map} (hdecor : (tile.decor.length : ℤ) = tile.width * tile.height)
    (hlt : tile.decor.length + 8 < 2 ^ 31) : (Template.map tile).Fits := by
  have hexact : wrap32 (tile.width * tile.height) = tile.decor.length := by
    rw [← hdecor]
    exact wrap32_eq (by omega) (by omega)
  rw [Template.Fits, hexact]
  exact ⟨by omega, by omega, Or.inr (by omega)⟩

theorem length_decor_drawCross (i : ℕ) (tile : Map) :
    (drawCross i tile).decor.length = tile.decor.length := List.length_set

/-- A wall of crosses. -/
theorem length_decor_foldl_drawCross (f : ℕ → ℕ) (l : List ℕ) (tile : Map) :
    (l.foldl (fun tile i => drawCross (f i) tile) tile).decor.length = tile.decor.length := by
  induction l generalizing tile with
  | nil => rfl
  | cons i l ih =>
    rw [List.foldl_cons, ih]
    exact length_decor_drawCross (f i) tile

/-- The maps of the repository fit. -/
theorem fits_mapLoaders : ∀ tile ∈ mapLoaders.loaders, (Template.map tile).Fits := by
  have hcreate : ∀ id width height : ℤ,
      (clearCollision (mapCreate id width height)).decor.length = (height * width).toNat :=
    fun _ _ _ => List.length_replicate
  intro tile htile
  rcases List.mem_cons.mp htile with rfl | htile
  · have hdecor : mapDefTestTile.decor
        = (drawCross (32 * 6 - 1) (clearCollision (mapCreate 0 32 8))).decor := rfl
    have hlen : mapDefTestTile.decor.length = (8 * 32 : ℤ).toNat := by
      rw [hdecor, length_decor_drawCross]
      exact hcreate 0 32 8
    exact fits_map (by rw [hlen]; rfl) (by omega)
  · have hdecor : mapDefTestTile2.decor = (drawCross (24 * 5)
        ([1, 2, 3, 4, 5, 6].foldl (fun tile i => drawCross (24 * i - 1) tile)
          (clearCollision (mapCreate 1 24 6)))).decor := rfl
    have hlen : mapDefTestTile2.decor.length = (6 * 24 : ℤ).toNat := by
      rw [hdecor, length_decor_drawCross, length_decor_foldl_drawCross fun i => 24 * i - 1]
      exact hcreate 1 24 6
    rw [List.mem_singleton.mp htile]
    exact fits_map (by rw [hlen]; rfl) (by omega)

/-! ## The packets of the templates

Built within its body, a packet is the one that `ServerPacket.toPacket` says. -/

/-- The packet has these bytes. -/
structure Built.Carries (built : Built) (packet : Packet) : Prop where
  opcode : built.opcode = packet.opcode
  id : built.id = packet.id
  length : built.length = packet.length
  data : ∀ i < packet.length.toNat, (built.data.getD [])[i]? = (packet.data[i]?).map some

/-- It is built within its body, with these bytes. -/
def Builds (result : Option (Option Built)) (packet : Packet) : Prop :=
  ∃ built, result = some (some built) ∧ built.Carries packet

/-- What a template says. -/
def Template.serverPacket : Template → Option ServerPacket
  | .success code => some (.success (BitVec.ofInt 32 code))
  | .failure code => some (.failure (BitVec.ofInt 32 code))
  | .badState code => some (.badState (BitVec.ofInt 32 code))
  | .error code => packetTemplateError code
  | .updatePosition id x y => packetTemplateUpdatePosition id x y
  | .player code name x y => some (.player (BitVec.ofInt 32 code) name x y)
  | .map tile => some (.map tile.width tile.height tile.decor)
  | .leavingMap id => some (.leavingMap id)

/-- Strings without a zero byte, maps with the decor of all their cells, and sizes that fit. -/
def Template.Plain : Template → Prop
  | .success _ | .failure _ | .badState _ => True
  | .error _ => False
  | .updatePosition id _ _ => ∀ s, id = some s → 0 ∉ s ∧ s.length + 8 < 2 ^ 31
  | .player _ name _ _ => 0 ∉ name ∧ name.length + 9 < 2 ^ 31
  | .map tile => 0 ∉ tile.decor ∧ (tile.decor.length : ℤ) = tile.width * tile.height ∧
      tile.decor.length + 8 < 2 ^ 31
  | .leavingMap id => 0 ∉ id ∧ id.length + 1 < 2 ^ 31

/-- A block starts with the data. -/
theorem carries_filled {opcode : UInt8} {id size : ℤ} {data bytes : List UInt8} {k : ℕ}
    (hpre : data <+: bytes) (hsize : size = data.length) :
    (Built.create opcode id (some (Block.filled bytes k)) size).Carries
      (packetCreate opcode (BitVec.ofInt 32 id) data) where
  opcode := rfl
  id := rfl
  length := by
    rw [hsize]
    exact BitVec.ofInt_natCast 32 data.length
  data i hi := by
    have hlt : i < data.length := hi.trans_le ((BitVec.toNat_ofNat _ 32).trans_le (Nat.mod_le _ _))
    obtain ⟨more, rfl⟩ := hpre
    show (Block.filled (data ++ more) k)[i]? = data[i]?.map some
    rw [Block.filled, List.map_append, List.append_assoc,
      List.getElem?_append_left (by rw [List.length_map]; omega), List.getElem?_map]

theorem builds_empty (opcode : UInt8) (id : ℤ) :
    Builds (some (some (.create opcode id none 0))) (packetCreate opcode (BitVec.ofInt 32 id) []) :=
  ⟨_, rfl, rfl, rfl, rfl, fun i hi => absurd hi (Nat.not_lt_zero i)⟩

/-- A packet of two numbers and a string. -/
theorem builds_buildBody {a b : ℤ} {src : List UInt8} {n : ℕ} (opcode : UInt8) (id : ℤ)
    (hread : 0 ∈ src ∨ n ≤ src.length) (hlt : 8 + n < 2 ^ 31) :
    Builds ((buildBody (8 + n) a b src n).bind fun body =>
        some (some (.create opcode id (some body) (8 + n))))
      (packetCreate opcode (BitVec.ofInt 32 id)
        (intBytes a ++ intBytes b ++ strncpyBytes src n)) := by
  have hsize : IsInt32 (8 + n) := ⟨by omega, by omega⟩
  rw [(buildBody_eq_some hsize).mpr ⟨hread, le_refl _, rfl⟩]
  refine ⟨_, rfl, carries_filled (List.prefix_refl _) ?_⟩
  rw [List.length_append, List.length_append, length_intBytes, length_intBytes,
    length_strncpyBytes]
  omega

theorem builds_updatePosition {id : CString} (hzero : 0 ∉ id) (hlt : id.length + 8 < 2 ^ 31)
    (x y : ℤ) : Builds (Bodies.packetTemplateUpdatePosition (some id) x y)
      (ServerPacket.updatePosition id x y).toPacket := by
  have hlength : wrap32 id.length = id.length := wrap32_eq (by omega) (by omega)
  have hsize : wrap32 (8 + id.length) = 8 + id.length := wrap32_eq (by omega) (by omega)
  have hbuilds := builds_buildBody (a := x) (b := y) 6 0 (zero_mem_string id id.length) (by omega)
  rw [strncpyBytes_append hzero] at hbuilds
  rw [packetTemplateUpdatePosition_some, hlength, sizeT_natCast (by omega), hsize]
  exact hbuilds

theorem builds_player {name : CString} (hzero : 0 ∉ name) (hlt : name.length + 9 < 2 ^ 31)
    (code x y : ℤ) : Builds (Bodies.packetTemplatePlayer code name x y)
      (ServerPacket.player (BitVec.ofInt 32 code) name x y).toPacket := by
  have hsize : wrap32 (8 + name.length + 1) = 8 + (name.length + 1 : ℕ) := by
    rw [wrap32_eq (by omega) (by omega), Nat.cast_add_one, add_assoc]
  have hbuilds := builds_buildBody (a := x) (b := y) 8 code
    (zero_mem_string name (name.length + 1)) (by omega)
  rw [strncpyBytes_string hzero, ← List.append_assoc] at hbuilds
  rw [packetTemplatePlayer_eq, hsize]
  exact hbuilds

theorem builds_map {tile : Map} (hzero : 0 ∉ tile.decor)
    (hdecor : (tile.decor.length : ℤ) = tile.width * tile.height)
    (hlt : tile.decor.length + 8 < 2 ^ 31) : Builds (Bodies.packetTemplateMap tile)
      (ServerPacket.map tile.width tile.height tile.decor).toPacket := by
  have hcells : wrap32 (tile.width * tile.height) = tile.decor.length := by
    rw [← hdecor]
    exact wrap32_eq (by omega) (by omega)
  have hsize : wrap32 (8 + tile.decor.length) = 8 + tile.decor.length :=
    wrap32_eq (by omega) (by omega)
  have hbytes := strncpyBytes_append hzero []
  have hbuilds := builds_buildBody (a := tile.width) (b := tile.height) 9 0
    (Or.inr (le_refl tile.decor.length)) (by omega)
  rw [List.append_nil] at hbytes
  rw [hbytes] at hbuilds
  rw [packetTemplateMap_eq, hcells, sizeT_natCast (by omega), hsize]
  exact hbuilds

theorem builds_leavingMap {id : CString} (hzero : 0 ∉ id) (hlt : id.length + 1 < 2 ^ 31) :
    Builds (Bodies.packetTemplateLeavingMap id) (ServerPacket.leavingMap id).toPacket := by
  have hlength : wrap32 id.length = id.length := wrap32_eq (by omega) (by omega)
  have hsize : wrap32 (id.length + 1) = (id.length + 1 : ℕ) := wrap32_eq (by omega) (by omega)
  have hbody : allocate (sizeT (id.length + 1 : ℕ)) = some (malloc (id.length + 1)) :=
    (allocate_eq_some ⟨by omega, by omega⟩).mpr ⟨by omega, rfl⟩
  have hcarries : (Built.create 10 0 (some (Block.filled (id ++ [0]) 0)) id.length).Carries
      (ServerPacket.leavingMap id).toPacket := carries_filled (List.prefix_append id [0]) rfl
  refine ⟨_, ?_, hcarries⟩
  rw [packetTemplateLeavingMap_eq, hlength, hsize, hbody, Option.bind_some,
    sizeT_natCast (by omega), strncpy_malloc, strncpyBytes_string hzero]
  rfl

/-- **The templates build what they say**, when their sizes fit: the block holds the bytes of
the packet, and the packet states their number. -/
theorem Template.Plain.builds {template : Template} (h : template.Plain) {packet : ServerPacket}
    (hpacket : template.serverPacket = some packet) : Builds template.build packet.toPacket := by
  cases template with
  | success code =>
    obtain rfl := Option.some.inj hpacket
    exact builds_empty 3 code
  | failure code =>
    obtain rfl := Option.some.inj hpacket
    exact builds_empty 4 code
  | badState code =>
    obtain rfl := Option.some.inj hpacket
    exact builds_empty 7 code
  | error code => exact h.elim
  | updatePosition id x y =>
    obtain ⟨id, rfl, rfl⟩ := Option.map_eq_some_iff.mp hpacket
    obtain ⟨hzero, hlt⟩ := h id rfl
    exact builds_updatePosition hzero hlt x y
  | player code name x y =>
    obtain rfl := Option.some.inj hpacket
    exact builds_player h.1 h.2 code x y
  | map tile =>
    obtain rfl := Option.some.inj hpacket
    obtain ⟨hzero, hdecor, hlt⟩ := h
    exact builds_map hzero hdecor hlt
  | leavingMap id =>
    obtain rfl := Option.some.inj hpacket
    exact builds_leavingMap h.1 h.2

end Communication
end MmoBackend
