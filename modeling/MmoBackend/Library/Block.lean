import Mathlib.Data.List.TakeWhile
import MmoBackend.Library.Memory

/-!
# Blocks of memory that know what has been written

A block is a list with an entry for each byte: the byte, once one has been written there, and
`none` before.  `malloc` hands out a block without a byte, a write into a block has to fit,
and reading a string stops where nothing has been written as well as at the end of the block.

`Written n b` says that the first `n` bytes are there.  A block that is written from its front
is `filled l n` all the way: a write at its end appends to `l`, and `l` is what has been written.
-/

namespace MmoBackend

/-- A block of memory. -/
abbrev Block := List (Option UInt8)

/-- A new block. -/
def malloc (n : ℕ) : Block := List.replicate n none

namespace Block

open Memory

/-- Write bytes at an offset.  `none` is a write that goes outside. -/
def write (k : ℕ) (l : List UInt8) (b : Block) : Option Block :=
  if k + l.length ≤ b.length then some (poke k (l.map some) b) else none

/-- The string a pointer to the block points to.  `none` is a string that does not end, or
the reading of a byte that has not been written. -/
def string : Block → Option (List UInt8)
  | [] => none
  | none :: _ => none
  | some c :: b => if c = 0 then some [] else (string b).map (c :: ·)

/-- The `n` bytes that `strncpy` writes: those of the source before its first zero byte, and
then zeros. -/
def strncpyBytes (src : List UInt8) (n : ℕ) : List UInt8 :=
  let s := (src.take n).takeWhile fun c => c ≠ 0
  s ++ List.replicate (n - s.length) 0

/-- `strncpy`, from a pointer behind which `src` is in memory.  `none` is also a source that
ends before the copy does. -/
def strncpy (k : ℕ) (src : List UInt8) (n : ℕ) (b : Block) : Option Block :=
  if 0 ∈ src ∨ n ≤ src.length then b.write k (strncpyBytes src n) else none

/-- A block that has been written from its front, with `n` bytes to go. -/
def filled (l : List UInt8) (n : ℕ) : Block := l.map some ++ malloc n

/-- The first `n` bytes have been written. -/
def Written (n : ℕ) (b : Block) : Prop := ∀ i < n, ∃ c, b[i]? = some (some c)

variable {k n : ℕ} {l s : List UInt8} {b b' : Block}

@[simp] theorem length_malloc (n : ℕ) : (malloc n).length = n := List.length_replicate

/-! ## Writes -/

theorem write_eq_some :
    write k l b = some b' ↔ k + l.length ≤ b.length ∧ b' = poke k (l.map some) b := by
  rw [write, Option.ite_none_right_eq_some, eq_comm, Option.some.injEq, eq_comm (a := b')]

theorem write_isSome : (write k l b).isSome = true ↔ k + l.length ≤ b.length := by
  rw [write]
  split <;> simp_all

/-- A write at the front of a block. -/
theorem write_zero (h : l.length ≤ b.length) :
    write 0 l b = some (l.map some ++ b.drop l.length) := by
  rw [write_eq_some]
  refine ⟨by omega, ?_⟩
  rw [poke, List.take_zero, List.nil_append, List.length_map, Nat.zero_add]

/-! ## Bytes that are there -/

theorem written_zero (b : Block) : Written 0 b := fun _ hi => absurd hi (Nat.not_lt_zero _)

/-! ## Blocks that are written from the front -/

@[simp] theorem length_filled (l : List UInt8) (n : ℕ) : (filled l n).length = l.length + n := by
  simp [filled]

/-- A write at the end of what is there. -/
theorem write_filled_eq_some (hk : l.length = k) : write k s (filled l n) = some b' ↔
    s.length ≤ n ∧ b' = filled (l ++ s) (n - s.length) := by
  have hfront : (l.map some).length = k := (List.length_map some).trans hk
  have hpoke : poke k (s.map some) (filled l n) = filled (l ++ s) (n - s.length) := by
    rw [poke, filled, filled, List.take_left' hfront, List.drop_append, hfront, List.length_map,
      Nat.add_sub_cancel_left, List.drop_eq_nil_of_le (by omega), List.nil_append, malloc, malloc,
      List.drop_replicate, List.map_append]
  rw [write_eq_some, hpoke, length_filled, hk, Nat.add_le_add_iff_left]

/-- The first write into a new block. -/
theorem write_malloc_eq_some : write 0 s (malloc n) = some b' ↔
    s.length ≤ n ∧ b' = filled s (n - s.length) :=
  write_filled_eq_some (l := []) rfl

/-- What is there is what has been written. -/
theorem written_filled_iff : Written n (filled l k) ↔ n ≤ l.length := by
  constructor
  · intro h
    by_contra hlt
    obtain ⟨c, hc⟩ := h l.length (by omega)
    rw [filled, List.getElem?_append_right (by simp), List.length_map, Nat.sub_self, malloc,
      List.getElem?_replicate] at hc
    split at hc <;> cases hc
  · intro hle i hi
    have hlt : i < l.length := by omega
    refine ⟨l[i], ?_⟩
    rw [filled, List.getElem?_append_left (by rw [List.length_map]; omega), List.getElem?_map,
      List.getElem?_eq_getElem hlt]
    rfl

/-! ## Copies -/

theorem strncpy_eq_some : strncpy k s n b = some b' ↔
    (0 ∈ s ∨ n ≤ s.length) ∧ write k (strncpyBytes s n) b = some b' :=
  Option.ite_none_right_eq_some

theorem length_strncpyBytes (s : List UInt8) (n : ℕ) : (strncpyBytes s n).length = n := by
  have hle : ((s.take n).takeWhile fun c => c ≠ 0).length ≤ n :=
    (List.takeWhile_prefix _).length_le.trans (List.length_take_le n s)
  rw [strncpyBytes, List.length_append, List.length_replicate]
  omega

/-- A string that is copied without its zero byte. -/
theorem strncpyBytes_append (h : 0 ∉ s) (l : List UInt8) :
    strncpyBytes (s ++ l) s.length = s := by
  have hall : ∀ c ∈ s, decide (c ≠ 0) = true := fun c hc =>
    decide_eq_true fun hzero => h (hzero ▸ hc)
  rw [strncpyBytes, List.take_left' rfl, List.takeWhile_eq_self_iff.mpr hall, Nat.sub_self,
    List.replicate_zero, List.append_nil]

/-- A string that is copied with its zero byte. -/
theorem strncpyBytes_string (h : 0 ∉ s) : strncpyBytes (s ++ [0]) (s.length + 1) = s ++ [0] := by
  have hall : ∀ c ∈ s, decide (c ≠ 0) = true := fun c hc =>
    decide_eq_true fun hzero => h (hzero ▸ hc)
  have htake : (s ++ [0]).take (s.length + 1) = s ++ [0] := List.take_of_length_le (by simp)
  have hwhile : (s ++ [0]).takeWhile (fun c => c ≠ 0) = s := by
    rw [List.takeWhile_append_of_pos hall]
    simp
  rw [strncpyBytes, htake, hwhile, Nat.add_sub_cancel_left, List.replicate_one]

/-- There is a zero byte behind a string. -/
theorem zero_mem_string (s : List UInt8) (n : ℕ) : 0 ∈ s ++ [0] ∨ n ≤ (s ++ [0]).length :=
  Or.inl (List.mem_append_right s List.mem_cons_self)

/-- A string that is copied over a new block. -/
theorem strncpy_malloc (s : List UInt8) (n : ℕ) :
    strncpy 0 (s ++ [0]) n (malloc n) = some (filled (strncpyBytes (s ++ [0]) n) 0) := by
  refine strncpy_eq_some.mpr ⟨zero_mem_string s n, write_malloc_eq_some.mpr ?_⟩
  rw [length_strncpyBytes, Nat.sub_self]
  exact ⟨le_refl n, rfl⟩

/-! ## Strings -/

/-- A string that has been written is read. -/
theorem string_append (hs : 0 ∉ s) (b : Block) : string (s.map some ++ some 0 :: b) = some s := by
  induction s with
  | nil => rfl
  | cons c s ih =>
    rw [List.mem_cons, not_or] at hs
    rw [List.map_cons, List.cons_append, string, if_neg (Ne.symm hs.1), ih hs.2]
    rfl

/-- What is read has been written, with a zero byte behind it. -/
theorem string_eq_some :
    string b = some s ↔ 0 ∉ s ∧ ∃ rest, b = s.map some ++ some 0 :: rest := by
  constructor
  · intro h
    induction b generalizing s with
    | nil => cases h
    | cons c b ih =>
      cases c with
      | none => cases h
      | some c =>
        rw [string] at h
        split at h
        · rename_i hc
          obtain rfl := Option.some.inj h
          exact ⟨List.not_mem_nil, b, by rw [hc]; rfl⟩
        · rename_i hc
          obtain ⟨s, hs, rfl⟩ := Option.map_eq_some_iff.mp h
          obtain ⟨hzero, rest, rfl⟩ := ih hs
          refine ⟨?_, rest, rfl⟩
          rw [List.mem_cons, not_or]
          exact ⟨Ne.symm hc, hzero⟩
  · rintro ⟨hs, rest, rfl⟩
    exact string_append hs rest

/-- Nothing can be read from a new block. -/
theorem string_malloc (n : ℕ) : string (malloc n) = none := by
  cases n <;> rfl

/-- A string that has been stored at the front of a block is read. -/
theorem string_write (hs : 0 ∉ s) (h : Block.write 0 (s ++ [0]) b = some b') :
    string b' = some s := by
  obtain ⟨hfits, -⟩ := write_eq_some.mp h
  rw [write_zero (by omega)] at h
  obtain rfl := Option.some.inj h
  rw [List.map_append, List.append_assoc]
  exact string_append hs _

end Block
end MmoBackend
